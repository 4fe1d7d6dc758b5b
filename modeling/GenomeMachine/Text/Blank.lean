/-!
# Blanks, words and lines

Text is handled as a list of characters. White space is the Unicode property of that name.
-/

namespace GenomeMachine

/-- Characters with the `White_Space` property. -/
def isBlank (c : Char) : Bool :=
  let n := c.toNat
  (0x09 ≤ n && n ≤ 0x0D) || n == 0x20 || n == 0x85 || n == 0xA0 || n == 0x1680
    || (0x2000 ≤ n && n ≤ 0x200A) || n == 0x2028 || n == 0x2029 || n == 0x202F
    || n == 0x205F || n == 0x3000

/-- The pieces between the separators, in order and without them; `n` separators make `n + 1`
pieces. -/
def splitWhere {α : Type} (separates : α → Bool) (xs : List α) : List (List α) :=
  xs.foldr (fun x pieces =>
    if separates x then [] :: pieces
    else match pieces with
      | [] => [[x]]
      | piece :: rest => (x :: piece) :: rest) [[]]

/-- The maximal runs of characters that are not blank. -/
def words (cs : List Char) : List (List Char) :=
  (splitWhere isBlank cs).filter (! ·.isEmpty)

/-- The lines of a text. What follows the last line feed is a line too. -/
def lines (cs : List Char) : List (List Char) :=
  splitWhere (· == '\n') cs

/-- The text without the blanks at both ends. -/
def trimBlanks (cs : List Char) : List Char :=
  ((cs.dropWhile isBlank).reverse.dropWhile isBlank).reverse

end GenomeMachine
