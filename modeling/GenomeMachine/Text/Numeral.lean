/-!
# Reading numerals

Digits are ASCII digits, and every reader takes the whole text or refuses it.
-/

namespace GenomeMachine

/-- The value of a digit in bases up to sixteen; letters may have either case. -/
def digitValue (c : Char) : Option Nat :=
  if '0' ≤ c ∧ c ≤ '9' then some (c.toNat - '0'.toNat)
  else if 'a' ≤ c ∧ c ≤ 'f' then some (c.toNat - 'a'.toNat + 10)
  else if 'A' ≤ c ∧ c ≤ 'F' then some (c.toNat - 'A'.toNat + 10)
  else none

/-- Whether the character is a digit of the base. -/
def isDigitIn (base : Nat) (c : Char) : Bool :=
  (digitValue c).any (· < base)

/-- The value of a row of digits, the most significant first. -/
def digitsValue (base : Nat) (cs : List Char) : Nat :=
  cs.foldl (fun value c => value * base + (digitValue c).getD 0) 0

/-- One or more digits of the base. -/
def natural? (base : Nat) (cs : List Char) : Option Nat :=
  if cs ≠ [] ∧ cs.all (isDigitIn base) then some (digitsValue base cs) else none

/-- A numeral that may start with a plus sign. -/
def unsigned? (base : Nat) : List Char → Option Nat
  | '+' :: cs => natural? base cs
  | cs => natural? base cs

/-- A decimal numeral that may start with a sign. -/
def signed? : List Char → Option Int
  | '-' :: cs => (natural? 10 cs).map fun n => -(n : Int)
  | cs => (unsigned? 10 cs).map Int.ofNat

/-- A numeral for a 64-bit signed integer. -/
def int64? (cs : List Char) : Option Int64 :=
  (signed? cs).bind fun n =>
    if Int64.minValue.toInt ≤ n ∧ n ≤ Int64.maxValue.toInt then some (Int64.ofInt n) else none

/-- The largest value of an unsigned 64-bit numeral. -/
def wordLimit : Nat := 0xFFFFFFFFFFFFFFFF

/-- An unsigned numeral that fits in 64 bits. -/
def word? (base : Nat) (cs : List Char) : Option Nat :=
  (unsigned? base cs).filter (· ≤ wordLimit)

end GenomeMachine
