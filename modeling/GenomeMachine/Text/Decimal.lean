import GenomeMachine.Number.Decimal
import GenomeMachine.Text.Numeral

/-!
# Reading decimal numbers

A number is a sign, then either the word `nan`, `inf` or `infinity` in any case, or digits with
an optional point and an optional exponent. At least one digit stands before the exponent.
-/

namespace GenomeMachine

/-- Digits around an optional point, as a whole number of units. -/
def mantissa? (cs : List Char) : Option Decimal :=
  match cs.span (· ≠ '.') with
  | (whole, []) => (natural? 10 whole).map (⟨·, 0⟩)
  | (whole, _ :: fraction) =>
      (natural? 10 (whole ++ fraction)).map (⟨·, -(fraction.length : Int)⟩)

/-- A number without its sign. -/
def magnitude? (cs : List Char) : Option Float :=
  match cs.map Char.toLower with
  | ['n', 'a', 'n'] => some (0.0 / 0.0)
  | ['i', 'n', 'f'] | ['i', 'n', 'f', 'i', 'n', 'i', 't', 'y'] => some (1.0 / 0.0)
  | lowered =>
      match lowered.span (· ≠ 'e') with
      | (digits, []) => (mantissa? digits).map Decimal.toFloat
      | (digits, _ :: exponent) => do
          let d ← mantissa? digits
          let shift ← signed? exponent
          return (Decimal.mk d.digits (d.exponent + shift)).toFloat

/-- The number a text denotes, if it denotes one. -/
def number? : List Char → Option Float
  | '-' :: cs => (magnitude? cs).map (- ·)
  | '+' :: cs => magnitude? cs
  | cs => magnitude? cs

end GenomeMachine
