import GenomeMachine.Number.Binary

/-!
# Numbers as decimal text

A number is written with the fewest digits that read back as the same number, always
positionally. Reading rounds to the nearest number.
-/

namespace GenomeMachine

/-- The number of decimal digits of `n`. -/
def digitCount (n : Nat) : Nat :=
  (Nat.toDigits 10 n).length

/-- A whole number of units, each a power of ten: `digits · 10 ^ exponent`. -/
structure Decimal where
  digits : Nat
  exponent : Int
  deriving DecidableEq

namespace Decimal

/-- The multiple of `10 ^ exponent` that stands for `m · 2 ^ q`, if one does: it must lie
between the midpoints to the two neighbouring numbers, and may be a midpoint when `m` is even.
Of two such multiples the nearer is taken, and the larger when both are equally near.

Everything is scaled by `4 · 10 ^ (-exponent) · 2 ^ (-q)` as far as these are whole. -/
def onGrid? (m : Nat) (q exponent : Int) : Option Decimal :=
  let gap := Nat.pow 10 (-exponent).toNat <<< q.toNat
  let value := 4 * m * gap
  let unit := 4 * (Nat.pow 10 exponent.toNat <<< (-q).toNat)
  let upper := value + 2 * gap
  let lower := if m = Binary.leadingBit ∧ -1074 < q then value - gap else value - 2 * gap
  let inside (x : Nat) : Bool :=
    if m % 2 = 0 then lower ≤ x && x ≤ upper else lower < x && x < upper
  let below := value / unit
  let above := below + 1
  if inside (below * unit) then
    if inside (above * unit) ∧ unit ≤ 2 * (value % unit) then some ⟨above, exponent⟩
    else some ⟨below, exponent⟩
  else if inside (above * unit) then some ⟨above, exponent⟩
  else none

/-- The decimal with the fewest digits that reads back as `m · 2 ^ q`, found on the coarsest
grid that has one. Seventeen digits always suffice. -/
def shortest (m : Nat) (q : Int) : Decimal :=
  let coarsest : Int :=
    (digitCount (m <<< q.toNat) : Int) - digitCount (1 <<< (-q).toNat) + 1
  ((List.range 20).findSome? fun (i : Nat) => onGrid? m q (coarsest - i)).getD ⟨0, 0⟩

/-- All digits in place: zeros fill up to the units, and a point stands before the first digit
below them. -/
def positional (d : Decimal) : List Char :=
  let digits := Nat.toDigits 10 d.digits
  if 0 ≤ d.exponent then digits ++ List.replicate d.exponent.toNat '0'
  else
    let places := (-d.exponent).toNat
    let padded := List.replicate (places + 1 - digits.length) '0' ++ digits
    padded.take (padded.length - places) ++ '.' :: padded.drop (padded.length - places)

/-- The nearest number. Decimals beyond the range of finite numbers become infinite, and those
too small to matter become zero. -/
def toFloat (d : Decimal) : Float :=
  let top : Int := digitCount d.digits + d.exponent
  if d.digits = 0 ∨ top < -400 then 0.0
  else if 400 < top then 1.0 / 0.0
  else Float.ofScientific d.digits (decide (d.exponent < 0)) d.exponent.natAbs

end Decimal

/-- The text of a number. -/
def numberText (x : Float) : String :=
  match Binary.ofFloat x with
  | .nan => "NaN"
  | .infinite negative => if negative then "-inf" else "inf"
  | .finite negative m q =>
      let digits := if m = 0 then ['0'] else (Decimal.shortest m q).positional
      String.ofList (if negative then '-' :: digits else digits)

end GenomeMachine
