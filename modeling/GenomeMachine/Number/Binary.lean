/-!
# Double-precision numbers, taken apart

A finite number is `m · 2 ^ q` with a sign. Truncation to a 64-bit integer and the remainder of
a division are computed exactly on `m` and `q`, without rounding.
-/

namespace GenomeMachine

/-- A double-precision number by its parts; `finite negative m q` stands for `± m · 2 ^ q`. -/
inductive Binary where
  | nan
  | infinite (negative : Bool)
  | finite (negative : Bool) (m : Nat) (q : Int)
  deriving DecidableEq

namespace Binary

/-- The leading bit of the significand of all but the smallest numbers: bit 52. -/
def leadingBit : Nat := 0x10000000000000

/-- The sign among the 64 bits of a number: bit 63. -/
def signBit : Nat := 0x8000000000000000

/-- The parts of a number, read off its 64 bits. -/
def ofFloat (x : Float) : Binary :=
  let bits := x.toBits.toNat
  let negative := decide (signBit ≤ bits)
  let exponent := bits / leadingBit % 2048
  let fraction := bits % leadingBit
  if exponent = 2047 then
    if fraction = 0 then infinite negative else nan
  else if exponent = 0 then finite negative fraction (-1074)
  else finite negative (leadingBit + fraction) ((exponent : Int) - 1075)

/-- The 63 bits below the sign of `m · 2 ^ q`, for `m < 2 ^ 53` and `-1074 ≤ q`: the
significand moves up until its leading bit is bit 52 or the exponent is the least one. -/
def magnitudeBits (m : Nat) (q : Int) : Nat :=
  if m = 0 then 0
  else
    let shift := min (52 - m.log2) (q + 1074).toNat
    let significand := m <<< shift
    if significand < leadingBit then significand
    else (q - shift + 1075).toNat * leadingBit + (significand - leadingBit)

/-- The number with the given parts. -/
def toFloat : Binary → Float
  | nan => 0.0 / 0.0
  | infinite negative => if negative then -1.0 / 0.0 else 1.0 / 0.0
  | finite negative m q =>
      .ofBits (.ofNat ((if negative then signBit else 0) + magnitudeBits m q))

/-- `m · 2 ^ q` cut down to a whole number. -/
def wholePart (m : Nat) (q : Int) : Nat :=
  if 0 ≤ q then m <<< q.toNat else m >>> (-q).toNat

/-- The nearest 64-bit integer toward zero. What lies outside the range goes to its nearest end,
and what is not a number goes to zero. -/
def truncate : Binary → Int64
  | nan => 0
  | infinite negative => if negative then Int64.minValue else Int64.maxValue
  | finite negative m q =>
      let whole : Int := wholePart m q
      let value := if negative then -whole else whole
      .ofInt (max Int64.minValue.toInt (min Int64.maxValue.toInt value))

/-- What is left of `x` after taking away a whole number of `y`s, with the sign of `x` and
smaller than `y` in magnitude. -/
def remainder : Binary → Binary → Binary
  | finite negative m q, finite _ n p =>
      if n = 0 then nan
      else
        let scale := min q p
        finite negative ((m <<< (q - scale).toNat) % (n <<< (p - scale).toNat)) scale
  | x@(finite ..), infinite _ => x
  | _, _ => nan

end Binary

/-- A register value as a key: the whole number toward zero, kept within 64 bits. -/
def keyOf (x : Float) : Int64 :=
  (Binary.ofFloat x).truncate

/-- The exact remainder of a division that rounds toward zero. -/
def remainder (x y : Float) : Float :=
  ((Binary.ofFloat x).remainder (Binary.ofFloat y)).toFloat

end GenomeMachine
