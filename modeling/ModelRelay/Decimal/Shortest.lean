import ModelRelay.Decimal.Binary

/-!
# The shortest decimal of a binary number

The digits of a floating-point number are the fewest that read back as the same number, and of
those the nearest to it. `shortest` looks at the decimal grids in turn, one digit, two digits and
so on: if any point of a grid lies in the interval of reals that round to the number, one of the
two neighbours of the number on that grid does, so only these are tried.
-/

set_option autoImplicit false

namespace ModelRelay

/-- `digits * 10 ^ exponent`; the digits do not end in zero unless they are zero. -/
structure Decimal where
  digits : Nat
  exponent : Int
deriving DecidableEq, Repr

namespace Decimal

/-- The number of decimal digits, none for zero. -/
def digitCount (n : Nat) : Nat :=
  if n = 0 then 0 else (Nat.toDigits 10 n).length

/-- The power of ten of the leading digit of `num / den`. -/
def magnitude (num den : Nat) : Int :=
  if den ≤ num then (digitCount (num / den) : Int) - 1
  else -(digitCount ((den - 1) / num) : Int)

/-- The reals that round to `significand * 2 ^ exponent`: their bounds as fractions over one
denominator, and whether the bounds themselves belong to them. -/
structure Interval where
  low : Nat
  value : Nat
  high : Nat
  den : Nat
  closed : Bool

/-- The interval of a number of a format. The gap below a power of two is half as wide. -/
def interval (f : BinaryFormat) (significand : Nat) (exponent : Int) : Interval :=
  let narrow := significand == Nat.pow 2 (f.precision - 1) && f.least < exponent
  let (num, den) := Binary.fraction (4 * significand) (exponent - 2)
  let (unit, _) := Binary.fraction 1 (exponent - 2)
  { low := num - (if narrow then 1 else 2) * unit
    value := num
    high := num + 2 * unit
    den
    closed := significand % 2 == 0 }

/-- A decimal rounds to the number whose interval is given. -/
def Interval.holds (i : Interval) (d : Decimal) : Bool :=
  let (num, den) :=
    if 0 ≤ d.exponent then (d.digits * Nat.pow 10 d.exponent.toNat, 1)
    else (d.digits, Nat.pow 10 (-d.exponent).toNat)
  let point := num * i.den
  if i.closed then i.low * den ≤ point && point ≤ i.high * den
  else i.low * den < point && point < i.high * den

/-- The two neighbours of `num / den` among the multiples of `10 ^ exponent`, and how the distances
to them compare. -/
def neighbours (num den : Nat) (exponent : Int) : Nat × Ordering :=
  let (n, d) :=
    if 0 ≤ exponent then (num, den * Nat.pow 10 exponent.toNat)
    else (num * Nat.pow 10 (-exponent).toNat, den)
  (n / d, compare (2 * (n % d)) d)

/-- The best decimal of `count` digits in the interval, if there is one. -/
def atGrid (i : Interval) (count : Nat) : Option Decimal :=
  let exponent := magnitude i.value i.den - (count : Int) + 1
  let (below, side) := neighbours i.value i.den exponent
  let lower : Decimal := ⟨below, exponent⟩
  let upper : Decimal := ⟨below + 1, exponent⟩
  match i.holds lower, i.holds upper, side with
  | true, true, .lt => some lower
  | true, true, .gt => some upper
  | true, true, .eq => some (if below % 2 = 0 then lower else upper)
  | true, false, _ => some lower
  | false, true, _ => some upper
  | false, false, _ => none

/-- The first grid of at most `left` more digits that holds a decimal of the interval. -/
def search (i : Interval) (count : Nat) : Nat → Decimal
  | 0 => ⟨0, 0⟩
  | left + 1 => (atGrid i count).getD (search i (count + 1) left)

/-- Drops trailing zeros of the digits; `left` bounds how many. -/
def dropZeros (d : Decimal) : Nat → Decimal
  | 0 => d
  | left + 1 =>
    if d.digits != 0 && d.digits % 10 == 0 then dropZeros ⟨d.digits / 10, d.exponent + 1⟩ left
    else d

/-- The shortest decimal of a number of a format. Seventeen digits are enough for either format. -/
def shortest (f : BinaryFormat) (significand : Nat) (exponent : Int) : Decimal :=
  if significand = 0 then ⟨0, 0⟩
  else dropZeros (search (interval f significand exponent) 1 18) 18

end Decimal

end ModelRelay
