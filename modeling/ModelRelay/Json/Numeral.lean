import ModelRelay.Json.Basic

/-!
# Numerals

What number a JSON numeral stands for. The digits form a significand as long as it stays below
`2 ^ 64`; later digits before the point only raise the exponent and later ones behind it are
dropped. A numeral without point and exponent is whole if it fits 64 bits. Any other becomes a
double: the significand is rounded, then multiplied or divided by one rounded power of ten after
the other, each step rounding again, so the result can be a unit in the last place off.
-/

set_option autoImplicit false

namespace ModelRelay.Json

/-- A numeral by its parts. -/
structure Numeral where
  negative : Bool
  whole : List Nat
  fraction : List Nat
  /-- Whether the exponent is negative, and its digits. -/
  exponent : Option (Bool × List Nat)

namespace Numeral

/-- Appends digits to a significand while it stays below `2 ^ 64`: the significand, how many digits
went in and how many did not. -/
def grow (significand taken : Nat) : List Nat → Nat × Nat × Nat
  | [] => (significand, taken, 0)
  | d :: rest =>
    let larger := significand * 10 + d
    if larger < 0x10000000000000000 then grow larger (taken + 1) rest
    else (significand, taken, rest.length + 1)

/-- The number that digits spell. -/
def value (digits : List Nat) : Nat :=
  digits.foldl (fun n d => n * 10 + d) 0

/-- Multiplies a double by a power of ten, rounding at every step; `none` beyond the doubles. -/
def scale (x : Binary) (exponent : Int) : Option Binary :=
  if exponent.natAbs ≤ 308 then
    let power := Binary.powerOfTen .double exponent.natAbs
    if 0 ≤ exponent then
      let product := Binary.mul .double x power
      if product.isInfinite then none else some product
    else some (Binary.div .double x power)
  else if x.isZero then some x
  else if 0 ≤ exponent then none
  else scale (Binary.div .double x (Binary.powerOfTen .double 308)) (exponent + 308)
termination_by (-exponent).toNat
decreasing_by omega

/-- The double of a significand and a power of ten; `none` beyond the doubles. -/
def double? (negative : Bool) (significand : Nat) (exponent : Int) : Option Binary :=
  scale (Binary.ofNat .double negative significand) exponent

/-- The number of a numeral, `none` if it lies beyond the doubles. -/
def toNumber? (n : Numeral) : Option Number :=
  let (significand, _, left) := grow 0 0 n.whole
  if n.fraction.isEmpty && n.exponent.isNone && left == 0 then
    if !n.negative then some (.natural significand)
    else if 0 < significand && significand ≤ 0x8000000000000000 then some (.negative significand)
    else some (.double (Binary.ofNat .double true significand))
  else
    let (significand, taken, _) := grow significand 0 n.fraction
    let shift : Int := (left : Int) - (taken : Int)
    match n.exponent with
    | none => (double? n.negative significand shift).map .double
    | some (below, digits) =>
      let e := value digits
      if 0x80000000 ≤ e then
        if significand != 0 && !below then none
        else some (.double (Binary.ofNat .double n.negative 0))
      else
        (double? n.negative significand (if below then shift - e else shift + e)).map .double

end Numeral

end ModelRelay.Json
