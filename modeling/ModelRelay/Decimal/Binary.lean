/-!
# Binary numbers, exactly

A floating-point number is a sign, a natural significand and a power of two, and every operation
here is exact arithmetic on `Nat` followed by one rounding to nearest, ties to even. So a number in
a request can be followed through reading, narrowing and printing without the opaque machine type.
-/

set_option autoImplicit false

namespace ModelRelay

/-- A binary format: significands are below `2 ^ precision`, exponents run from `least` to
`greatest`. -/
structure BinaryFormat where
  precision : Nat
  least : Int
  greatest : Int
deriving DecidableEq, Repr

namespace BinaryFormat

/-- Twenty-four bits of precision. -/
def single : BinaryFormat := ⟨24, -149, 104⟩

/-- Fifty-three bits of precision. -/
def double : BinaryFormat := ⟨53, -1074, 971⟩

end BinaryFormat

/-- A floating-point number that is no NaN: `± significand * 2 ^ exponent`, or an infinity. -/
inductive Binary where
  | finite (negative : Bool) (significand : Nat) (exponent : Int)
  | infinite (negative : Bool)
deriving DecidableEq, Repr

namespace Binary

/-- The quotient to the nearest natural number, a half going to the even neighbour. -/
def roundDiv (num den : Nat) : Nat :=
  let quotient := num / den
  let twice := 2 * (num % den)
  if twice < den then quotient
  else if den < twice then quotient + 1
  else if quotient % 2 = 0 then quotient else quotient + 1

/-- A non-negative power-of-two multiple as a fraction. -/
def fraction (significand : Nat) (exponent : Int) : Nat × Nat :=
  if 0 ≤ exponent then (significand * Nat.pow 2 exponent.toNat, 1)
  else (significand, Nat.pow 2 (-exponent).toNat)

/-- The power of two that gives the fraction `num / den` a significand of full precision, or the
least one of the format. -/
def exponentOf (f : BinaryFormat) (num den : Nat) : Int :=
  let guess : Int := (num.log2 : Int) - (den.log2 : Int) - ((f.precision : Int) - 1)
  let (n, d) :=
    if 0 ≤ guess then (num, den * Nat.pow 2 guess.toNat)
    else (num * Nat.pow 2 (-guess).toNat, den)
  let exact := if d * Nat.pow 2 (f.precision - 1) ≤ n then guess else guess - 1
  max exact f.least

/-- The fraction `num / den` in a format, with a sign. Beyond the greatest value lies infinity. -/
def ofFraction (f : BinaryFormat) (negative : Bool) (num den : Nat) : Binary :=
  if num = 0 then .finite negative 0 f.least
  else
    let exponent := exponentOf f num den
    let rounded :=
      if 0 ≤ exponent then roundDiv num (den * Nat.pow 2 exponent.toNat)
      else roundDiv (num * Nat.pow 2 (-exponent).toNat) den
    let (significand, exponent) :=
      if rounded = Nat.pow 2 f.precision then (Nat.pow 2 (f.precision - 1), exponent + 1)
      else (rounded, exponent)
    if f.greatest < exponent then .infinite negative
    else .finite negative significand exponent

/-- A whole number in a format. -/
def ofNat (f : BinaryFormat) (negative : Bool) (n : Nat) : Binary :=
  ofFraction f negative n 1

/-- The same value in another format. -/
def convert (f : BinaryFormat) : Binary → Binary
  | .infinite negative => .infinite negative
  | .finite negative significand exponent =>
    let (num, den) := fraction significand exponent
    ofFraction f negative num den

/-- The product, rounded. -/
def mul (f : BinaryFormat) : Binary → Binary → Binary
  | .finite s m p, .finite t n q =>
    let (num, den) := fraction (m * n) (p + q)
    ofFraction f (s != t) num den
  | .finite s _ _, .infinite t => .infinite (s != t)
  | .infinite s, .finite t _ _ => .infinite (s != t)
  | .infinite s, .infinite t => .infinite (s != t)

/-- The quotient by a number that is not zero, rounded. -/
def div (f : BinaryFormat) : Binary → Binary → Binary
  | .finite s m p, .finite t n q =>
    let (a, b) := fraction m p
    let (c, d) := fraction n q
    ofFraction f (s != t) (a * d) (b * c)
  | .finite s _ _, .infinite t => .finite (s != t) 0 f.least
  | .infinite s, .finite t _ _ => .infinite (s != t)
  | .infinite s, .infinite t => .infinite (s != t)

def isZero : Binary → Bool
  | .finite _ significand _ => significand == 0
  | .infinite _ => false

def isInfinite : Binary → Bool
  | .finite .. => false
  | .infinite _ => true

def isNegative : Binary → Bool
  | .finite negative .. => negative
  | .infinite negative => negative

/-- The magnitude is at most a whole number. Both zeros are within every bound. -/
def magnitudeWithin (bound : Nat) : Binary → Bool
  | .infinite _ => false
  | .finite _ significand exponent =>
    let (num, den) := fraction significand exponent
    num ≤ bound * den

/-- The value lies between `-below` and `above`, ends included. -/
def isBetween (below above : Nat) (x : Binary) : Bool :=
  x.magnitudeWithin (if x.isNegative then below else above)

/-- The number `10 ^ e`, rounded. -/
def powerOfTen (f : BinaryFormat) (e : Nat) : Binary :=
  ofNat f false (Nat.pow 10 e)

end Binary

end ModelRelay
