import ModelRelay.Decimal.Shortest

/-!
# Writing decimals

Two ways of writing the shortest digits of a number. A JSON document shows that a number is a
floating-point one, by `.0` or an exponent; a message for people writes all digits out.
-/

set_option autoImplicit false

namespace ModelRelay

/-- Where positional notation ends in a JSON document: the decimal point may stand at most `whole`
digits after the first digit, and at most `below - 1` zeros may follow it. -/
structure NumberLayout where
  format : BinaryFormat
  whole : Int
  below : Int

namespace NumberLayout

/-- Doubles are positional from 1e-5 up to below 1e16. -/
def double : NumberLayout := ⟨.double, 16, 5⟩

/-- Singles are positional from 1e-6 up to below 1e13. -/
def single : NumberLayout := ⟨.single, 13, 6⟩

end NumberLayout

namespace Decimal

def zeros (n : Int) : List Char :=
  List.replicate n.toNat '0'

/-- Digits with the point after the first `point` of them; `point` may lie outside. -/
def positional (digits : List Char) (point : Int) (fraction : List Char) : List Char :=
  let count : Int := digits.length
  if count ≤ point then digits ++ zeros (point - count) ++ fraction
  else if 0 < point then digits.take point.toNat ++ '.' :: digits.drop point.toNat
  else '0' :: '.' :: zeros (-point) ++ digits

/-- Digits and a signed power of ten. -/
def scientific (digits : List Char) (exponent : Int) : List Char :=
  let mantissa := match digits with
    | first :: second :: more => first :: '.' :: second :: more
    | short => short
  let sign := if exponent < 0 then '-' else '+'
  mantissa ++ 'e' :: sign :: Nat.toDigits 10 exponent.natAbs

end Decimal

namespace Binary

def withSign (negative : Bool) (magnitude : List Char) : String :=
  String.ofList (if negative then '-' :: magnitude else magnitude)

/-- The text of a finite number in a JSON document; none of an infinity. -/
def toJsonText? (l : NumberLayout) : Binary → Option String
  | .infinite _ => none
  | .finite negative 0 _ => some (withSign negative ['0', '.', '0'])
  | .finite negative significand exponent =>
    let d := Decimal.shortest l.format significand exponent
    let digits := Nat.toDigits 10 d.digits
    let point : Int := digits.length + d.exponent
    some <| withSign negative <|
      if -l.below < point ∧ point ≤ l.whole then Decimal.positional digits point ['.', '0']
      else Decimal.scientific digits (point - 1)

/-- The text of a number in a message: every digit, no exponent, no point behind whole numbers. -/
def display (f : BinaryFormat) : Binary → String
  | .infinite negative => withSign negative ['i', 'n', 'f']
  | .finite negative 0 _ => withSign negative ['0']
  | .finite negative significand exponent =>
    let d := Decimal.shortest f significand exponent
    let digits := Nat.toDigits 10 d.digits
    withSign negative (Decimal.positional digits (digits.length + d.exponent) [])

end Binary

end ModelRelay
