import ModelRelay.Error
import ModelRelay.Text.Utf8

/-!
# Headers

The headers of a request or an answer: lowercase names with values that are bytes. A name may occur
more than once; setting it leaves one value.
-/

set_option autoImplicit false

namespace ModelRelay.Http

/-- Headers in their order. -/
abbrev Headers := List (String × List UInt8)

/-- The ASCII letters of a name in lowercase. -/
def lowerName (name : String) : String :=
  String.ofList (name.toList.map Char.toLower)

namespace Headers

/-- Headers with names in any case. -/
def ofPairs (pairs : List (String × List UInt8)) : Headers :=
  pairs.map fun (name, value) => (lowerName name, value)

/-- The first value of a name. -/
def get? (h : Headers) (name : String) : Option (List UInt8) :=
  h.lookup (lowerName name)

/-- Leaves one value under a name. -/
def set (h : Headers) (name : String) (value : List UInt8) : Headers :=
  Json.eraseMember name h ++ [(name, value)]

/-- A byte that a value may hold as text: visible ASCII, a blank, or a tab. -/
def isPlain (b : UInt8) : Bool :=
  b == 9 || (32 ≤ b && b < 127)

/-- The first value of a name as text, if it is plain. -/
def text? (h : Headers) (name : String) : Option String :=
  match h.get? name with
  | some value => if value.all isPlain then Utf8.strict? value else none
  | none => none

/-- The first value of a name as text, if it is plain and not empty. -/
def nonempty? (h : Headers) (name : String) : Option String :=
  (h.text? name).filter (!·.isEmpty)

/-- A byte that a value may not hold. -/
def isForbidden (b : UInt8) : Bool :=
  (b < 32 && b != 9) || b == 127

/-- A text as the value of a header. -/
def valueOf (name value : String) : Except RelayError (List UInt8) :=
  let bytes := value.toUTF8.data.toList
  if bytes.any isForbidden then .error (.invalid (.header name)) else .ok bytes

/-- Sets headers one after the other, up to the first whose value is not allowed. -/
def setAll : List (String × String) → Headers → Headers × Except RelayError Unit
  | [], h => (h, .ok ())
  | (name, value) :: rest, h =>
    match valueOf name value with
    | .ok bytes => setAll rest (h.set name bytes)
    | .error e => (h, .error e)

end Headers

end ModelRelay.Http
