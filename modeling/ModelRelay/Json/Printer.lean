import ModelRelay.Json.Basic
import ModelRelay.Decimal.Layout

/-!
# The compact text of a JSON value

No blanks, members in the order in which the value holds them. Within a string only the quotation
mark, the backslash and the control characters below U+0020 are escaped, so the text of a value
has no line break in it, whatever strings it holds.
-/

set_option autoImplicit false

namespace ModelRelay.Json

/-- A hexadecimal digit, in lower case. -/
def hexDigit (n : Nat) : Char :=
  (Nat.digitChar n)

/-- What stands for a character inside a string. -/
def escapeChar (c : Char) : List Char :=
  if c = '"' then ['\\', '"']
  else if c = '\\' then ['\\', '\\']
  else if c = '\x08' then ['\\', 'b']
  else if c = '\x0c' then ['\\', 'f']
  else if c = '\n' then ['\\', 'n']
  else if c = '\r' then ['\\', 'r']
  else if c = '\t' then ['\\', 't']
  else if c.toNat < 0x20 then
    ['\\', 'u', '0', '0', hexDigit (c.toNat / 16), hexDigit (c.toNat % 16)]
  else [c]

/-- A string between quotation marks. -/
def quote (s : String) : String :=
  String.ofList ('"' :: (s.toList.flatMap escapeChar ++ ['"']))

/-- The text of a number. What JSON cannot write is null. -/
def Number.print : Number → String
  | .natural n => n.repr
  | .negative n => "-" ++ n.repr
  | .double x => (x.toJsonText? .double).getD "null"
  | .single x => (x.toJsonText? .single).getD "null"

mutual

/-- The compact text. -/
def print : Json → String
  | .null => "null"
  | .bool true => "true"
  | .bool false => "false"
  | .number n => n.print
  | .string s => quote s
  | .array items => "[" ++ ",".intercalate (printItems items) ++ "]"
  | .object members => "\x7b" ++ ",".intercalate (printMembers members) ++ "\x7d"

def printItems : List Json → List String
  | [] => []
  | item :: rest => print item :: printItems rest

def printMembers : List (String × Json) → List String
  | [] => []
  | (name, value) :: rest => (quote name ++ ":" ++ print value) :: printMembers rest

end

end ModelRelay.Json
