import ModelRelay.Decimal.Binary

/-!
# JSON values

A value as the relay holds it. Whole numbers within 64 bits stay whole; every other number is a
double, except that the relay's own sampling parameters are singles. The members of an object are
a list in writing order. A value read from outside is *canonical*: its objects are sorted by name
and hold each name once, the last one read winning.
-/

set_option autoImplicit false

namespace ModelRelay

/-- A number of a JSON document. -/
inductive Json.Number where
  | natural (n : Nat)
  /-- The number `-n`. -/
  | negative (n : Nat)
  | double (x : Binary)
  | single (x : Binary)
deriving DecidableEq, Repr

inductive Json where
  | null
  | bool (b : Bool)
  | number (n : Json.Number)
  | string (s : String)
  | array (items : List Json)
  | object (members : List (String × Json))
deriving Repr, Inhabited

namespace Json

/-- Puts a member into a list sorted by name, in place of one of the same name. -/
def insertSorted {α : Type} (name : String) (value : α) : List (String × α) → List (String × α)
  | [] => [(name, value)]
  | (other, held) :: rest =>
    if name < other then (name, value) :: (other, held) :: rest
    else if name = other then (name, value) :: rest
    else (other, held) :: insertSorted name value rest

/-- Members sorted by name; of several with one name the last one stays. -/
def sortMembers {α : Type} (members : List (String × α)) : List (String × α) :=
  members.foldl (fun sorted (name, value) => insertSorted name value sorted) []

/-- Replaces the value of the first member of a name, or appends a member. -/
def setMember {α : Type} (name : String) (value : α) : List (String × α) → List (String × α)
  | [] => [(name, value)]
  | (other, held) :: rest =>
    if other = name then (name, value) :: rest else (other, held) :: setMember name value rest

/-- Drops every member of a name. -/
def eraseMember {α : Type} (name : String) (members : List (String × α)) : List (String × α) :=
  members.filter (fun (other, _) => other != name)

/-- The value of a member of an object. Of anything else there is none. -/
def get? (name : String) : Json → Option Json
  | .object members => members.lookup name
  | _ => none

/-- The text of a string. -/
def string? : Json → Option String
  | .string s => some s
  | _ => none

def ofNat (n : Nat) : Json :=
  .number (.natural n)

def ofInt : Int → Json
  | .ofNat n => .number (.natural n)
  | .negSucc n => .number (.negative (n + 1))

def ofStrings (strings : List String) : Json :=
  .array (strings.map .string)

/-- A single of infinite size has no number to stand for it. -/
def ofSingle : Binary → Json
  | .infinite _ => .null
  | x => .number (.single x)

/-- Members of which some may be missing, in writing order. -/
def ofMembers (members : List (String × Option Json)) : Json :=
  .object (members.filterMap fun (name, value) => value.map (name, ·))

/-- Widens a single to the double of the same value. -/
def Number.widen : Number → Number
  | .single x => .double (x.convert .double)
  | n => n

mutual

/-- The canonical value: sorted objects, doubles only. -/
def canonical : Json → Json
  | .number n => .number n.widen
  | .array items => .array (canonicalItems items)
  | .object members => .object (sortMembers (canonicalMembers members))
  | .null => .null
  | .bool b => .bool b
  | .string s => .string s

def canonicalItems : List Json → List Json
  | [] => []
  | item :: rest => canonical item :: canonicalItems rest

def canonicalMembers : List (String × Json) → List (String × Json)
  | [] => []
  | (name, value) :: rest => (name, canonical value) :: canonicalMembers rest

end

end Json

end ModelRelay
