import ModelRelay.Json.Basic

/-!
# A JSON text as it reads

Readers of typed data stop at the first problem in reading order, so whether a text is JSON at all
cannot be settled before its values are looked at: a value of the wrong kind early in a text hides
a missing bracket at its end. A `Reading` therefore keeps as much of a text as there is. It is the
tree of values up to the place where the text stops being JSON; that place is a `cut`, always the
last node in reading order. Three more faults hurt only a reader who wants the value: a number
beyond the doubles, a string that is no text, and nesting that is too deep. Members that nobody
asks for may hold these.
-/

set_option autoImplicit false

namespace ModelRelay

/-- A JSON text as far as it reads. -/
inductive Reading where
  /-- Here the text stops being JSON. -/
  | cut
  | null
  | bool (b : Bool)
  /-- `none` beyond the doubles. -/
  | number (n : Option Json.Number)
  /-- `none` if the characters are no text. -/
  | string (s : Option String)
  | array (items : List Reading)
  /-- The members in reading order, repeated names included. -/
  | object (members : List (Option String × Reading))
  /-- A value inside too many arrays and objects. -/
  | deep (value : Reading)
deriving Repr, Inhabited

/-- A reading and whether nothing but blanks follows it. -/
structure Draft where
  root : Reading
  ends : Bool
deriving Repr

namespace Reading

mutual

/-- The text stops being JSON somewhere within. -/
def isCut : Reading → Bool
  | .cut => true
  | .array items => anyCut items
  | .object members => anyCutMember members
  | .deep value => isCut value
  | .null | .bool _ | .number _ | .string _ => false

def anyCut : List Reading → Bool
  | [] => false
  | item :: rest => isCut item || anyCut rest

def anyCutMember : List (Option String × Reading) → Bool
  | [] => false
  | (_, value) :: rest => isCut value || anyCutMember rest

end

mutual

/-- The canonical value, if there is no fault anywhere in the reading. -/
def toJson? : Reading → Option Json
  | .cut => none
  | .null => some .null
  | .bool b => some (.bool b)
  | .number n => n.map .number
  | .string s => s.map .string
  | .array items => (itemsToJson? items).map .array
  | .object members => (membersToJson? members).map fun ms => .object (Json.sortMembers ms)
  | .deep _ => none

def itemsToJson? : List Reading → Option (List Json)
  | [] => some []
  | item :: rest =>
    match toJson? item, itemsToJson? rest with
    | some j, some js => some (j :: js)
    | _, _ => none

def membersToJson? : List (Option String × Reading) → Option (List (String × Json))
  | [] => some []
  | (some name, value) :: rest =>
    match toJson? value, membersToJson? rest with
    | some j, some js => some ((name, j) :: js)
    | _, _ => none
  | (none, _) :: _ => none

end

mutual

/-- The reading of a text that spells a value. -/
def ofJson : Json → Reading
  | .null => .null
  | .bool b => .bool b
  | .number n => .number (some n)
  | .string s => .string (some s)
  | .array items => .array (ofItems items)
  | .object members => .object (ofMembers members)

def ofItems : List Json → List Reading
  | [] => []
  | item :: rest => ofJson item :: ofItems rest

def ofMembers : List (String × Json) → List (Option String × Reading)
  | [] => []
  | (name, value) :: rest => (some name, ofJson value) :: ofMembers rest

end

end Reading

end ModelRelay
