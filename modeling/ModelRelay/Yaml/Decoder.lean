import ModelRelay.Yaml.Node

/-!
# Values of YAML documents

A decoder asks for a value of a certain kind, and a node either holds one or it does not. What a
scalar is depends on the question: any scalar is a text, but only a plain one can be a number, a
truth value, or nothing at all. A node that is left out counts as an empty collection.
-/

set_option autoImplicit false

namespace ModelRelay.Yaml

/-- A decoder of nodes of a document. -/
abbrev Decoder (α : Type) := Document → Node → Option α

namespace Decoder

variable {α β : Type}

/-- Any scalar as text. -/
def text : Decoder String := fun d n =>
  match d.target n with
  | .scalar _ _ s => some s
  | _ => none

/-- The full tag of a kind of value. -/
def coreTag (kind : String) : String :=
  "tag:yaml.org,2002:" ++ kind

/-- The scalar is plain, or a literal block tagged as the kind that is asked for. -/
def isOfKind (kind : String) (tag : Option String) (style : Style) : Bool :=
  match style with
  | .plain => true
  | .literal => tag == some (coreTag kind)
  | _ => false

/-- The number that digits of a base spell. There has to be one. -/
def digits? (base : Nat) (cs : List Char) : Option Nat :=
  if cs.isEmpty then none
  else cs.foldlM (fun n c =>
    if 128 ≤ c.toNat then none
    else (Json.Reader.hexValue? c.toNat.toUInt8).bind fun v =>
      if v < base then some (n * base + v) else none) 0

/-- Digits that begin with a needless zero. -/
def isPadded : List Char → Bool
  | '0' :: rest => !rest.isEmpty && rest.all Char.isDigit
  | _ => false

/-- A whole number without a minus, in base 10 or with the sign of another base. -/
def natural? (s : String) : Option Nat :=
  let cs := match s.toList with
    | '+' :: rest => rest
    | cs => cs
  let based := match cs with
    | '0' :: 'x' :: rest => digits? 16 rest
    | '0' :: 'o' :: rest => digits? 8 rest
    | '0' :: 'b' :: rest => digits? 2 rest
    | _ => none
  based.or (if isPadded cs then none else digits? 10 cs)

/-- A whole number below a bound. -/
def natural (bound : Nat) : Decoder Nat := fun d n =>
  match d.target n with
  | .scalar tag style s =>
    if isOfKind "int" tag style then (natural? s).filter (· < bound) else none
  | _ => none

def flag : Decoder Bool := fun d n =>
  match d.target n with
  | .scalar tag style s =>
    if !isOfKind "bool" tag style then none
    else if ["true", "True", "TRUE"].contains s then some true
    else if ["false", "False", "FALSE"].contains s then some false
    else none
  | _ => none

/-- A text that means nothing. -/
def isNull (s : String) : Bool :=
  ["null", "Null", "NULL", "~"].contains s

/-- A value or nothing. What is tagged as nothing has to be nothing, and another tag makes a
scalar something. -/
def optional (a : Decoder α) : Decoder (Option α) := fun d n =>
  match d.target n with
  | .scalar none .plain s => if s.isEmpty || isNull s then some none else some <$> a d n
  | .scalar (some tag) .plain s =>
    if tag == coreTag "null" then if isNull s then some none else none else some <$> a d n
  | _ => some <$> a d n

/-- A node that is left out. -/
def isOmitted : Node → Bool
  | .scalar _ .plain s => s.isEmpty
  | _ => false

def list (a : Decoder α) : Decoder (List α) := fun d n =>
  match d.target n with
  | .sequence items => items.mapM (a d)
  | node => if isOmitted node then some [] else none

/-- A table by names, each with its last value. The order is that of first appearance. -/
def table (a : Decoder α) : Decoder (List (String × α)) := fun d n =>
  match d.target n with
  | .mapping members =>
    members.foldlM (fun held (key, value) => do
      return Json.setMember (← text d key) (← a d value) held) []
  | node => if isOmitted node then some [] else none

/-- One of some names. A local tag on nothing is a name too. -/
def oneOf (names : List (String × α)) : Decoder α := fun d n =>
  match d.target n with
  | .scalar (some tag) style s =>
    match tag.toList with
    | '!' :: name =>
      if style == .plain && (s.isEmpty || isNull s) then names.lookup (String.ofList name) else none
    | _ => names.lookup s
  | .scalar none _ s => names.lookup s
  | _ => none

/-- Reads a member into its slot, which must be free. -/
def fill (slot : Option β) (a : Decoder β) (d : Document) (n : Node) : Option (Option β) :=
  if slot.isSome then none else some <$> a d n

/-- Reads the fields of a record by their places. There may be fewer items than fields. -/
def places (put : β → String → Document → Node → Option β) (d : Document) (start : β) :
    List String → List Node → Option β
  | _, [] => some start
  | [], _ :: _ => none
  | field :: fields, n :: rest => do places put d (← put start field d n) fields rest

/-- A record: its fields by their names, or in their order. -/
def record (fields : List String) (put : β → String → Document → Node → Option β) (start : β) :
    Decoder β := fun d n =>
  match d.target n with
  | .mapping members => members.foldlM (fun s (key, value) => do put s (← text d key) d value) start
  | .sequence items => places put d start fields items
  | node => if isOmitted node then some start else none

/-- Reads a text as a document that holds a value. -/
def ofText (a : Decoder α) (s : String) : Option α := do
  let d ← Document.ofText? s
  a d d.root

end Decoder

end ModelRelay.Yaml
