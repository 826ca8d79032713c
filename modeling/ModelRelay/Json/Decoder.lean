import ModelRelay.Json.Reader

/-!
# Decoding typed data

A decoder takes a reading to a value of some type or says what does not fit, and it finds problems
in reading order. Records come as objects or, field by field, as arrays; fields nobody asks for are
passed over unseen, and missing ones are noticed at the end. A decoder may also run on data that is
held already, because a choice between several types had to wait for its end (`held`) or because it
is a value (`Decoder.ofJson`); then nothing can stop being JSON any more.
-/

set_option autoImplicit false

namespace ModelRelay

/-- What keeps a JSON text from being a value of a type. -/
inductive Mismatch where
  | notJson
  /-- A value of another kind, or out of range. -/
  | kind
  | missing (field : String)
  | duplicate (field : String)
  | unknown (variant : String) (accepted : List String)
deriving DecidableEq, Repr

namespace Mismatch

def codeQuote (s : String) : String :=
  "\x60" ++ s ++ "\x60"

/-- The accepted names of a variant in a sentence. -/
def listing : List String → String
  | [a, b] => codeQuote a ++ " or " ++ codeQuote b
  | names => "one of " ++ ", ".intercalate (names.map codeQuote)

/-- The wording. The first two name a class of faults and no place. -/
def message : Mismatch → String
  | notJson => "<json syntax>"
  | kind => "<json type>"
  | missing field => "missing field " ++ codeQuote field
  | duplicate field => "duplicate field " ++ codeQuote field
  | unknown variant accepted =>
    "unknown variant " ++ codeQuote variant ++ ", expected " ++ listing accepted

/-- Data that is held already cannot stop being JSON. -/
def settled : Mismatch → Mismatch
  | notJson => kind
  | m => m

end Mismatch

/-- Takes a reading to a value of a type. -/
abbrev Decoder (α : Type) := Reading → Except Mismatch α

namespace Decoder

variable {α β : Type}

/-- Why a reading is no value of the kind asked for. A number or string that is none itself is
noticed before its kind is; an array or object is refused at its bracket. -/
def refuse (r : Reading) : Except Mismatch α :=
  match r with
  | .cut | .number none | .string none => throw .notJson
  | _ => throw .kind

/-- Any value, in canonical form. -/
def json : Decoder Json := fun r =>
  match r.toJson? with
  | some j => .ok j
  | none => .error .notJson

/-- Any value, unseen: only its grammar matters. -/
def skip : Decoder Unit := fun r =>
  if r.isCut then throw .notJson else pure ()

def bool : Decoder Bool
  | .bool b => pure b
  | r => refuse r

def text : Decoder String
  | .string (some s) => pure s
  | r => refuse r

/-- A natural number below a bound. -/
def natural (bound : Nat) : Decoder Nat
  | .number (some (.natural n)) => if n < bound then pure n else throw .kind
  | r => refuse r

/-- A natural number of 32 bits. -/
def word : Decoder UInt32 := fun r =>
  (natural 0x100000000 r).map Nat.toUInt32

/-- A whole number of 64 bits with its sign. -/
def int64 : Decoder Int
  | .number (some (.natural n)) => if n < 0x8000000000000000 then pure (n : Int) else throw .kind
  | .number (some (.negative n)) => pure (-(n : Int))
  | r => refuse r

/-- Any number, narrowed to a single. -/
def single : Decoder Binary
  | .number (some (.natural n)) => pure (Binary.ofNat .single false n)
  | .number (some (.negative n)) => pure (Binary.ofNat .single true n)
  | .number (some (.double x)) => pure (x.convert .single)
  | .number (some (.single x)) => pure x
  | r => refuse r

/-- Null or a value. -/
def optional (d : Decoder α) : Decoder (Option α)
  | .null => pure none
  | r => some <$> d r

/-- An array of values. -/
def list (d : Decoder α) : Decoder (List α)
  | .array items => items.mapM d
  | .deep _ => throw .notJson
  | r => refuse r

/-- Puts a decoded value into a slot that must still be free. -/
def fill (name : String) (slot : Option α) (d : Decoder α) (r : Reading) :
    Except Mismatch (Option α) :=
  if slot.isSome then throw (.duplicate name) else some <$> d r

/-- The value of a slot that must not be free. -/
def need (name : String) : Option α → Except Mismatch α
  | some a => pure a
  | none => throw (.missing name)

/-- Passes the members of an object to `put` in reading order. -/
def members (put : β → String → Reading → Except Mismatch β) (start : β) :
    List (Option String × Reading) → Except Mismatch β
  | [] => pure start
  | (none, _) :: _ => throw .notJson
  | (some name, r) :: rest => do members put (← put start name r) rest

/-- Passes the items of an array to `put` under the names of the fields in their order. A name
comes with whether its field may be left out; items beyond the last field are one too many. -/
def positions (put : β → String → Reading → Except Mismatch β) (start : β) :
    List (String × Bool) → List Reading → Except Mismatch β
  | [], [] => pure start
  | [], _ :: _ => throw .notJson
  | (_, optional) :: names, [] =>
    if optional then positions put start names [] else throw .kind
  | (name, _) :: names, r :: rest => do positions put (← put start name r) names rest

/-- A record as an object only. -/
def object (put : β → String → Reading → Except Mismatch β) (start : β) : Decoder β
  | .object ms => members put start ms
  | .deep _ => throw .notJson
  | r => refuse r

/-- A record as an object, or as an array with a place for each field. -/
def record (fields : List (String × Bool)) (put : β → String → Reading → Except Mismatch β)
    (start : β) : Decoder β
  | .object ms => members put start ms
  | .array items => positions put start fields items
  | .deep _ => throw .notJson
  | r => refuse r

/-- The value of a name among others. -/
def variant (names : List (String × α)) (s : String) : Except Mismatch α :=
  match names.lookup s with
  | some a => pure a
  | none => throw (.unknown s (names.map Prod.fst))

/-- One of some names: a string, or an object whose one member has the name and null. -/
def oneOf (names : List (String × α)) : Decoder α
  | .string (some s) => variant names s
  | .object ((some s, r) :: rest) => do
    let a ← variant names s
    match r with
    | .null => pure ()
    | r => refuse r
    if rest.isEmpty then pure a else throw .notJson
  | _ => throw .notJson

/-- Runs a decoder on data that is held: the whole of it must read before any of it is decoded. -/
def held (d : Decoder α) : Decoder α := fun r =>
  if r.toJson?.isNone then throw .notJson else (d r).mapError Mismatch.settled

/-- Runs a decoder on a value. -/
def ofJson (d : Decoder α) (j : Json) : Except Mismatch α :=
  (d (Reading.ofJson j)).mapError Mismatch.settled

/-- Runs a decoder on a whole text. What follows the value is looked at last. -/
def ofDraft (d : Decoder α) (draft : Draft) : Except Mismatch α := do
  let a ← d draft.root
  if draft.ends then pure a else throw .notJson

/-- Runs a decoder on the bytes of a text. -/
def ofBytes (d : Decoder α) (s : List UInt8) : Except Mismatch α :=
  ofDraft d (Draft.ofBytes s)

/-- Runs a decoder on a text. -/
def ofText (d : Decoder α) (s : String) : Except Mismatch α :=
  ofDraft d (Draft.ofText s)

/-! ## Tagged unions -/

/-- How the tag of a union is read. -/
structure Tags where
  names : List String
  /-- What an unknown tag counts as, if it is accepted. -/
  other : Option String
  /-- In held data a number may stand for the place of a name. -/
  byPlace : Bool

/-- The tag that a reading names. -/
def Tags.read (t : Tags) : Decoder String
  | .string (some s) =>
    if t.names.contains s then pure s
    else match t.other with
      | some other => pure other
      | none => throw (.unknown s t.names)
  | .number (some (.natural n)) =>
    if t.byPlace then
      match t.names[n]?, t.other with
      | some name, _ => pure name
      | none, some other => pure other
      | none, none => throw .kind
    else throw .kind
  | r => refuse r

/-- Reads the members of a tagged union: its tag, and the others as they stand. -/
def tagMembers (t : Tags) (tag : Option String) (others : List (Option String × Reading)) :
    List (Option String × Reading) → Except Mismatch (String × Reading)
  | [] => do return (← need "type" tag, .object others.reverse)
  | (none, _) :: _ => throw .notJson
  | (some "type", r) :: rest => do
    if tag.isSome then throw (.duplicate "type")
    tagMembers t (some (← t.read r)) others rest
  | (some name, r) :: rest =>
    if r.toJson?.isNone then throw .notJson
    else tagMembers t tag ((some name, r) :: others) rest

/-- A union whose member `type` says which record it is; as an array, its first item does. The rest
is held until the tag is known. -/
def tagged (t : Tags) (body : String → Decoder α) : Decoder α := fun r => do
  let (tag, rest) ← match r with
    | .object ms => tagMembers t none [] ms
    | .array [] => throw (.missing "type")
    | .array (first :: rest) => do
      let tag ← t.read first
      if (Reading.array rest).toJson?.isNone then throw .notJson
      pure (tag, .array rest)
    | .deep _ => throw .notJson
    | r => refuse r
  (body tag rest).mapError Mismatch.settled

end Decoder

end ModelRelay
