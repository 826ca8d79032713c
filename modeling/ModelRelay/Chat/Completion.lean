import ModelRelay.Chat.FinishReason
import ModelRelay.Chat.Usage

/-!
# Completions

A whole answer, as callers of chat completions get it.
-/

set_option autoImplicit false

namespace ModelRelay.Chat

/-- The turn that a choice holds. -/
structure Reply where
  role : Role
  content : Option String
deriving DecidableEq, Repr

structure Choice where
  index : UInt32
  message : Reply
  finishReason : Option FinishReason
deriving DecidableEq, Repr

structure Completion where
  id : String
  object : String
  created : Int
  model : String
  choices : List Choice
  usage : Option Usage
deriving DecidableEq, Repr

/-- A value, or null. -/
def orNull {α : Type} (toJson : α → Json) (a : Option α) : Json :=
  (a.map toJson).getD .null

namespace Reply

/-- The fields read so far. -/
structure Slots where
  role : Option Role := none
  content : Option (Option String) := none

open Decoder in
def put (s : Slots) (field : String) (r : Reading) : Except Mismatch Slots := do
  match field with
  | "role" => return { s with role := ← fill field s.role Role.decoder r }
  | "content" => return { s with content := ← fill field s.content (optional text) r }
  | _ => do skip r; return s

def decoder : Decoder Reply := fun r => do
  let s ← Decoder.record [("role", false), ("content", true)] put {} r
  return ⟨← Decoder.need "role" s.role, s.content.join⟩

def toJson (m : Reply) : Json :=
  .object [("role", .string m.role.name), ("content", orNull .string m.content)]

end Reply

namespace Choice

/-- The fields read so far. -/
structure Slots where
  index : Option UInt32 := none
  message : Option Reply := none
  finishReason : Option (Option FinishReason) := none

open Decoder in
def put (s : Slots) (field : String) (r : Reading) : Except Mismatch Slots := do
  match field with
  | "index" => return { s with index := ← fill field s.index word r }
  | "message" => return { s with message := ← fill field s.message Reply.decoder r }
  | "finish_reason" =>
    return { s with
      finishReason := ← fill field s.finishReason (optional FinishReason.decoder) r }
  | _ => do skip r; return s

def decoder : Decoder Choice := fun r => do
  let s ← Decoder.record [("index", false), ("message", false), ("finish_reason", true)] put {} r
  return ⟨← Decoder.need "index" s.index, ← Decoder.need "message" s.message,
    s.finishReason.join⟩

def toJson (c : Choice) : Json :=
  .object [("index", .ofNat c.index.toNat), ("message", c.message.toJson),
    ("finish_reason", FinishReason.toJson c.finishReason)]

end Choice

namespace Completion

/-- The fields read so far. -/
structure Slots where
  id : Option String := none
  object : Option String := none
  created : Option Int := none
  model : Option String := none
  choices : Option (List Choice) := none
  usage : Option (Option Usage) := none

open Decoder in
def put (s : Slots) (field : String) (r : Reading) : Except Mismatch Slots := do
  match field with
  | "id" => return { s with id := ← fill field s.id text r }
  | "object" => return { s with object := ← fill field s.object text r }
  | "created" => return { s with created := ← fill field s.created int64 r }
  | "model" => return { s with model := ← fill field s.model text r }
  | "choices" => return { s with choices := ← fill field s.choices (list Choice.decoder) r }
  | "usage" => return { s with usage := ← fill field s.usage (optional Usage.decoder) r }
  | _ => do skip r; return s

open Decoder in
def decoder : Decoder Completion := fun r => do
  let s ← record [("id", false), ("object", false), ("created", false), ("model", false),
    ("choices", false), ("usage", true)] put {} r
  return {
    id := ← need "id" s.id
    object := ← need "object" s.object
    created := ← need "created" s.created
    model := ← need "model" s.model
    choices := ← need "choices" s.choices
    usage := s.usage.join }

def toJson (c : Completion) : Json :=
  .object [("id", .string c.id), ("object", .string c.object), ("created", .ofInt c.created),
    ("model", .string c.model), ("choices", .array (c.choices.map Choice.toJson)),
    ("usage", orNull Usage.toJson c.usage)]

/-- The answer of an assistant with one choice. -/
def ofText (id model text : String) (created : Int) (finish : Option FinishReason)
    (usage : Usage) : Completion :=
  { id, object := "chat.completion", created, model,
    choices := [⟨0, ⟨.assistant, some text⟩, finish⟩], usage := some usage }

/-- The text of all choices. -/
def text (c : Completion) : String :=
  String.join (c.choices.filterMap (·.message.content))

end Completion

end ModelRelay.Chat
