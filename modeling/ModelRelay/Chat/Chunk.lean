import ModelRelay.Chat.Completion

/-!
# Chunks

A piece of an answer that is streamed, as callers of chat completions get it.
-/

set_option autoImplicit false

namespace ModelRelay.Chat

/-- What a chunk adds to a turn. -/
structure Delta where
  role : Option Role
  content : Option String
deriving DecidableEq, Repr

structure ChunkChoice where
  index : UInt32
  delta : Delta
  finishReason : Option FinishReason
deriving DecidableEq, Repr

structure Chunk where
  id : String
  object : String
  created : Int
  model : String
  choices : List ChunkChoice
  usage : Option Usage
deriving DecidableEq, Repr

namespace Delta

/-- The fields read so far. -/
structure Slots where
  role : Option (Option Role) := none
  content : Option (Option String) := none

open Decoder in
def put (s : Slots) (field : String) (r : Reading) : Except Mismatch Slots := do
  match field with
  | "role" => return { s with role := ← fill field s.role (optional Role.decoder) r }
  | "content" => return { s with content := ← fill field s.content (optional text) r }
  | _ => do skip r; return s

def decoder : Decoder Delta := fun r => do
  let s ← Decoder.record [("role", true), ("content", true)] put {} r
  return ⟨s.role.join, s.content.join⟩

def toJson (d : Delta) : Json :=
  .ofMembers [("role", d.role.map (.string ·.name)), ("content", d.content.map .string)]

end Delta

namespace ChunkChoice

/-- The fields read so far. -/
structure Slots where
  index : Option UInt32 := none
  delta : Option Delta := none
  finishReason : Option (Option FinishReason) := none

open Decoder in
def put (s : Slots) (field : String) (r : Reading) : Except Mismatch Slots := do
  match field with
  | "index" => return { s with index := ← fill field s.index word r }
  | "delta" => return { s with delta := ← fill field s.delta Delta.decoder r }
  | "finish_reason" =>
    return { s with
      finishReason := ← fill field s.finishReason (optional FinishReason.decoder) r }
  | _ => do skip r; return s

def decoder : Decoder ChunkChoice := fun r => do
  let s ← Decoder.record [("index", false), ("delta", false), ("finish_reason", true)] put {} r
  return ⟨← Decoder.need "index" s.index, ← Decoder.need "delta" s.delta, s.finishReason.join⟩

def toJson (c : ChunkChoice) : Json :=
  .object [("index", .ofNat c.index.toNat), ("delta", c.delta.toJson),
    ("finish_reason", FinishReason.toJson c.finishReason)]

end ChunkChoice

namespace Chunk

/-- The fields read so far. -/
structure Slots where
  id : Option String := none
  object : Option String := none
  created : Option Int := none
  model : Option String := none
  choices : Option (List ChunkChoice) := none
  usage : Option (Option Usage) := none

open Decoder in
def put (s : Slots) (field : String) (r : Reading) : Except Mismatch Slots := do
  match field with
  | "id" => return { s with id := ← fill field s.id text r }
  | "object" => return { s with object := ← fill field s.object text r }
  | "created" => return { s with created := ← fill field s.created int64 r }
  | "model" => return { s with model := ← fill field s.model text r }
  | "choices" => return { s with choices := ← fill field s.choices (list ChunkChoice.decoder) r }
  | "usage" => return { s with usage := ← fill field s.usage (optional Usage.decoder) r }
  | _ => do skip r; return s

open Decoder in
def decoder : Decoder Chunk := fun r => do
  let s ← record [("id", false), ("object", false), ("created", false), ("model", false),
    ("choices", false), ("usage", true)] put {} r
  return {
    id := ← need "id" s.id
    object := ← need "object" s.object
    created := ← need "created" s.created
    model := ← need "model" s.model
    choices := ← need "choices" s.choices
    usage := s.usage.join }

def toJson (c : Chunk) : Json :=
  .ofMembers [("id", some (.string c.id)), ("object", some (.string c.object)),
    ("created", some (.ofInt c.created)), ("model", some (.string c.model)),
    ("choices", some (.array (c.choices.map ChunkChoice.toJson))),
    ("usage", c.usage.map Usage.toJson)]

/-- A chunk of an assistant's answer: a piece of text, or the reason why it ended, or both. -/
def ofDelta (id model : String) (created : Int) (content : Option String)
    (finish : Option FinishReason) : Chunk :=
  { id, object := "chat.completion.chunk", created, model,
    choices := [⟨0, ⟨some .assistant, content⟩, finish⟩], usage := none }

/-- The text of all choices. -/
def text (c : Chunk) : String :=
  String.join (c.choices.filterMap (·.delta.content))

end Chunk

end ModelRelay.Chat
