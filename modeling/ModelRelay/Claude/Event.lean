import ModelRelay.Claude.Answer

/-!
# Stream events of the Messages protocol

A message that is streamed comes as events, each a record whose member `type` says what it tells.
Events of a type that is not known tell nothing.
-/

set_option autoImplicit false

namespace ModelRelay.Claude

inductive StreamEvent where
  | messageStart (id model : Option String) (usage : Option UsageReport)
  | blockStart (text : Option String)
  | blockDelta (text : Option String)
  | blockStop
  | messageDelta (stopReason : Option String) (usage : Option UsageReport)
  | messageStop
  | ping
  | failure (kind message : Option String)
  | unknown
deriving DecidableEq, Repr

namespace StreamEvent

/-- The beginning of a message. -/
structure Opening where
  id : Option (Option String) := none
  model : Option (Option String) := none
  usage : Option (Option UsageReport) := none

open Decoder in
def Opening.put (s : Opening) (field : String) (r : Reading) : Except Mismatch Opening := do
  match field with
  | "id" => return { s with id := ← fill field s.id (optional text) r }
  | "model" => return { s with model := ← fill field s.model (optional text) r }
  | "usage" => return { s with usage := ← fill field s.usage (optional UsageReport.decoder) r }
  | _ => do skip r; return s

def Opening.decoder : Decoder Opening :=
  Decoder.record [("id", true), ("model", true), ("usage", true)] Opening.put {}

/-- One field that is a record of its own. -/
def putOne {α : Type} (name : String) (d : Decoder α) (s : Option α) (field : String)
    (r : Reading) : Except Mismatch (Option α) :=
  if field = name then Decoder.fill field s d r else do Decoder.skip r; return s

/-- The fields of a change to the message. -/
structure Change where
  stopReason : Option (Option (Option String)) := none
  usage : Option (Option UsageReport) := none

open Decoder in
def Change.put (s : Change) (field : String) (r : Reading) : Except Mismatch Change := do
  match field with
  | "delta" =>
    let reason := optional (textDecoder "stop_reason")
    return { s with stopReason := ← fill field s.stopReason reason r }
  | "usage" => return { s with usage := ← fill field s.usage (optional UsageReport.decoder) r }
  | _ => do skip r; return s

/-- The fields of a failure. -/
structure Failure where
  kind : Option (Option String) := none
  message : Option (Option String) := none

open Decoder in
def Failure.put (s : Failure) (field : String) (r : Reading) : Except Mismatch Failure := do
  match field with
  | "type" => return { s with kind := ← fill field s.kind (optional text) r }
  | "message" => return { s with message := ← fill field s.message (optional text) r }
  | _ => do skip r; return s

def Failure.decoder : Decoder Failure :=
  Decoder.record [("type", true), ("message", true)] Failure.put {}

/-- An event that carries nothing: an object with anything in it, or an empty array. -/
def bare (event : StreamEvent) : Decoder StreamEvent
  | .object _ => pure event
  | .array [] => pure event
  | _ => throw .kind

/-- The rest of an event whose type is known. -/
def body : String → Decoder StreamEvent
  | "message_start" => fun r => do
    let s ← Decoder.record [("message", false)] (putOne "message" Opening.decoder) none r
    let opening ← Decoder.need "message" s
    return messageStart opening.id.join opening.model.join opening.usage.join
  | "content_block_start" => fun r => do
    let block := Decoder.optional (textDecoder "text")
    let s ← Decoder.record [("content_block", true)] (putOne "content_block" block) none r
    return blockStart (s.join.join)
  | "content_block_delta" => fun r => do
    let s ← Decoder.record [("delta", false)] (putOne "delta" (textDecoder "text")) none r
    return blockDelta (← Decoder.need "delta" s)
  | "content_block_stop" => bare blockStop
  | "message_delta" => fun r => do
    let s ← Decoder.record [("delta", true), ("usage", true)] Change.put {} r
    return messageDelta s.stopReason.join.join s.usage.join
  | "message_stop" => bare messageStop
  | "ping" => bare ping
  | "error" => fun r => do
    let s ← Decoder.record [("error", false)] (putOne "error" Failure.decoder) none r
    let f ← Decoder.need "error" s
    return failure f.kind.join f.message.join
  | _ => bare unknown

def tags : Decoder.Tags :=
  ⟨["message_start", "content_block_start", "content_block_delta", "content_block_stop",
    "message_delta", "message_stop", "ping", "error"], some "", false⟩

def decoder : Decoder StreamEvent :=
  Decoder.tagged tags body

end StreamEvent

end ModelRelay.Claude
