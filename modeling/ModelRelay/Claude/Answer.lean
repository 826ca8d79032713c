import ModelRelay.Chat.Completion
import ModelRelay.Channel
import ModelRelay.Delivery.Courier

/-!
# Answers of the Messages protocol

A whole message in answer to a request that is not streamed. Callers who speak the protocol get it
as it came; for the others it becomes a completion with one choice. What is billed is the same for
both.
-/

set_option autoImplicit false

namespace ModelRelay.Claude

/-- The counts of a message, under the names of this protocol. -/
structure UsageReport where
  input : Option UInt32 := none
  output : Option UInt32 := none
deriving DecidableEq, Repr

namespace UsageReport

/-- The fields read so far. -/
structure Slots where
  input : Option (Option UInt32) := none
  output : Option (Option UInt32) := none

open Decoder in
def put (s : Slots) (field : String) (r : Reading) : Except Mismatch Slots := do
  match field with
  | "input_tokens" => return { s with input := ← fill field s.input (optional word) r }
  | "output_tokens" => return { s with output := ← fill field s.output (optional word) r }
  | _ => do skip r; return s

def decoder : Decoder UsageReport := fun r => do
  let s ← Decoder.record [("input_tokens", true), ("output_tokens", true)] put {} r
  return ⟨s.input.join, s.output.join⟩

/-- The counts that a report gives, if there is a report. -/
def counts (u : Option UsageReport) : Chat.PartialUsage :=
  match u with
  | some u => ⟨u.input, u.output⟩
  | none => {}

end UsageReport

/-- The one field of a record that the relay looks at, an optional text. -/
def putText (name : String) (s : Option (Option String)) (field : String) (r : Reading) :
    Except Mismatch (Option (Option String)) :=
  if field = name then Decoder.fill field s (Decoder.optional Decoder.text) r
  else do Decoder.skip r; return s

/-- A record of which the relay looks at one optional text. -/
def textDecoder (name : String) : Decoder (Option String) := fun r => do
  return (← Decoder.record [(name, true)] (putText name) none r).join

/-- A whole message. A block may be without text. -/
structure Answer where
  id : String
  model : Option String
  blocks : List (Option String)
  stopReason : Option String
  usage : Option UsageReport
deriving DecidableEq, Repr

namespace Answer

/-- The fields read so far. -/
structure Slots where
  id : Option String := none
  model : Option (Option String) := none
  blocks : Option (List (Option String)) := none
  stopReason : Option (Option String) := none
  usage : Option (Option UsageReport) := none

open Decoder in
def put (s : Slots) (field : String) (r : Reading) : Except Mismatch Slots := do
  match field with
  | "id" => return { s with id := ← fill field s.id text r }
  | "model" => return { s with model := ← fill field s.model (optional text) r }
  | "content" => return { s with blocks := ← fill field s.blocks (list (textDecoder "text")) r }
  | "stop_reason" => return { s with stopReason := ← fill field s.stopReason (optional text) r }
  | "usage" => return { s with usage := ← fill field s.usage (optional UsageReport.decoder) r }
  | _ => do skip r; return s

def decoder : Decoder Answer := fun r => do
  let s ← Decoder.record [("id", false), ("model", true), ("content", false),
    ("stop_reason", true), ("usage", true)] put {} r
  return {
    id := ← Decoder.need "id" s.id
    model := s.model.join
    blocks := ← Decoder.need "content" s.blocks
    stopReason := s.stopReason.join
    usage := s.usage.join }

/-- The text of all blocks. -/
def text (a : Answer) : String :=
  String.join (a.blocks.filterMap fun t => t)

end Answer

/-- The id that callers of chat completions know an answer by. -/
def completionId (id : String) : String :=
  "chatcmpl-" ++ id

/-- The message as a completion. -/
def Answer.toCompletion (a : Answer) (route : Route) (created : Int) (usage : Chat.Usage) :
    Chat.Completion :=
  .ofText (completionId a.id) (a.model.getD route.actualModel) a.text created
    (a.stopReason.bind Chat.FinishReason.ofStopReason?) usage

/-- What a whole message comes to for the caller of a route. -/
def outcomeOf (provider : String) (route : Route) (created : Int) (body : Json) :
    Except RelayError Outcome := do
  let a ← (Decoder.ofJson Answer.decoder body).mapError fun m => .undecodable provider (.message m)
  let usage := Chat.Usage.finalize (UsageReport.counts a.usage) route.promptTokens a.text
  let body := if route.isNative then body else (a.toCompletion route created usage).toJson.canonical
  return { text := a.text, usage, body := some body }

end ModelRelay.Claude
