import ModelRelay.Channel
import ModelRelay.Delivery.Courier
import ModelRelay.Provider.Answer

/-!
# Answers of chat completions

Answers are passed on in the shape they come in. The relay looks at their text and their counts,
and fills in the counts of an answer that reports none.
-/

set_option autoImplicit false

namespace ModelRelay.OpenAi

open Delivery Sse

def provider : String := "openai"

/-- The counts of an answer. -/
structure UsageReport where
  prompt : Option UInt32 := none
  completion : Option UInt32 := none
deriving DecidableEq, Repr

namespace UsageReport

/-- The fields read so far. -/
structure Slots where
  prompt : Option (Option UInt32) := none
  completion : Option (Option UInt32) := none

open Decoder in
def put (s : Slots) (field : String) (r : Reading) : Except Mismatch Slots := do
  match field with
  | "prompt_tokens" => return { s with prompt := ← fill field s.prompt (optional word) r }
  | "completion_tokens" =>
    return { s with completion := ← fill field s.completion (optional word) r }
  | _ => do skip r; return s

def decoder : Decoder UsageReport := fun r => do
  let s ← Decoder.record [("prompt_tokens", true), ("completion_tokens", true)] put {} r
  return ⟨s.prompt.join, s.completion.join⟩

/-- The counts that a report gives, if there is a report. -/
def counts (u : Option UsageReport) : Chat.PartialUsage :=
  match u with
  | some u => ⟨u.prompt, u.completion⟩
  | none => {}

end UsageReport

/-- A field that the relay looks at. -/
def putField {α : Type} (name : String) (d : Decoder α) (s : Option α) (field : String)
    (r : Reading) : Except Mismatch (Option α) :=
  if field = name then Decoder.fill field s d r else do Decoder.skip r; return s

/-- A record of which the relay looks at one optional field. -/
def fieldDecoder {α : Type} (name : String) (d : Decoder α) : Decoder (Option α) := fun r => do
  return (← Decoder.record [(name, true)] (putField name (Decoder.optional d)) none r).join

/-- The text of a choice, which it holds under a name. -/
def choiceDecoder (name : String) : Decoder (Option String) := fun r => do
  return (← fieldDecoder name (fieldDecoder "content" Decoder.text) r).join

/-- What the relay looks at in an answer or a chunk: the text of each choice, and the counts. -/
structure Glance where
  choices : List (Option String)
  usage : Option UsageReport
deriving DecidableEq, Repr

namespace Glance

/-- The fields read so far. -/
structure Slots where
  choices : Option (List (Option String)) := none
  usage : Option (Option UsageReport) := none

open Decoder in
def put (name : String) (s : Slots) (field : String) (r : Reading) : Except Mismatch Slots := do
  match field with
  | "choices" => return { s with choices := ← fill field s.choices (list (choiceDecoder name)) r }
  | "usage" => return { s with usage := ← fill field s.usage (optional UsageReport.decoder) r }
  | _ => do skip r; return s

/-- A whole answer. It must have choices. -/
def ofAnswer : Decoder Glance := fun r => do
  let s ← Decoder.record [("choices", false), ("usage", true)] (put "message") {} r
  return ⟨← Decoder.need "choices" s.choices, s.usage.join⟩

/-- A chunk. It may be without choices. -/
def ofChunk : Decoder Glance := fun r => do
  let s ← Decoder.record [("choices", true), ("usage", true)] (put "delta") {} r
  return ⟨s.choices.getD [], s.usage.join⟩

/-- The text of all choices. -/
def text (g : Glance) : String :=
  String.join (g.choices.filterMap fun t => t)

end Glance

/-- The answer with its counts, if it reports none of its own. An answer that came as a list has no
place for them; the call ends there. -/
def withUsage (usage : Chat.Usage) (body : Json) : Except RelayError Json :=
  match body with
  | .object members =>
    match members.lookup "usage" with
    | none | some .null => .ok (.object (Json.insertSorted "usage" usage.toJson.canonical members))
    | some _ => .ok body
  | _ => .error (.internal .aborted)

/-- What a whole answer comes to. -/
def outcomeOf (route : Route) (body : Json) : Except RelayError Outcome := do
  let g ← (Decoder.ofJson Glance.ofAnswer body).mapError fun m =>
    .undecodable provider (.completion m)
  let usage := Chat.Usage.finalize (UsageReport.counts g.usage) route.promptTokens g.text
  return { text := g.text, usage, body := some (← withUsage usage body) }

/-- What an event of a stream means: its data is passed on as it is, without blanks around it. -/
def decodeEvent (e : Event) : Except RelayError Decoded := do
  let data := Text.trim e.data
  if data.isEmpty then return {}
  if data = "[DONE]" then return { finished := true }
  let value ← (Decoder.ofText Decoder.json data).mapError fun m =>
    .undecodable provider (.chunkText m)
  if let some e := Provider.refusalOf? provider 502 value then throw e
  let g ← (Decoder.ofJson Glance.ofChunk value).mapError fun m =>
    .undecodable provider (.chunk m)
  return { frames := [.data data], text := g.text, usage := UsageReport.counts g.usage }

/-- The decoder of streams. It keeps nothing from event to event. -/
def eventDecoder : EventDecoder where
  State := Unit
  provider
  start := ()
  decode _ e := (decodeEvent e).map fun decoded => ((), decoded)
  closing _ := [.done]

end ModelRelay.OpenAi
