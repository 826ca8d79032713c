import ModelRelay.Chat.Content

/-!
# Chat requests

What a caller asks for, in either protocol: a model, a conversation and sampling parameters. What
the relay has no field for is kept under `extra`, sorted by name, and travels along. Reading a body
accepts unknown members anywhere, a field twice nowhere, and one stop sequence in place of a list.
-/

set_option autoImplicit false

namespace ModelRelay.Chat

/-- Members without a field, sorted by name, each name once. -/
abbrev Extra := List (String × Json)

/-- One turn of a conversation. -/
structure Message where
  role : Role
  content : Content
  name : Option String := none
  extra : Extra := []
deriving Repr

structure Request where
  model : String
  messages : List Message
  system : Option SystemPrompt := none
  temperature : Option Binary := none
  maxTokens : Option UInt32 := none
  maxCompletionTokens : Option UInt32 := none
  topP : Option Binary := none
  topK : Option UInt32 := none
  frequencyPenalty : Option Binary := none
  presencePenalty : Option Binary := none
  stop : Option (List String) := none
  /-- Stop sequences under their name in the Messages protocol. -/
  stopSequences : Option (List String) := none
  stream : Bool := false
  user : Option String := none
  extra : Extra := []
deriving Repr

namespace Message

/-- The fields read so far. -/
structure Slots where
  role : Option Role := none
  content : Option Content := none
  name : Option (Option String) := none
  extra : Extra := []

def put (s : Slots) (field : String) (r : Reading) : Except Mismatch Slots := do
  match field with
  | "role" => return { s with role := ← Decoder.fill field s.role Role.decoder r }
  | "content" => return { s with content := ← Decoder.fill field s.content Content.decoder r }
  | "name" =>
    return { s with name := ← Decoder.fill field s.name (Decoder.optional Decoder.text) r }
  | _ => return { s with extra := Json.insertSorted field (← Decoder.json r) s.extra }

/-- A turn. Without content it is one that only carries other members. -/
def decoder : Decoder Message := fun r => do
  let s ← Decoder.object put {} r
  return { role := ← Decoder.need "role" s.role, content := s.content.getD .null,
           name := s.name.join, extra := s.extra }

def toJson (m : Message) : Json :=
  .ofMembers <|
    [("role", some (.string m.role.name)), ("content", some m.content.toJson),
     ("name", m.name.map .string)] ++ m.extra.map fun (name, value) => (name, some value)

end Message

/-- One string or a list of strings. -/
def stopDecoder : Decoder (List String) :=
  firstFit [fun r => (fun s => [s]) <$> Decoder.text r, Decoder.list Decoder.text]

namespace Request

/-- The fields read so far. -/
structure Slots where
  model : Option String := none
  messages : Option (List Message) := none
  system : Option (Option SystemPrompt) := none
  temperature : Option (Option Binary) := none
  maxTokens : Option (Option UInt32) := none
  maxCompletionTokens : Option (Option UInt32) := none
  topP : Option (Option Binary) := none
  topK : Option (Option UInt32) := none
  frequencyPenalty : Option (Option Binary) := none
  presencePenalty : Option (Option Binary) := none
  stop : Option (Option (List String)) := none
  stopSequences : Option (Option (List String)) := none
  stream : Option Bool := none
  user : Option (Option String) := none
  extra : Extra := []

open Decoder in
def put (s : Slots) (field : String) (r : Reading) : Except Mismatch Slots := do
  match field with
  | "model" => return { s with model := ← fill field s.model text r }
  | "messages" => return { s with messages := ← fill field s.messages (list Message.decoder) r }
  | "system" => return { s with system := ← fill field s.system (optional SystemPrompt.decoder) r }
  | "temperature" => return { s with temperature := ← fill field s.temperature (optional single) r }
  | "max_tokens" => return { s with maxTokens := ← fill field s.maxTokens (optional word) r }
  | "max_completion_tokens" =>
    return { s with maxCompletionTokens := ← fill field s.maxCompletionTokens (optional word) r }
  | "top_p" => return { s with topP := ← fill field s.topP (optional single) r }
  | "top_k" => return { s with topK := ← fill field s.topK (optional word) r }
  | "frequency_penalty" =>
    return { s with frequencyPenalty := ← fill field s.frequencyPenalty (optional single) r }
  | "presence_penalty" =>
    return { s with presencePenalty := ← fill field s.presencePenalty (optional single) r }
  | "stop" => return { s with stop := ← fill field s.stop (optional stopDecoder) r }
  | "stop_sequences" =>
    return { s with stopSequences := ← fill field s.stopSequences (optional (list text)) r }
  | "stream" => return { s with stream := ← fill field s.stream bool r }
  | "user" => return { s with user := ← fill field s.user (optional text) r }
  | _ => return { s with extra := Json.insertSorted field (← json r) s.extra }

/-- A request whose fields are read. -/
def ofSlots (s : Slots) : Except Mismatch Request := do
  return {
    model := ← Decoder.need "model" s.model
    messages := ← Decoder.need "messages" s.messages
    system := s.system.join
    temperature := s.temperature.join
    maxTokens := s.maxTokens.join
    maxCompletionTokens := s.maxCompletionTokens.join
    topP := s.topP.join
    topK := s.topK.join
    frequencyPenalty := s.frequencyPenalty.join
    presencePenalty := s.presencePenalty.join
    stop := s.stop.join
    stopSequences := s.stopSequences.join
    stream := s.stream.getD false
    user := s.user.join
    extra := s.extra }

def decoder : Decoder Request := fun r => do
  ofSlots (← Decoder.object put {} r)

/-- The members of a request in their order. -/
def members (r : Request) : List (String × Option Json) :=
  let word (n : UInt32) : Json := .ofNat n.toNat
  [("model", some (.string r.model)),
   ("messages", some (.array (r.messages.map Message.toJson))),
   ("system", r.system.map SystemPrompt.toJson),
   ("temperature", r.temperature.map .ofSingle),
   ("max_tokens", r.maxTokens.map word),
   ("max_completion_tokens", r.maxCompletionTokens.map word),
   ("top_p", r.topP.map .ofSingle),
   ("top_k", r.topK.map word),
   ("frequency_penalty", r.frequencyPenalty.map .ofSingle),
   ("presence_penalty", r.presencePenalty.map .ofSingle),
   ("stop", r.stop.map .ofStrings),
   ("stop_sequences", r.stopSequences.map .ofStrings),
   ("stream", some (.bool r.stream)),
   ("user", r.user.map .string)] ++ r.extra.map fun (name, value) => (name, some value)

/-- The request as a JSON object, fields in their order, then what has none. -/
def toJson (r : Request) : Json :=
  .ofMembers r.members

/-- The text that stands for the request. -/
def print (r : Request) : String :=
  r.toJson.print

/-- The limit on the answer's length, whichever field carries it. -/
def outputLimit (r : Request) : Option UInt32 :=
  r.maxCompletionTokens.or r.maxTokens

/-- The stop sequences, whichever field carries them. -/
def stopList (r : Request) : Option (List String) :=
  r.stop.or r.stopSequences

end Request

end ModelRelay.Chat
