import ModelRelay.Chat.Request
import ModelRelay.Claude.Block

/-!
# Requests of the Messages protocol

The request that a provider of this protocol gets. Its turns alternate between `user` and
`assistant`, instructions stand apart, and there always is a limit on the length of the answer.
-/

set_option autoImplicit false

namespace ModelRelay.Claude

/-- One turn. -/
structure Turn where
  role : String
  content : Content
deriving Repr

structure Request where
  model : String
  turns : List Turn
  system : Option Chat.SystemPrompt
  maxTokens : UInt32
  temperature : Option Binary
  topP : Option Binary
  topK : Option UInt32
  stopSequences : Option (List String)
  stream : Bool
  extra : Chat.Extra
deriving Repr

namespace Turn

/-- The fields read so far. -/
structure Slots where
  role : Option String := none
  content : Option Content := none

open Decoder in
def put (s : Slots) (field : String) (r : Reading) : Except Mismatch Slots := do
  match field with
  | "role" => return { s with role := ← fill field s.role text r }
  | "content" => return { s with content := ← fill field s.content Content.decoder r }
  | _ => do skip r; return s

def decoder : Decoder Turn := fun r => do
  let s ← Decoder.record [("role", false), ("content", false)] put {} r
  return ⟨← Decoder.need "role" s.role, ← Decoder.need "content" s.content⟩

def toJson (t : Turn) : Json :=
  .object [("role", .string t.role), ("content", t.content.toJson)]

end Turn

namespace Request

/-- The fields read so far. -/
structure Slots where
  model : Option String := none
  turns : Option (List Turn) := none
  system : Option (Option Chat.SystemPrompt) := none
  maxTokens : Option UInt32 := none
  temperature : Option (Option Binary) := none
  topP : Option (Option Binary) := none
  topK : Option (Option UInt32) := none
  stopSequences : Option (Option (List String)) := none
  stream : Option Bool := none
  extra : Chat.Extra := []

open Decoder in
def put (s : Slots) (field : String) (r : Reading) : Except Mismatch Slots := do
  match field with
  | "model" => return { s with model := ← fill field s.model text r }
  | "messages" => return { s with turns := ← fill field s.turns (list Turn.decoder) r }
  | "system" =>
    return { s with system := ← fill field s.system (optional Chat.SystemPrompt.decoder) r }
  | "max_tokens" => return { s with maxTokens := ← fill field s.maxTokens word r }
  | "temperature" => return { s with temperature := ← fill field s.temperature (optional single) r }
  | "top_p" => return { s with topP := ← fill field s.topP (optional single) r }
  | "top_k" => return { s with topK := ← fill field s.topK (optional word) r }
  | "stop_sequences" =>
    return { s with stopSequences := ← fill field s.stopSequences (optional (list text)) r }
  | "stream" => return { s with stream := ← fill field s.stream bool r }
  | _ => return { s with extra := Json.insertSorted field (← json r) s.extra }

def decoder : Decoder Request := fun r => do
  let s ← Decoder.object put {} r
  return {
    model := ← Decoder.need "model" s.model
    turns := ← Decoder.need "messages" s.turns
    system := s.system.join
    maxTokens := ← Decoder.need "max_tokens" s.maxTokens
    temperature := s.temperature.join
    topP := s.topP.join
    topK := s.topK.join
    stopSequences := s.stopSequences.join
    stream := s.stream.getD false
    extra := s.extra }

/-- The request as a JSON object. A request that is not streamed does not say so. -/
def toJson (r : Request) : Json :=
  let word (n : UInt32) : Json := .ofNat n.toNat
  .ofMembers <|
    [("model", some (.string r.model)), ("messages", some (.array (r.turns.map Turn.toJson))),
     ("system", r.system.map Chat.SystemPrompt.toJson), ("max_tokens", some (word r.maxTokens)),
     ("temperature", r.temperature.map .ofSingle), ("top_p", r.topP.map .ofSingle),
     ("top_k", r.topK.map word), ("stop_sequences", r.stopSequences.map .ofStrings),
     ("stream", if r.stream then some (.bool true) else none)] ++
      r.extra.map fun (name, value) => (name, some value)

end Request

end ModelRelay.Claude
