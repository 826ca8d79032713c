import ModelRelay.Chat.Chunk
import ModelRelay.Claude.Event
import ModelRelay.Text.Blank

/-!
# Streams of the Messages protocol

Callers who speak the protocol get every event as it came. For the others the text of an event
becomes a chunk, and so do the beginning and the reason for the end; all chunks carry the id and
the model that the beginning told.
-/

set_option autoImplicit false

namespace ModelRelay.Claude

open Delivery Sse

/-- The HTTP status that a type of failure would have had outside a stream. -/
def failureStatus (kind : String) : Nat :=
  match kind with
  | "invalid_request_error" => 400
  | "authentication_error" => 401
  | "permission_error" => 403
  | "not_found_error" => 404
  | "request_too_large" => 413
  | "rate_limit_error" => 429
  | "overloaded_error" => 529
  | _ => 500

/-- What the chunks of a stream have in common. -/
structure StreamHead where
  id : String
  model : String
  created : Int
deriving DecidableEq, Repr

namespace StreamHead

/-- A frame with a chunk. -/
def chunk (h : StreamHead) (content : Option String) (finish : Option Chat.FinishReason) : Frame :=
  .ofChunk (.ofDelta h.id h.model h.created content finish)

/-- The head once the beginning of the message has told its id and its model. -/
def opened (h : StreamHead) (id model : Option String) : StreamHead :=
  { h with id := (id.map completionId).getD h.id, model := model.getD h.model }

/-- What an event means to callers of chat completions. -/
def decode (h : StreamHead) (provider : String) :
    StreamEvent → Except RelayError (StreamHead × Decoded)
  | .messageStart id model usage =>
    let h := h.opened id model
    .ok (h, { frames := [h.chunk (some "") none], usage := UsageReport.counts usage })
  | .blockStart text =>
    match text.filter (!·.isEmpty) with
    | some text => .ok (h, { frames := [h.chunk (some text) none], text })
    | none => .ok (h, {})
  | .blockDelta (some text) => .ok (h, { frames := [h.chunk (some text) none], text })
  | .blockDelta none => .ok (h, {})
  | .messageDelta stopReason usage =>
    let finish := stopReason.bind Chat.FinishReason.ofStopReason?
    .ok (h, { frames := finish.toList.map fun f => h.chunk none (some f)
              usage := UsageReport.counts usage })
  | .messageStop => .ok (h, { finished := true })
  | .blockStop | .ping | .unknown => .ok (h, {})
  | .failure kind message =>
    let kind := kind.getD "api_error"
    .error (.refused provider (failureStatus kind) (message.getD "stream error") (some kind))

end StreamHead

/-- The event that data tells. -/
def readEvent (provider data : String) : Except RelayError StreamEvent :=
  (Decoder.ofText StreamEvent.decoder data).mapError fun m => .undecodable provider (.event m)

/-- What an event means to a caller: itself if the caller speaks the protocol. -/
def decodeEvent (provider : String) (native : Bool) (h : StreamHead) (e : Event) :
    Except RelayError (StreamHead × Decoded) := do
  let data := Text.trim e.data
  if data.isEmpty then return (h, {})
  let (h, decoded) ← h.decode provider (← readEvent provider data)
  return (h, if native then { decoded with frames := [.event e.name data] } else decoded)

/-- The decoder for a call, with the id and the time that its chunks carry until the message tells
its own id. -/
def eventDecoder (provider : String) (route : Route) (id : String) (created : Int) :
    EventDecoder where
  State := StreamHead
  provider
  start := ⟨completionId id, route.actualModel, created⟩
  decode := decodeEvent provider route.isNative
  closing _ := if route.isNative then [] else [.done]

end ModelRelay.Claude
