import ModelRelay.Chat.Chunk
import ModelRelay.Error
import ModelRelay.Json.Printer

/-!
# Frames

What a caller of a stream is sent, one server-sent event a frame. The payload of a chunk or a
failure is compact JSON and so holds no line break that could end the event early.
-/

set_option autoImplicit false

namespace ModelRelay.Sse

inductive Frame where
  | data (payload : String)
  | event (name payload : String)
  | done
deriving DecidableEq, Repr

namespace Frame

def ofChunk (c : Chat.Chunk) : Frame :=
  .data c.toJson.print

/-- The last frame of a stream that failed, in the envelope of the caller's protocol. -/
def ofError (native : Bool) (e : RelayError) : Frame :=
  let payload := (e.envelope native).print
  if native then .event "error" payload else .data payload

/-- The text on the wire. -/
def encode : Frame → String
  | .data payload => "data: " ++ payload ++ "\n\n"
  | .event name payload => "event: " ++ name ++ "\ndata: " ++ payload ++ "\n\n"
  | .done => "data: [DONE]\n\n"

end Frame

end ModelRelay.Sse
