import ModelRelay.Chat.Acceptance
import ModelRelay.Chat.Reasoning

/-!
# Stored bodies

The body of a request is stored where all who handle the request see it. It is replaced at most
once in the course of a call, when the model takes the request in another form only.
-/

set_option autoImplicit false

namespace ModelRelay

/-- A body as it is stored. -/
structure StoredBody where
  bytes : ByteArray

namespace StoredBody

def ofText (s : String) : StoredBody :=
  ⟨s.toUTF8⟩

def size (b : StoredBody) : Nat :=
  b.bytes.size

def isEmpty (b : StoredBody) : Bool :=
  b.bytes.isEmpty

/-- The body as text, with marks for bytes that are none. -/
def text (b : StoredBody) : String :=
  Utf8.lossy b.bytes.data.toList

/-- Reads the request in a body and settles it: the request as its model takes it, and the body
that is to be stored for it if anything had to change. -/
def settle (b : StoredBody) : Except RelayError (Chat.Request × Option StoredBody) := do
  let (request, changed) := (← Chat.Request.ofBytes b.bytes.data.toList).settle
  return (request, if changed then some (ofText request.print) else none)

end StoredBody

end ModelRelay
