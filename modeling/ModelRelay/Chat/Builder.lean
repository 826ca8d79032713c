import ModelRelay.Chat.Acceptance

/-!
# Building requests

A request put together by hand. It is accepted as it is built, so a request from here is one that
the relay takes.
-/

set_option autoImplicit false

namespace ModelRelay.Chat

/-- What a request is built from. -/
structure Builder where
  model : Option String := none
  messages : List Message := []
  system : Option SystemPrompt := none
  temperature : Option Binary := none
  maxTokens : Option UInt32 := none
  topP : Option Binary := none
  presencePenalty : Option Binary := none
  stop : Option (List String) := none
  stream : Bool := false

/-- A turn of plain text. -/
def Message.ofText (role : Role) (text : String) : Message :=
  { role, content := .text text }

namespace Builder

/-- Appends a turn. -/
def addMessage (b : Builder) (m : Message) : Builder :=
  { b with messages := b.messages ++ [m] }

/-- The request, if it has a model and is acceptable. -/
def build (b : Builder) : Except RelayError Request := do
  let some model := b.model | throw (.invalid .noModel)
  let r : Request :=
    { model, messages := b.messages, system := b.system, temperature := b.temperature,
      maxTokens := b.maxTokens, topP := b.topP, presencePenalty := b.presencePenalty,
      stop := b.stop, stream := b.stream }
  r.accept
  return r

end Builder

end ModelRelay.Chat
