import ModelRelay.Chat.Request

/-!
# Reasoning models

Models of the reasoning tier refuse sampling parameters and streaming. A request that names one is
settled once, before a channel is looked for: the temperature is 1, there is no presence penalty,
the limit moves to `max_completion_tokens`, and nothing is streamed.
-/

set_option autoImplicit false

namespace ModelRelay.Chat

/-- The models of the reasoning tier. -/
def reasoningModels : List String :=
  ["o1-preview", "o1-preview-2024-09-12", "o1-mini", "o1-mini-2024-09-12"]

def isReasoningModel (model : String) : Bool :=
  reasoningModels.contains model

namespace Request

/-- The only temperature that reasoning models take. -/
def reasoningTemperature : Binary :=
  Binary.ofNat .single false 1

/-- The request as a reasoning model takes it. -/
def forReasoning (r : Request) : Request :=
  { r with
    maxTokens := none
    maxCompletionTokens := r.maxCompletionTokens.or r.maxTokens
    presencePenalty := none
    temperature := some reasoningTemperature
    stream := false
    extra := Json.eraseMember "stream_options" r.extra }

/-- A reasoning model takes the request as it is. -/
def isForReasoning (r : Request) : Bool :=
  r.maxTokens.isNone && r.presencePenalty.isNone && r.temperature == some reasoningTemperature
    && !r.stream && !r.extra.any (fun (name, _) => name == "stream_options")

/-- The request as its model takes it, and whether anything had to change. -/
def settle (r : Request) : Request × Bool :=
  if isReasoningModel r.model then (r.forReasoning, !r.isForReasoning) else (r, false)

end Request

end ModelRelay.Chat
