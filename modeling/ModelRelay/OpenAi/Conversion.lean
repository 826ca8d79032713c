import ModelRelay.Chat.Request

/-!
# Requests for chat completions

Requests are held in the shape that providers of chat completions take, so little has to change:
instructions at the top become a first turn, stop sequences go under their usual name, and a stream
is asked to report its usage.
-/

set_option autoImplicit false

namespace ModelRelay.OpenAi

/-- The turn that instructions at the top become. -/
def systemTurn (system : Chat.SystemPrompt) : Json :=
  .object [("content", .string system.joinedText), ("role", .string "system")]

/-- The turns of a request, instructions at the top as the first of them. -/
def turns (r : Chat.Request) : List Json :=
  (r.system.map systemTurn).toList ++ r.messages.map Chat.Message.toJson

/-- The request for a provider of chat completions. -/
def convert (r : Chat.Request) : Json :=
  let members := { r with system := none, stopSequences := none, stop := r.stopList }.members
  let members := Json.setMember "messages" (some (.array (turns r))) members
  let members :=
    if r.stream then
      Json.setMember "stream_options" (some (.object [("include_usage", .bool true)])) members
    else members
  (Json.ofMembers members).canonical

end ModelRelay.OpenAi
