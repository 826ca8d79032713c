import ModelRelay.Json.Decoder

/-!
# Roles

Who speaks in a turn of a conversation. `developer` is the newer name for system instructions.
-/

set_option autoImplicit false

namespace ModelRelay.Chat

inductive Role where
  | system
  | developer
  | user
  | assistant
  | tool
deriving DecidableEq, Repr

namespace Role

def name : Role → String
  | system => "system"
  | developer => "developer"
  | user => "user"
  | assistant => "assistant"
  | tool => "tool"

/-- Every role under its name, in the order in which a refusal lists them. -/
def names : List (String × Role) :=
  [system, developer, user, assistant, tool].map fun r => (r.name, r)

def decoder : Decoder Role :=
  Decoder.oneOf names

/-- The turn holds instructions and no part of the conversation. -/
def isInstruction : Role → Bool
  | system | developer => true
  | user | assistant | tool => false

end Role

end ModelRelay.Chat
