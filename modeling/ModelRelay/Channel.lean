import ModelRelay.Json.Decoder

/-!
# Channels

A channel is one configured account at a provider: where it is, which family of provider it
belongs to, and which models it serves. A model may be served under another name; the mapping says
which name the provider knows it by.
-/

set_option autoImplicit false

namespace ModelRelay

/-- A family of providers. Its members are addressed and answer alike. -/
inductive Family where
  | openai
  | anthropic
  | vertexClaude
deriving DecidableEq, Repr

namespace Family

def name : Family → String
  | openai => "openai"
  | anthropic => "anthropic"
  | vertexClaude => "vertex_claude"

/-- The names a family is configured by, second names included. -/
def names : List (String × Family) :=
  [("openai", openai), ("openai_compatible", openai), ("anthropic", anthropic),
   ("gcp_claude", vertexClaude), ("vertex_claude", vertexClaude)]

def decoder : Decoder Family :=
  Decoder.oneOf names

/-- The family speaks the Messages protocol. -/
def isClaude : Family → Bool
  | openai => false
  | anthropic | vertexClaude => true

end Family

/-- The protocol that a caller speaks. -/
inductive Protocol where
  /-- Chat completions. -/
  | completions
  | messages
deriving DecidableEq, Repr

namespace Protocol

def name : Protocol → String
  | completions => "chat_completions"
  | messages => "messages"

def decoder : Decoder Protocol :=
  Decoder.oneOf ([completions, messages].map fun p => (p.name, p))

end Protocol

/-- A configured account at a provider. -/
structure Channel where
  id : String
  name : String := id
  family : Family
  /-- Where the provider is; for a provider with regions, a host to put a region in front of. -/
  baseUrl : String
  apiKey : String
  project : Option String := none
  models : List String := []
  /-- The provider's names of models, by the names they are asked for. -/
  mapping : List (String × String) := []
deriving DecidableEq, Repr

namespace Channel

/-- The channel serves a model, under its own name or another. -/
def supports (c : Channel) (model : String) : Bool :=
  c.models.contains model || (c.mapping.lookup model).isSome

/-- The provider's name of a model. An empty name in the mapping counts as none. -/
def actualModel (c : Channel) (model : String) : String :=
  ((c.mapping.lookup model).filter (!·.isEmpty)).getD model

end Channel

/-! ## Routes -/

/-- Drops every slash at the end. -/
def dropTrailingSlashes (s : String) : String :=
  String.ofList (s.toList.reverse.dropWhile (· == '/')).reverse

/-- The way of one call: from a caller's protocol and model to a channel. -/
structure Route where
  channel : Channel
  /-- The model the caller asked for. -/
  model : String
  protocol : Protocol
  stream : Bool
  /-- The estimate of the prompt's tokens. -/
  promptTokens : UInt32
deriving Repr

namespace Route

/-- The model under the provider's name. -/
def actualModel (r : Route) : String :=
  r.channel.actualModel r.model

/-- Where the provider is, without slashes at the end. -/
def baseUrl (r : Route) : String :=
  dropTrailingSlashes r.channel.baseUrl

/-- The caller speaks the provider's own protocol, so answers pass as they are. -/
def isNative (r : Route) : Bool :=
  r.protocol == .messages && r.channel.family.isClaude

end Route

end ModelRelay
