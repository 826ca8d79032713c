import ModelRelay.Config.Basic

/-!
# What a configuration has to keep to

A configuration that can be read may still be of no use. Its fields have limits, which are all
looked at together; then each channel needs an id of its own and an endpoint that its family can be
called at; then each model with regions needs one.

Whether a text is a URL is for a library to say, so the checks are given a `UrlParser`, and nothing
is taken for granted about it here. All that the relay does itself is to ask it for the scheme.
-/

set_option autoImplicit false

namespace ModelRelay.Config

/-- A way of reading URLs: the scheme of a text that is an absolute URL, or what is wrong with one
that is not. -/
abbrev UrlParser := String → Except String String

/-! ## Limits of fields -/

/-- A field out of its limits, by its path, and the kind of limit. -/
structure Violation where
  path : String
  code : String
deriving DecidableEq, Repr

/-- The violation of a limit that does not hold. -/
def limit (holds : Bool) (path code : String) : List Violation :=
  if holds then [] else [⟨path, code⟩]

/-- The most characters that an id may have. -/
def maxIdLength : Nat := 128

/-- The most frames that may be buffered. -/
def maxStreamBuffer : Nat := 65536

namespace ChannelEntry

def violations (index : Nat) (c : ChannelEntry) : List Violation :=
  let path (field : String) : String := "channels[" ++ index.repr ++ "]." ++ field
  limit (1 ≤ c.id.length && c.id.length ≤ maxIdLength) (path "id") "length" ++
    limit (!c.models.isEmpty) (path "models") "length"

end ChannelEntry

/-- All fields out of their limits. -/
def violations (c : Config) : List Violation :=
  limit (!c.listen.host.isEmpty) "server.host" "length" ++
    limit (1 ≤ c.listen.number) "server.port" "range" ++
    limit (1 ≤ c.relay.streamBuffer && c.relay.streamBuffer ≤ maxStreamBuffer)
      "relay.stream_buffer" "range" ++
    limit (!c.logging.level.isEmpty) "logging.level" "length" ++
    c.channels.zipIdx.flatMap fun (channel, index) => channel.violations index

/-! ## Faults -/

/-- What is wrong with a channel. -/
inductive ChannelFault where
  | duplicate
  | noBaseUrl
  | noProject
  | url (text detail : String)
  | scheme (name : String)
deriving DecidableEq, Repr

def ChannelFault.message : ChannelFault → String
  | duplicate => "duplicate channel id"
  | noBaseUrl => "base_url is required"
  | noProject => "project_id is required"
  | url text detail => "invalid base_url " ++ text ++ ": " ++ detail
  | scheme name => "unsupported scheme " ++ name ++ " in base_url"

/-- Why there is no configuration to run with. -/
inductive Fault where
  | unreadable (path detail : String)
  | malformed (detail : String)
  | limits (violations : List Violation)
  | noRegions (model : String)
  | channel (id : String) (fault : ChannelFault)
  | noKey (id : String)
  | setting (name value : String)
deriving DecidableEq, Repr

def Violation.message (v : Violation) : String :=
  v.path ++ ": Validation error: " ++ v.code

def Fault.message : Fault → String
  | unreadable path detail => "Failed to read config file " ++ path ++ ": " ++ detail
  | malformed detail => "Failed to parse config: " ++ detail
  | limits broken =>
    "Invalid configuration: " ++ "\n".intercalate (broken.map Violation.message)
  | noRegions model => "Invalid configuration: regions for " ++ model ++ " must not be empty"
  | channel id fault => "Invalid channel " ++ id ++ ": " ++ fault.message
  | noKey id => "Channel " ++ id ++ " has no API key"
  | setting name value => "Invalid value for " ++ name ++ ": " ++ value

/-! ## Checks -/

section Checks

variable (parse : UrlParser)

/-- A base URL that the relay can call. -/
def checkUrl (baseUrl : String) : Except ChannelFault Unit :=
  match parse baseUrl with
  | .error detail => .error (.url baseUrl detail)
  | .ok scheme => if scheme = "http" ∨ scheme = "https" then .ok () else .error (.scheme scheme)

namespace ChannelEntry

/-- Whether a channel's family can be called with what is configured. A base URL without a scheme
is the host that a region goes in front of. -/
def checkEndpoint (c : ChannelEntry) : Except ChannelFault Unit :=
  match c.family with
  | .openai | .anthropic =>
    if c.baseUrl.isEmpty then .error .noBaseUrl else checkUrl parse c.baseUrl
  | .vertexClaude =>
    if (c.project.getD "").isEmpty then .error .noProject
    else if Vertex.hasScheme c.baseUrl then checkUrl parse c.baseUrl
    else .ok ()

end ChannelEntry

/-- Checks channels in their order; `seen` are the ids of those before. -/
def checkChannels (seen : List String) : List ChannelEntry → Except Fault Unit
  | [] => .ok ()
  | c :: rest =>
    if seen.contains c.id then .error (.channel c.id .duplicate)
    else match c.checkEndpoint parse with
      | .error fault => .error (.channel c.id fault)
      | .ok () => checkChannels (c.id :: seen) rest

/-- Checks that each model with regions has one. -/
def checkRegions : Vertex.Regions → Except Fault Unit
  | [] => .ok ()
  | (model, regions) :: rest =>
    if regions.isEmpty then .error (.noRegions model) else checkRegions rest

/-- Checks a configuration: limits, then channels, then regions. -/
def check (c : Config) : Except Fault Unit := do
  if !c.violations.isEmpty then throw (.limits c.violations)
  checkChannels parse [] c.channels
  checkRegions c.regions

end Checks

end ModelRelay.Config
