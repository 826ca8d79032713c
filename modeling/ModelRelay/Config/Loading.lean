import ModelRelay.Config.Validation
import ModelRelay.Http.Server

/-!
# From a configuration to a relay

A configuration is read from a file, if one is named, and variables of the environment take the
place of where it listens. A channel's key stands in the configuration or in the environment.
-/

set_option autoImplicit false

namespace ModelRelay.Config

/-- The variables of an environment that are set. -/
abbrev Environment := String → Option String

/-- A variable that is set to some text. -/
def Environment.nonempty? (env : Environment) (name : String) : Option String :=
  (env name).filter (!·.isEmpty)

def hostVariable : String := "GATEWAY_HOST"

def numberVariable : String := "GATEWAY_PORT"

/-- The number of a TCP endpoint: digits, and a plus if one likes. -/
def endpointNumber? (s : String) : Option Nat :=
  let digits := match s.toList with
    | '+' :: rest => rest
    | cs => cs
  if digits.isEmpty || !digits.all Char.isDigit then none
  else
    let n := digits.foldl (fun n d => n * 10 + (d.toNat - '0'.toNat)) 0
    if n < 0x10000 then some n else none

/-- The configuration with the host of the environment. -/
def withHost (c : Config) (env : Environment) : Config :=
  match env.nonempty? hostVariable with
  | some host => { c with listen := { c.listen with host } }
  | none => c

/-- The configuration with the host and the number of the environment. The host is taken even if
the number is none. -/
def override (c : Config) (env : Environment) : Config × Except Fault Unit :=
  let c := c.withHost env
  match env.nonempty? numberVariable with
  | none => (c, .ok ())
  | some value =>
    match endpointNumber? value with
    | some number => ({ c with listen := { c.listen with number } }, .ok ())
    | none => (c, .error (.setting numberVariable value))

/-- Where a configuration comes from. -/
inductive Source where
  /-- No file is named. -/
  | unnamed
  | missing (path detail : String)
  | file (path : String) (bytes : List UInt8)

/-- The configuration of a source as it stands there. -/
def Source.read : Source → Except Fault Config
  | unnamed => .ok {}
  | missing path detail => .error (.unreadable path detail)
  | file path bytes =>
    match Utf8.strict? bytes with
    | none => .error (.unreadable path "stream did not contain valid UTF-8")
    | some s =>
      match Config.ofText? s with
      | some c => .ok c
      | none => .error (.malformed "not a configuration")

/-- Loads a configuration: it is read, overridden, and checked. -/
def load (parse : UrlParser) (source : Source) (env : Environment) : Except Fault Config := do
  let c ← source.read
  let (c, result) := c.override env
  result
  c.check parse
  return c

/-! ## Channels -/

namespace ChannelEntry

/-- The key of a channel: the one that is written down, else that of its variable. -/
def key? (c : ChannelEntry) (env : Environment) : Option String :=
  (c.apiKey.filter (!·.isEmpty)).or (c.apiKeyVariable.bind env.nonempty?)

def toChannel (c : ChannelEntry) (env : Environment) : Except Fault Channel :=
  match c.key? env with
  | none => .error (.noKey c.id)
  | some apiKey => .ok {
      id := c.id
      name := c.name.getD c.id
      family := c.family
      baseUrl := c.baseUrl
      apiKey
      project := c.project
      models := c.models
      mapping := c.mapping }

end ChannelEntry

/-- The channels of a configuration. -/
def buildChannels (c : Config) (env : Environment) : Except Fault (List Channel) :=
  c.channels.mapM (·.toChannel env)

/-- The models that channels advertise: those they serve under their own names, and the names they
are mapped from. -/
def advertised (channels : List Channel) : List String :=
  channels.flatMap fun c => c.models ++ c.mapping.map Prod.fst

/-- The relay that a configuration describes. -/
def server (c : Config) (env : Environment) (send : Post → Exchange) :
    Except Fault Http.Server := do
  let channels ← c.buildChannels env
  let dispatcher : Dispatcher :=
    { services := .ofChannels channels, regions := c.regionsInForce, settings := c.relay, send }
  return .ofModels dispatcher (advertised channels)

end ModelRelay.Config
