import ModelRelay.Config.Duration
import ModelRelay.Relay.Call
import ModelRelay.Yaml.Decoder

/-!
# Configuration

What the relay is configured with: where it listens, how it calls providers, what it logs, its
channels, and the regions of models. It is read from a YAML document, in which all but the
channels' ids and families may be left out.
-/

set_option autoImplicit false

namespace ModelRelay.Config

/-- Where the relay listens. -/
structure Listen where
  host : String := "0.0.0.0"
  /-- The number of the TCP endpoint. -/
  number : Nat := 8080
deriving DecidableEq, Repr

/-- The address as it is bound. -/
def Listen.address (l : Listen) : String :=
  l.host ++ ":" ++ l.number.repr

structure Logging where
  level : String := "info"
  /-- Lines are JSON documents. -/
  json : Bool := false
  /-- Lines tell where in the program they come from. -/
  withTarget : Bool := true
deriving DecidableEq, Repr

/-- A channel as it is configured: its key may be kept in a variable of the environment. -/
structure ChannelEntry where
  id : String
  name : Option String
  family : Family
  baseUrl : String
  apiKey : Option String
  apiKeyVariable : Option String
  project : Option String
  models : List String
  mapping : List (String × String)
deriving DecidableEq, Repr

end Config

structure Config where
  listen : Config.Listen := {}
  relay : Settings := {}
  logging : Config.Logging := {}
  channels : List Config.ChannelEntry := []
  /-- The regions of models. If there are none, the built-in ones are in force. -/
  regions : Vertex.Regions := []
deriving Repr

namespace Config

open Yaml (Document Node)
open Yaml.Decoder

/-! ## Reading -/

namespace Listen

/-- The fields read so far. -/
structure Slots where
  host : Option String := none
  number : Option Nat := none

def put (s : Slots) (field : String) (d : Document) (n : Node) : Option Slots := do
  match field with
  | "host" => return { s with host := ← fill s.host text d n }
  | "port" => return { s with number := ← fill s.number (natural 0x10000) d n }
  | _ => return s

def decoder : Yaml.Decoder Listen := fun d n => do
  let s ← record ["host", "port"] put {} d n
  let default : Listen := {}
  return ⟨s.host.getD default.host, s.number.getD default.number⟩

end Listen

/-- A time. -/
def duration : Yaml.Decoder Nat := fun d n => do
  Duration.ofText? (← text d n)

namespace RelaySection

/-- The fields read so far. -/
structure Slots where
  connect : Option Nat := none
  request : Option Nat := none
  streamWrite : Option Nat := none
  streamBuffer : Option Nat := none

def put (s : Slots) (field : String) (d : Document) (n : Node) : Option Slots := do
  match field with
  | "connect_timeout" => return { s with connect := ← fill s.connect duration d n }
  | "request_timeout" => return { s with request := ← fill s.request duration d n }
  | "stream_write_timeout" => return { s with streamWrite := ← fill s.streamWrite duration d n }
  | "stream_buffer" =>
    return { s with streamBuffer := ← fill s.streamBuffer (natural 0x10000000000000000) d n }
  | _ => return s

def decoder : Yaml.Decoder Settings := fun d n => do
  let s ← record ["connect_timeout", "request_timeout", "stream_write_timeout", "stream_buffer"]
    put {} d n
  let default : Settings := {}
  return {
    connectTimeout := s.connect.getD default.connectTimeout
    requestTimeout := s.request.getD default.requestTimeout
    streamWriteTimeout := s.streamWrite.getD default.streamWriteTimeout
    streamBuffer := s.streamBuffer.getD default.streamBuffer }

end RelaySection

namespace Logging

/-- The fields read so far. -/
structure Slots where
  level : Option String := none
  json : Option Bool := none
  withTarget : Option Bool := none

def formats : List (String × Bool) :=
  [("text", false), ("json", true)]

def put (s : Slots) (field : String) (d : Document) (n : Node) : Option Slots := do
  match field with
  | "level" => return { s with level := ← fill s.level text d n }
  | "format" => return { s with json := ← fill s.json (oneOf formats) d n }
  | "with_target" => return { s with withTarget := ← fill s.withTarget flag d n }
  | _ => return s

def decoder : Yaml.Decoder Logging := fun d n => do
  let s ← record ["level", "format", "with_target"] put {} d n
  let default : Logging := {}
  return ⟨s.level.getD default.level, s.json.getD default.json,
    s.withTarget.getD default.withTarget⟩

end Logging

namespace ChannelEntry

/-- The fields read so far. -/
structure Slots where
  id : Option String := none
  name : Option (Option String) := none
  family : Option Family := none
  baseUrl : Option String := none
  apiKey : Option (Option String) := none
  apiKeyVariable : Option (Option String) := none
  project : Option (Option String) := none
  models : Option (List String) := none
  mapping : Option (List (String × String)) := none

def put (s : Slots) (field : String) (d : Document) (n : Node) : Option Slots := do
  match field with
  | "id" => return { s with id := ← fill s.id text d n }
  | "name" => return { s with name := ← fill s.name (optional text) d n }
  | "type" => return { s with family := ← fill s.family (oneOf Family.names) d n }
  | "base_url" => return { s with baseUrl := ← fill s.baseUrl text d n }
  | "api_key" => return { s with apiKey := ← fill s.apiKey (optional text) d n }
  | "api_key_env" => return { s with apiKeyVariable := ← fill s.apiKeyVariable (optional text) d n }
  | "project_id" => return { s with project := ← fill s.project (optional text) d n }
  | "models" => return { s with models := ← fill s.models (list text) d n }
  | "model_mapping" => return { s with mapping := ← fill s.mapping (table text) d n }
  | _ => return s

def fields : List String :=
  ["id", "name", "type", "base_url", "api_key", "api_key_env", "project_id", "models",
   "model_mapping"]

def decoder : Yaml.Decoder ChannelEntry := fun d n => do
  let s ← record fields put {} d n
  return {
    id := ← s.id
    name := s.name.join
    family := ← s.family
    baseUrl := s.baseUrl.getD ""
    apiKey := s.apiKey.join
    apiKeyVariable := s.apiKeyVariable.join
    project := s.project.join
    models := s.models.getD []
    mapping := s.mapping.getD [] }

end ChannelEntry

/-- The sections read so far. -/
structure Slots where
  listen : Option Listen := none
  relay : Option Settings := none
  logging : Option Logging := none
  channels : Option (List ChannelEntry) := none
  regions : Option Vertex.Regions := none

def put (s : Slots) (field : String) (d : Document) (n : Node) : Option Slots := do
  match field with
  | "server" => return { s with listen := ← fill s.listen Listen.decoder d n }
  | "relay" => return { s with relay := ← fill s.relay RelaySection.decoder d n }
  | "logging" => return { s with logging := ← fill s.logging Logging.decoder d n }
  | "channels" => return { s with channels := ← fill s.channels (list ChannelEntry.decoder) d n }
  | "regions" => return { s with regions := ← fill s.regions (table (list text)) d n }
  | _ => return s

def decoder : Yaml.Decoder Config := fun d n => do
  let s ← record ["server", "relay", "logging", "channels", "regions"] put {} d n
  return {
    listen := s.listen.getD {}
    relay := s.relay.getD {}
    logging := s.logging.getD {}
    channels := s.channels.getD []
    regions := s.regions.getD [] }

/-- Reads a configuration. -/
def ofText? (s : String) : Option Config :=
  Yaml.Decoder.ofText decoder s

/-- The regions in force. -/
def regionsInForce (c : Config) : Vertex.Regions :=
  if c.regions.isEmpty then .builtIn else c.regions

end Config

end ModelRelay
