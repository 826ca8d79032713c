import ModelRelay.Json.Decoder
import ModelRelay.Decimal.Layout

/-!
# What can go wrong

Every failure of a relayed call is a `RelayError`, and every constructor says who is to blame: the
caller, the provider, the way there, or the relay. A failure holds its cause; its wording, the
HTTP status, the type and the code that a caller sees are functions of it. Two kinds of failure are
shown to the caller without their details: answers that could not be decoded, which may hold
anything, and failures of the relay itself. Causes that collaborators outside this library supply
come as a text of their own (`other`).
-/

set_option autoImplicit false

namespace ModelRelay

/-- What is wrong with a request. -/
inductive RequestFault where
  | body (mismatch : Mismatch)
  | noModel
  | noMessages
  | temperature (x : Binary)
  | presencePenalty (x : Binary)
  | frequencyPenalty (x : Binary)
  /-- A value that no header can hold. -/
  | header (name : String)
  | absent
  | other (message : String) (field : Option String) (code : String)
deriving DecidableEq, Repr

namespace RequestFault

def outOfRange (field low high : String) (x : Binary) : String :=
  field ++ " must be between " ++ low ++ " and " ++ high ++ ", got " ++ x.display .single

def message : RequestFault → String
  | body mismatch => "invalid request body: " ++ mismatch.message
  | noModel => "model is required"
  | noMessages => "messages cannot be empty"
  | temperature x => outOfRange "temperature" "0.0" "2.0" x
  | presencePenalty x => outOfRange "presence_penalty" "-2.0" "2.0" x
  | frequencyPenalty x => outOfRange "frequency_penalty" "-2.0" "2.0" x
  | header name => "invalid value for header " ++ name
  | absent => "request is nil"
  | other message _ _ => message

/-- The member or header at fault, if one is. -/
def field? : RequestFault → Option String
  | body _ | absent => none
  | noModel => some "model"
  | noMessages => some "messages"
  | temperature _ => some "temperature"
  | presencePenalty _ => some "presence_penalty"
  | frequencyPenalty _ => some "frequency_penalty"
  | header name => some name
  | other _ field _ => field

def code : RequestFault → String
  | body _ => "invalid_body"
  | noModel => "missing_model"
  | noMessages => "empty_messages"
  | temperature _ => "invalid_temperature"
  | presencePenalty _ => "invalid_presence_penalty"
  | frequencyPenalty _ => "invalid_frequency_penalty"
  | header _ => "invalid_header"
  | absent => "missing_request"
  | other _ _ code => code

end RequestFault

/-- How a call to a provider broke off. -/
inductive TransportFault where
  | timedOut (detail : String)
  | failed (detail : String)
  | bodyLost (detail : String)
  | other (message : String) (timedOut : Bool)
deriving DecidableEq, Repr

namespace TransportFault

def message : TransportFault → String
  | timedOut detail => "Request timed out: " ++ detail
  | failed detail => "Request failed: " ++ detail
  | bodyLost detail => "Failed to read body: " ++ detail
  | other message _ => message

/-- The time allowed for the call was up. -/
def isTimeout : TransportFault → Bool
  | timedOut _ => true
  | failed _ | bodyLost _ => false
  | other _ late => late

end TransportFault

/-- What could not be made out in a provider's answer. -/
inductive DecodeFault where
  | body (mismatch : Mismatch)
  | completion (mismatch : Mismatch)
  | message (mismatch : Mismatch)
  | chunkText (mismatch : Mismatch)
  | chunk (mismatch : Mismatch)
  | event (mismatch : Mismatch)
  | other (text : String)
deriving DecidableEq, Repr

def DecodeFault.wording : DecodeFault → String
  | .body m => "Invalid JSON body: " ++ m.message
  | .completion m => "Unexpected completion shape: " ++ m.message
  | .message m => "Unexpected message shape: " ++ m.message
  | .chunkText m => "Malformed stream chunk: " ++ m.message
  | .chunk m => "Unexpected chunk shape: " ++ m.message
  | .event m => "Malformed stream event: " ++ m.message
  | .other text => text

/-- Why there is no way to a model. -/
inductive RouteFault where
  | noChannel (model : String)
  | noRegion (model : String)
  | unsupported (model : String)
  | noProject (channel : String)
  | other (message : String)
deriving DecidableEq, Repr

def RouteFault.message : RouteFault → String
  | .noChannel model => "no channel available for model " ++ model
  | .noRegion model => "no region available for model " ++ model
  | .unsupported model => "unsupported model: " ++ model
  | .noProject channel => "channel " ++ channel ++ " has no project id"
  | .other message => message

/-- How a stream failed after forwarding had begun. -/
inductive StreamFault where
  | interrupted (provider detail : String)
  | unfinished (provider : String)
  | other (message : String)
deriving DecidableEq, Repr

def StreamFault.message : StreamFault → String
  | .interrupted provider detail => provider ++ " stream interrupted: " ++ detail
  | .unfinished provider => provider ++ " stream ended without a completion signal"
  | .other message => message

/-- How a caller gave up. -/
inductive CancelFault where
  | left
  | stalled (milliseconds : Nat)
  | other (message : String)
deriving DecidableEq, Repr

def CancelFault.message : CancelFault → String
  | .left => "caller disconnected"
  | .stalled ms => "caller did not read for " ++ ms.repr ++ "ms"
  | .other message => message

/-- What the relay itself got wrong. -/
inductive InternalFault where
  | notReady (provider : String)
  | noSink
  | noBody
  /-- A body that was made for a provider is no object. -/
  | noObject
  | json (mismatch : Mismatch)
  /-- The call ended without an answer. -/
  | aborted
  | other (message : String)
deriving DecidableEq, Repr

def InternalFault.message : InternalFault → String
  | .notReady provider => provider ++ " adaptor used before init"
  | .noSink => "streamed response without a caller sink"
  | .noBody => "blocking response without a body"
  | .noObject => "converted body is not an object"
  | .json m => "JSON serialization failed: " ++ m.message
  | .aborted => "call aborted"
  | .other message => message

/-- A failure of a relayed call. -/
inductive RelayError where
  /-- The caller's request is not acceptable. -/
  | invalid (fault : RequestFault)
  /-- The provider answered with an error of its own. -/
  | refused (provider : String) (status : Nat) (message : String) (kind : Option String)
  | unreachable (provider : String) (fault : TransportFault)
  | undecodable (provider : String) (fault : DecodeFault)
  | unresolved (fault : RouteFault)
  | quota (message : String)
  | stream (fault : StreamFault)
  | cancelled (fault : CancelFault)
  | internal (fault : InternalFault)
deriving DecidableEq, Repr

namespace RelayError

/-- The full wording, for logs. -/
def display : RelayError → String
  | invalid fault => "Validation error: " ++ fault.message
  | refused provider status message _ =>
    "Upstream error from " ++ provider ++ " (" ++ status.repr ++ "): " ++ message
  | unreachable provider fault => "Transport error calling " ++ provider ++ ": " ++ fault.message
  | undecodable provider fault =>
    "Failed to decode " ++ provider ++ " response: " ++ fault.wording
  | unresolved fault => "Resolution error: " ++ fault.message
  | quota message => "Quota exceeded: " ++ message
  | stream fault => "Stream error: " ++ fault.message
  | cancelled fault => "Request cancelled: " ++ fault.message
  | internal fault => "Internal error: " ++ fault.message

/-- The HTTP status of an answer with this failure. A provider's own status is passed on if it is
one that HTTP can carry. -/
def status : RelayError → Nat
  | invalid _ => 400
  | refused _ status _ _ => if 100 ≤ status ∧ status ≤ 999 then status else 502
  | unreachable _ fault => if fault.isTimeout then 504 else 502
  | undecodable .. => 500
  | unresolved _ => 503
  | quota _ => 429
  | stream _ => 502
  | cancelled _ => 499
  | internal _ => 500

/-- The type of the failure in a caller's body. -/
def kind : RelayError → String
  | invalid _ => "invalid_request_error"
  | refused _ _ _ kind => kind.getD "upstream_error"
  | unreachable .. => "transport_error"
  | undecodable .. => "decode_error"
  | unresolved _ => "resolution_error"
  | quota _ => "insufficient_quota"
  | stream _ => "stream_error"
  | cancelled _ => "cancelled"
  | internal _ => "internal_error"

def code? : RelayError → Option String
  | invalid fault => some fault.code
  | refused _ status _ _ => some status.repr
  | _ => none

/-- What the caller is told. -/
def publicMessage : RelayError → String
  | undecodable provider _ => "Upstream " ++ provider ++ " returned an unexpected response"
  | internal _ => "Internal gateway error"
  | refused _ _ message _ => message
  | e => e.display

end RelayError

/-! ## Bodies -/

/-- The details of a failure in a body. -/
structure ErrorDetail where
  message : String
  kind : String
  code : Option String
deriving DecidableEq, Repr

/-- The body of a failure for callers of chat completions. -/
structure ErrorBody where
  error : ErrorDetail
deriving DecidableEq, Repr

/-- The body of a failure for callers of the Messages protocol. -/
structure NativeErrorBody where
  kind : String
  error : ErrorDetail
deriving DecidableEq, Repr

namespace ErrorDetail

def toJson (d : ErrorDetail) : Json :=
  .ofMembers [("message", some (.string d.message)), ("type", some (.string d.kind)),
    ("code", d.code.map .string)]

/-- The fields read so far. -/
structure Slots where
  message : Option String := none
  kind : Option String := none
  code : Option (Option String) := none

open Decoder in
def put (s : Slots) (field : String) (r : Reading) : Except Mismatch Slots := do
  match field with
  | "message" => return { s with message := ← fill field s.message text r }
  | "type" => return { s with kind := ← fill field s.kind text r }
  | "code" => return { s with code := ← fill field s.code (optional text) r }
  | _ => do skip r; return s

def decoder : Decoder ErrorDetail := fun r => do
  let s ← Decoder.record [("message", false), ("type", false), ("code", true)] put {} r
  return ⟨← Decoder.need "message" s.message, ← Decoder.need "type" s.kind, s.code.join⟩

end ErrorDetail

namespace ErrorBody

def toJson (b : ErrorBody) : Json :=
  .object [("error", b.error.toJson)]

open Decoder in
def put (s : Option ErrorDetail) (field : String) (r : Reading) :
    Except Mismatch (Option ErrorDetail) := do
  match field with
  | "error" => fill field s ErrorDetail.decoder r
  | _ => do skip r; return s

def decoder : Decoder ErrorBody := fun r => do
  let s ← Decoder.record [("error", false)] put none r
  return ⟨← Decoder.need "error" s⟩

end ErrorBody

namespace NativeErrorBody

/-- The body of a failure of a type. It has no code. -/
def ofMessage (kind message : String) : NativeErrorBody :=
  ⟨"error", ⟨message, kind, none⟩⟩

def toJson (b : NativeErrorBody) : Json :=
  .object [("type", .string b.kind), ("error", b.error.toJson)]

/-- The fields read so far. -/
structure Slots where
  kind : Option String := none
  error : Option ErrorDetail := none

open Decoder in
def put (s : Slots) (field : String) (r : Reading) : Except Mismatch Slots := do
  match field with
  | "type" => return { s with kind := ← fill field s.kind text r }
  | "error" => return { s with error := ← fill field s.error ErrorDetail.decoder r }
  | _ => do skip r; return s

def decoder : Decoder NativeErrorBody := fun r => do
  let s ← Decoder.record [("type", false), ("error", false)] put {} r
  return ⟨← Decoder.need "type" s.kind, ← Decoder.need "error" s.error⟩

end NativeErrorBody

namespace RelayError

def toBody (e : RelayError) : ErrorBody :=
  ⟨⟨e.publicMessage, e.kind, e.code?⟩⟩

def toNativeBody (e : RelayError) : NativeErrorBody :=
  .ofMessage e.kind e.publicMessage

/-- The body in the envelope of a protocol. -/
def envelope (native : Bool) (e : RelayError) : Json :=
  if native then e.toNativeBody.toJson else e.toBody.toJson

end RelayError

end ModelRelay
