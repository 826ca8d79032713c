import ModelRelay.Http.Access
import ModelRelay.Relay.Call

/-!
# The HTTP interface

Four endpoints: the relay's health, the models it advertises, and the two protocols. A failure is
answered in the envelope of the protocol that was addressed.
-/

set_option autoImplicit false

namespace ModelRelay.Http

/-- The body of an answer. -/
inductive Payload where
  | empty
  | text (s : String)
  | json (j : Json)
  | frames (frames : List Sse.Frame)
deriving Repr

structure Response where
  status : Nat
  headers : List (String × String)
  payload : Payload
deriving Repr

namespace Response

def ofJson (status : Nat) (j : Json) : Response :=
  ⟨status, [("content-type", "application/json")], .json j⟩

/-- The answer without its body. -/
def bodiless (r : Response) : Response :=
  { r with payload := .empty }

end Response

/-- What an answer with a failure is about. -/
inductive ApiError where
  | relay (native : Bool) (e : RelayError)
  /-- The caller shows no key. -/
  | unauthorized (native : Bool) (message : String)
deriving Repr

namespace ApiError

def display : ApiError → String
  | relay _ e => e.display
  | unauthorized _ message => "Unauthorized: " ++ message

def status : ApiError → Nat
  | relay _ e => e.status
  | unauthorized .. => 401

/-- The body that a caller gets, in the envelope of its protocol. -/
def body : ApiError → Json
  | relay native e => e.envelope native
  | unauthorized true message => (NativeErrorBody.ofMessage "authentication_error" message).toJson
  | unauthorized false message =>
    ErrorBody.toJson ⟨⟨message, "authentication_error", some "missing_api_key"⟩⟩

def toResponse (e : ApiError) : Response :=
  .ofJson e.status e.body

end ApiError

/-- The caller that a request's headers show. -/
def authorize (path : String) (h : Headers) : Except ApiError CallerId :=
  match keyOf? h with
  | some key => .ok (.ofKey key)
  | none => .error (.unauthorized (isMessagesPath path) missingKey)

/-- The headers of an answer that is an event stream. -/
def eventStreamHeaders : List (String × String) :=
  [("content-type", "text/event-stream"), ("cache-control", "no-cache"),
   ("connection", "keep-alive"), ("transfer-encoding", "chunked"), ("x-accel-buffering", "no")]

/-- A list without what it has already said. -/
def distinct (names : List String) : List String :=
  (names.foldl (fun seen name => if seen.contains name then seen else name :: seen) []).reverse

/-- The greatest body that is taken, in bytes. -/
def maxBodySize : Nat := 32 * 1024 * 1024

inductive Endpoint where
  | health
  | models
  | relay (protocol : Protocol)
deriving DecidableEq, Repr

namespace Endpoint

def ofPath? (path : String) : Option Endpoint :=
  match path with
  | "/health" => some health
  | "/v1/models" => some models
  | "/v1/chat/completions" => some (relay .completions)
  | "/v1/messages" => some (relay .messages)
  | _ => none

/-- The methods that an endpoint takes. -/
def methods : Endpoint → List String
  | health | models => ["GET", "HEAD"]
  | relay _ => ["POST"]

end Endpoint

structure Request where
  method : String := "POST"
  target : String
  headers : Headers
  body : ByteArray

/-- The relay as a server. -/
structure Server where
  dispatcher : Dispatcher
  /-- The models that are advertised, each once. -/
  models : List String
  version : String := "0.1.0"

/-- What a request came to: its answer, if it gets one, and the steps that reached out of the
relay. -/
structure Handled where
  response : Option Response
  caller : Option Caller := none
  effects : List Effect := []

namespace Server

def ofModels (dispatcher : Dispatcher) (advertised : List String) : Server :=
  { dispatcher, models := distinct advertised }

def health (s : Server) (uptime activeStreams : Nat) : Response :=
  .ofJson 200 (.object [("status", .string "healthy"), ("version", .string s.version),
    ("uptime_seconds", .ofNat uptime), ("active_streams", .ofNat activeStreams)])

def listModels (s : Server) : Response :=
  let entry (id : String) : Json :=
    .object [("id", .string id), ("object", .string "model"), ("owned_by", .string "system")]
  .ofJson 200 (.object [("object", .string "list"), ("data", .array (s.models.map entry))])

/-- The answer to a call that did not fail. It carries the id of its request. -/
def replyResponse (requestId : String) (reply : Reply) : Option Response :=
  let id := if requestId.toUTF8.data.toList.any Headers.isForbidden then []
    else [("x-request-id", requestId)]
  match reply with
  | .whole body _ => some ⟨200, ("content-type", "application/json") :: id, .json body⟩
  | .stream frames => some ⟨200, eventStreamHeaders ++ id, .frames frames⟩
  | .waiting => none

/-- Relays a request that came to an endpoint of a protocol. -/
def relay (s : Server) (protocol : Protocol) (r : Request) (fresh : Fresh) (freshId : String)
    (reader : Delivery.Session.Caller) : Handled :=
  match authorize (pathOf r.target) r.headers with
  | .error e => { response := some e.toResponse }
  | .ok id =>
    if maxBodySize < r.body.size then
      { response := some ⟨413, [("content-type", "text/plain; charset=utf-8")],
          .text "Failed to buffer the request body: length limit exceeded"⟩ }
    else
      let requestId := (requestId? r.headers).getD freshId
      let caller : Caller :=
        { id := id.id, label := id.label, requestId, headers := r.headers, protocol }
      let report := s.dispatcher.relay caller ⟨r.body⟩ fresh reader
      let response :=
        match report.reply with
        | .ok reply => replyResponse requestId reply
        | .error e => some (ApiError.relay (protocol == .messages) e).toResponse
      { response, caller := some caller, effects := report.effects }

/-- Handles a request. Unknown paths are not found; endpoints name the methods that they take. -/
def handle (s : Server) (r : Request) (fresh : Fresh) (freshId : String)
    (uptime activeStreams : Nat) (reader : Delivery.Session.Caller) : Handled :=
  match Endpoint.ofPath? (pathOf r.target) with
  | none => { response := some ⟨404, [], .empty⟩ }
  | some endpoint =>
    if !endpoint.methods.contains r.method then
      { response := some ⟨405, [("allow", ",".intercalate endpoint.methods)], .empty⟩ }
    else
      let body (response : Response) : Handled :=
        { response := some (if r.method = "HEAD" then response.bodiless else response) }
      match endpoint with
      | .health => body (s.health uptime activeStreams)
      | .models => body s.listModels
      | .relay protocol => s.relay protocol r fresh freshId reader

end Server

end ModelRelay.Http
