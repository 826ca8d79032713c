import ModelRelay.Claude.Conversion
import ModelRelay.Claude.Stream
import ModelRelay.Http.Headers
import ModelRelay.OpenAi.Answer
import ModelRelay.OpenAi.Conversion
import ModelRelay.Provider.Answer
import ModelRelay.Vertex.Endpoint

/-!
# Adaptors

An adaptor knows how one family of providers is called: the URL, the headers, the body, and how an
answer is understood. It has to be made ready before any of these.
-/

set_option autoImplicit false

namespace ModelRelay

/-- One call as it goes out to a provider. -/
structure Post where
  url : String
  headers : Http.Headers
  /-- A JSON text. -/
  body : String
  /-- The time that the call may take in all, in nanoseconds. A stream may take any time. -/
  timeout : Option Nat
deriving Repr

/-- What is made up anew for each call. -/
structure Fresh where
  /-- An id that no other call has. -/
  id : String
  /-- The time in seconds. -/
  now : Int
  /-- Which of several regions is taken. -/
  choice : Nat := 0
deriving Repr

/-- Where the frames of a stream go. -/
structure Sink where
  buffer : Nat := 64
  /-- The time in milliseconds that a frame may wait. -/
  patience : Nat := 30000
  caller : Delivery.Session.Caller := {}

structure Adaptor where
  family : Family
  regions : Vertex.Regions := Vertex.Regions.builtIn
  ready : Bool := false
deriving Repr

namespace Adaptor

/-- The adaptor made ready for calls. -/
def init (a : Adaptor) : Adaptor :=
  { a with ready := true }

/-- The name that failures of this family carry. -/
def provider (a : Adaptor) : String :=
  a.family.name

/-- Nothing is done by an adaptor that is not ready. -/
def ensureReady (a : Adaptor) : Except RelayError Unit :=
  if a.ready then .ok () else .error (.internal (.notReady a.provider))

/-! ## Calling -/

def url (a : Adaptor) (choice : Nat) (route : Route) : Except RelayError String := do
  a.ensureReady
  match a.family with
  | .openai => return route.baseUrl ++ "/v1/chat/completions"
  | .anthropic => return route.baseUrl ++ "/v1/messages"
  | .vertexClaude => Vertex.url a.regions choice route

/-- The version of the Messages protocol that is asked for when the caller asks for none. -/
def defaultVersion : String := "2023-06-01"

/-- The type of answer that a call asks for. -/
def accepted (stream : Bool) : String :=
  if stream then "text/event-stream" else "application/json"

/-- The headers that say who calls and in which version of the protocol. Of the caller's own
headers only the version is passed on. -/
def familyHeaders (family : Family) (inbound : Http.Headers) (apiKey : String) :
    List (String × String) :=
  match family with
  | .openai | .vertexClaude => [("authorization", "Bearer " ++ apiKey)]
  | .anthropic =>
    [("x-api-key", apiKey),
     ("anthropic-version", (inbound.nonempty? "anthropic-version").getD defaultVersion),
     ("anthropic-beta", "messages-2023-12-15")]

/-- Adds the headers of a call to others. A key that no header can hold ends this half way. -/
def addHeaders (a : Adaptor) (inbound : Http.Headers) (route : Route) (headers : Http.Headers) :
    Http.Headers × Except RelayError Unit :=
  match a.ensureReady with
  | .error e => (headers, .error e)
  | .ok () =>
    Http.Headers.setAll
      ([("content-type", "application/json"), ("accept", accepted route.stream)] ++
        familyHeaders a.family inbound route.channel.apiKey) headers

/-- The headers of a call. -/
def headers (a : Adaptor) (inbound : Http.Headers) (route : Route) :
    Except RelayError Http.Headers :=
  let (headers, result) := a.addHeaders inbound route []
  result.map fun _ => headers

/-- A body for a provider with regions names the version in place of the model, which the URL
names. -/
def forEndpoint : Json → Json
  | .object members =>
    .object (Json.insertSorted "anthropic_version" (.string Vertex.protocolVersion)
      (Json.eraseMember "model" members))
  | j => j

/-- The body of a call. -/
def body (a : Adaptor) (protocol : Protocol) (request : Option Chat.Request) :
    Except RelayError Json := do
  a.ensureReady
  let some request := request | throw (.invalid .absent)
  let claude := Claude.Request.ofChat request (Claude.isVisionModel request.model) protocol
  match a.family with
  | .openai => return OpenAi.convert request
  | .anthropic => return claude.toJson.canonical
  | .vertexClaude => return forEndpoint claude.toJson.canonical

/-- The text of a body with its model replaced. The text is read anew for that. -/
def withModel (model text : String) : Except RelayError String := do
  match ← (Decoder.ofText Decoder.json text).mapError fun m => .internal (.json m) with
  | .object members =>
    return (Json.object (Json.insertSorted "model" (.string model) members)).print
  | _ => throw (.internal .noObject)

/-- The text of a body as it is sent: a name that stands for a dated model gives way to it. -/
def pinned (a : Adaptor) (route : Route) (text : String) : Except RelayError String :=
  match a.family, Claude.pinnedModel? route.actualModel with
  | .anthropic, some model => withModel model text
  | _, _ => .ok text

/-! ## Understanding the answer -/

open Delivery

/-- The decoder of a family's streams. -/
def eventDecoder (a : Adaptor) (route : Route) (fresh : Fresh) : EventDecoder :=
  match a.family with
  | .openai => OpenAi.eventDecoder
  | .anthropic | .vertexClaude => Claude.eventDecoder a.provider route fresh.id fresh.now

/-- What a whole body comes to. -/
def outcomeOf (a : Adaptor) (route : Route) (fresh : Fresh) (body : Json) :
    Except RelayError Outcome :=
  match a.family with
  | .openai => OpenAi.outcomeOf route body
  | .anthropic | .vertexClaude => Claude.outcomeOf a.provider route fresh.now body

/-- The session that streams items to the caller of a route. -/
def session (d : EventDecoder) (route : Route) (sink : Sink) (items : List Item) : Session d :=
  .ofItems items route.isNative route.promptTokens sink.buffer sink.patience

/-- Streams an answer to a caller: the frames that the caller gets, and what the call comes to. -/
def stream (d : EventDecoder) (route : Route) (sink : Sink) (items : List Item) :
    List Sse.Frame × Except RelayError Outcome :=
  let s := (session d route sink items).run sink.caller
  (s.received, s.result)

/-- What an answer comes to that is waited for as a whole. -/
def understand (a : Adaptor) (route : Route) (fresh : Fresh) (answer : Provider.Answer) :
    Except RelayError Outcome :=
  (answer.readJson a.provider).bind (a.outcomeOf route fresh)

/-- What the relay makes of an answer: the frames that go to the caller, and what the call comes
to. Nothing comes of it as long as the refusal of a stream is waited for. -/
def respond (a : Adaptor) (route : Route) (fresh : Fresh) (sink : Option Sink)
    (answer : Provider.Answer) : Option (List Sse.Frame × Except RelayError Outcome) :=
  match a.ensureReady with
  | .error e => some ([], .error e)
  | .ok () =>
    if route.stream then
      match answer.ensureSuccess a.provider, sink with
      | none, _ => none
      | some (.error e), _ => some ([], .error e)
      | some (.ok _), none => some ([], .error (.internal .noSink))
      | some (.ok answer), some sink =>
        some (stream (a.eventDecoder route fresh) route sink answer.items)
    else some ([], a.understand route fresh answer)

/-! ## Models -/

/-- The models that a family is known to serve. -/
def models : Family → List String
  | .openai =>
    ["gpt-4o", "gpt-4o-mini", "gpt-4-turbo", "gpt-4", "gpt-3.5-turbo", "o1-preview",
     "o1-preview-2024-09-12", "o1-mini", "o1-mini-2024-09-12"]
  | .anthropic =>
    ["claude-instant-1.2", "claude-2.0", "claude-2.1", "claude-3-haiku-20240307",
     "claude-3-sonnet-20240229", "claude-3-opus", "claude-3-opus-20240229",
     "claude-3-5-sonnet-20240620", "claude-3-5-sonnet-20241022"]
  | .vertexClaude => (Json.sortMembers Vertex.Regions.builtIn).map Prod.fst

end Adaptor

end ModelRelay
