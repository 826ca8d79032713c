import ModelRelay.Chat.Tokens
import ModelRelay.Relay.Body
import ModelRelay.Relay.Plan

/-!
# Relayed calls

A call goes from a caller's body to an answer in steps: the request is read, settled and accepted,
a channel is found, the quota is asked, the provider is called, and what it took is recorded. The
first step that fails is the last one. A failure to record what a call took does not harm the
answer. A whole answer is billed before the caller has it; a stream is billed when it is over.
-/

set_option autoImplicit false

namespace ModelRelay

/-- Who calls, and how. -/
structure Caller where
  id : String
  label : String := id
  requestId : String := ""
  headers : Http.Headers := []
  protocol : Protocol
deriving Repr

/-- The parties that the relay depends on for channels, quota and billing. -/
structure Services where
  resolve : String → Caller → Except RelayError Channel
  reserve : Caller → UInt32 → Except RelayError Unit
  record : Caller → Route → Chat.Usage → Except RelayError Unit

namespace Services

/-- The channel that serves a model: the first that does. -/
def channelFor (channels : List Channel) (model : String) : Except RelayError Channel :=
  match channels.find? (·.supports model) with
  | some channel => .ok channel
  | none => .error (.unresolved (.noChannel model))

/-- Fixed channels, no quota, and no bill. -/
def ofChannels (channels : List Channel) : Services where
  resolve model _ := channelFor channels model
  reserve _ _ := .ok ()
  record _ _ _ := .ok ()

end Services

/-- How calls are made. Times are in nanoseconds. -/
structure Settings where
  connectTimeout : Nat := 10 * 1000000000
  requestTimeout : Nat := 300 * 1000000000
  streamWriteTimeout : Nat := 30 * 1000000000
  streamBuffer : Nat := 64
deriving DecidableEq, Repr

/-- All that calls are made with. -/
structure Dispatcher where
  services : Services
  regions : Vertex.Regions := Vertex.Regions.builtIn
  settings : Settings := {}
  /-- The way to the providers. -/
  send : Post → Exchange

/-- What a caller gets when nothing went wrong before the answer began. -/
inductive Reply where
  | whole (body : Json) (usage : Chat.Usage)
  | stream (frames : List Sse.Frame)
  /-- No answer: the provider refuses to stream, and the caller waits with the relay for the end of
  what it says to that. -/
  | waiting
deriving Repr

/-- What a call comes to before the caller is answered. -/
inductive Opening where
  /-- An answer that is whole, and billed. -/
  | whole (body : Json) (usage : Chat.Usage)
  /-- An answer to be streamed. -/
  | stream (route : Route) (answer : Provider.Answer)
  /-- A refusal to stream that does not end. -/
  | waiting

namespace Dispatcher

/-- The adaptor for a route, made ready. -/
def adaptor (d : Dispatcher) (route : Route) : Adaptor :=
  Adaptor.init ⟨route.channel.family, d.regions, false⟩

/-- The call that goes out for a request on its route. -/
def prepare (d : Dispatcher) (caller : Caller) (route : Route) (request : Chat.Request)
    (fresh : Fresh) : Except RelayError Post := do
  let adaptor := d.adaptor route
  let body ← adaptor.body route.protocol (some { request with model := route.actualModel })
  let url ← adaptor.url fresh.choice route
  let headers ← adaptor.headers caller.headers route
  let body ← adaptor.pinned route body.print
  return {
    url, headers, body
    timeout := if route.stream then none else some d.settings.requestTimeout }

/-- Records what a call took. Whether that works is not the caller's concern. -/
def bill (route : Route) (usage : Chat.Usage) : Plan Unit := do
  let _ ← Plan.ask (.record route usage)

/-- What is made of the provider's answer. A stream is no more than begun here: its frames are
forwarded, and what it took is recorded, while the caller reads it. Where the provider refuses a
stream and the end of what it says does not come, the caller is left waiting, because streamed calls
have no time limit. -/
def conclude (d : Dispatcher) (route : Route) (fresh : Fresh) (answer : Provider.Answer) :
    Calling Opening := do
  if route.stream then
    match answer.ensureSuccess (d.adaptor route).provider with
    | some result => return .stream route (← Calling.ofExcept result)
    | none => return .waiting
  else
    let outcome ← Calling.ofExcept ((d.adaptor route).understand route fresh answer)
    ExceptT.lift (bill route outcome.usage)
    match outcome.body with
    | some body => return .whole body outcome.usage
    | none => Calling.ofExcept (.error (.internal .noBody))

/-- The way of a request once its channel is found. -/
def routeOf (caller : Caller) (request : Chat.Request) (channel : Channel) : Route :=
  { channel, model := request.model, protocol := caller.protocol, stream := request.stream,
    promptTokens := Chat.Tokens.ofPrompt request }

/-- The steps of a call whose request is settled, up to where the caller is answered. -/
def begin (d : Dispatcher) (caller : Caller) (request : Chat.Request) (fresh : Fresh) :
    Calling Opening := do
  Calling.ofExcept request.accept
  let channel ← Calling.resolve request.model
  let route := routeOf caller request channel
  Calling.reserve route.promptTokens
  let post ← Calling.ofExcept (d.prepare caller route request fresh)
  let answer ← Calling.exchange (d.adaptor route).provider post
  d.conclude route fresh answer

/-- Where the frames of a stream go. -/
def sink (d : Dispatcher) (reader : Delivery.Session.Caller) : Sink :=
  { buffer := d.settings.streamBuffer, patience := d.settings.streamWriteTimeout / 1000000,
    caller := reader }

/-- What is left of a call that has its opening: a stream is carried to its end, and billed if it
ended well. -/
def deliver (d : Dispatcher) (fresh : Fresh) (reader : Delivery.Session.Caller) :
    Opening → Calling Reply
  | .whole body usage => return .whole body usage
  | .stream route answer =>
    match (d.adaptor route).respond route fresh (some (d.sink reader)) answer with
    | some (frames, result) => do
      if let .ok outcome := result then ExceptT.lift (bill route outcome.usage)
      return .stream frames
    | none => return .waiting
  | .waiting => return .waiting

/-- The steps of a call whose request is settled. -/
def dispatch (d : Dispatcher) (caller : Caller) (request : Chat.Request) (fresh : Fresh)
    (reader : Delivery.Session.Caller) : Calling Reply := do
  d.deliver fresh reader (← d.begin caller request fresh)

/-- All that a call did. -/
structure Report where
  stored : StoredBody
  /-- The stored body was replaced. -/
  replaced : Bool
  effects : List Effect
  reply : Except RelayError Reply

/-- What the parties that the relay depends on answer. -/
def answerOf (d : Dispatcher) (caller : Caller) : (effect : Effect) → effect.Answer
  | .resolve model => d.services.resolve model caller
  | .reserve tokens => d.services.reserve caller tokens
  | .post post => d.send post
  | .record route usage => d.services.record caller route usage

/-- Relays a call. -/
def relay (d : Dispatcher) (caller : Caller) (body : StoredBody) (fresh : Fresh)
    (reader : Delivery.Session.Caller) : Report :=
  match body.settle with
  | .error e => ⟨body, false, [], .error e⟩
  | .ok (request, replacement) =>
    let (reply, effects) := (d.dispatch caller request fresh reader).run.follow (d.answerOf caller)
    ⟨replacement.getD body, replacement.isSome, effects, reply⟩

end Dispatcher

end ModelRelay
