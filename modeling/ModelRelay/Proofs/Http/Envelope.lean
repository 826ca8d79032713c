import ModelRelay.Http.Server
import ModelRelay.Proofs.Delivery.Interleaving
import ModelRelay.Proofs.Relay.Reply

/-!
# The envelope of a failure

A failure is put into the envelope of a protocol in three places: where a request shows no key,
where a call fails before it is answered, and where a stream fails on the way. **The first two take
the envelope of the protocol that was addressed; the third does so as well, except for a stream in
the Messages protocol that a provider of another protocol serves** (`failures_are_enveloped`). That
one is told of its failure as callers of chat completions are.

The first two go by the path of the request, and the third by the route of the call. They differ
because the route asks whether the provider speaks the caller's protocol, and a path cannot. For
each way a call can be answered with a stream there is a route, and the protocol in it is the
caller's (`streams_of_reply`); what the last frame of the stream looks like is then a case analysis
over the protocol and the family of the provider (`tellsFailure_iff`).

What is in an envelope is left open here (`InEnvelope`); it is the failure's own matter.
-/

set_option autoImplicit false

namespace ModelRelay.Http

open Delivery Sse

/-! ## Envelopes

The envelope of the Messages protocol has a type of its own beside the error, and is sent as an
event of a name; that of chat completions has neither. -/

/-- A body is a failure in the envelope of a protocol. -/
inductive InEnvelope : Protocol → Json → Prop where
  | messages (details : List (String × Json)) :
      InEnvelope .messages (.object [("type", .string "error"), ("error", .object details)])
  | completions (details : List (String × Json)) :
      InEnvelope .completions (.object [("error", .object details)])

/-- A frame tells of a failure as a protocol has it. -/
inductive TellsFailure : Protocol → Frame → Prop where
  | messages {j : Json} (envelope : InEnvelope .messages j) :
      TellsFailure .messages (.event "error" j.print)
  | completions {j : Json} (envelope : InEnvelope .completions j) :
      TellsFailure .completions (.data j.print)

theorem inEnvelope_messages (e : RelayError) : InEnvelope .messages (e.envelope true) :=
  .messages _

theorem inEnvelope_completions (e : RelayError) : InEnvelope .completions (e.envelope false) :=
  .completions _

theorem inEnvelope_relay (protocol : Protocol) (e : RelayError) :
    InEnvelope protocol (ApiError.relay (protocol == .messages) e).body := by
  cases protocol with
  | messages => exact inEnvelope_messages e
  | completions => exact inEnvelope_completions e

theorem inEnvelope_unauthorized (protocol : Protocol) (message : String) :
    InEnvelope protocol (ApiError.unauthorized (protocol == .messages) message).body := by
  cases protocol with
  | messages => exact .messages _
  | completions => exact .completions _

/-- The path of an endpoint says which protocol it is of. -/
theorem isMessagesPath_of_endpoint {path : String} {protocol : Protocol}
    (h : Endpoint.ofPath? path = some (.relay protocol)) :
    isMessagesPath path = (protocol == .messages) := by
  rw [Endpoint.ofPath?.eq_def] at h
  split at h
  · exact absurd h (by simp)
  · exact absurd h (by simp)
  · rw [← Endpoint.relay.inj (Option.some.inj h)]
    decide
  · rw [← Endpoint.relay.inj (Option.some.inj h)]
    decide
  · exact absurd h (by simp)

/-- Where the caller's protocol is the provider's own, or no other is asked for, a failure is told
as the caller's protocol has it, and nowhere else. -/
theorem tellsFailure_iff (route : Route) (e : RelayError) :
    TellsFailure route.protocol (Frame.ofError route.isNative e)
      ↔ route.protocol = .completions ∨ route.channel.family.isClaude = true := by
  rw [Route.isNative]
  cases hprotocol : route.protocol with
  | completions => exact ⟨fun _ => .inl rfl, fun _ => .completions (inEnvelope_completions e)⟩
  | messages =>
    cases hclaude : route.channel.family.isClaude with
    | true => exact ⟨fun _ => .inr rfl, fun _ => .messages (inEnvelope_messages e)⟩
    | false =>
      constructor
      · intro h
        cases h
      · rintro (h | h) <;> exact absurd h (by simp)

/-! ## Streams

A stream is told by its frames. What they may be is said of any session; where the provider's
protocol is another, nothing but the last frame shows it. -/

/-- The frames of a stream are what the events of an answer mean, and then its end, as far as the
caller read them. -/
def Streams (d : Dispatcher) (route : Route) (fresh : Fresh) (frames : List Frame) : Prop :=
  ∃ (answer : Provider.Answer) (before after : List Item) (told : List Decoded)
    (state : ((d.adaptor route).eventDecoder route fresh).State) (last : List Frame),
    answer.items = before ++ after ∧
    ((d.adaptor route).eventDecoder route fresh).Hears
      ((d.adaptor route).eventDecoder route fresh).start before told state ∧
    ((d.adaptor route).eventDecoder route fresh).EndsWith route.isNative state after last ∧
    frames <+: told.flatMap (·.frames) ++ last

/-- Whatever a caller receives of a session is as said, for its script is made of the answer, and
what is received is the beginning of the script. -/
theorem streams_run (d : Dispatcher) (route : Route) (fresh : Fresh) (answer : Provider.Answer)
    (reader : Session.Caller) :
    Streams d route fresh ((d.session route fresh answer).run reader).received := by
  obtain ⟨before, after, told, state, last, hitems, hears, hends, hscript⟩ :=
    ((d.adaptor route).eventDecoder route fresh).exists_endsWith route.isNative _ answer.items
  refine ⟨answer, before, after, told, state, last, hitems, hears, hends, ?_⟩
  rw [← hscript]
  exact Session.received_run_prefix answer.items route.isNative route.promptTokens _ _ reader

/-- A stream that a call is answered with has the route of its request. -/
theorem streams_of_reply {d : Dispatcher} {caller : Caller} {body : StoredBody} {fresh : Fresh}
    {reader : Session.Caller} {frames : List Frame}
    (h : (d.relay caller body fresh reader).reply = .ok (.stream frames)) :
    ∃ route : Route, route.protocol = caller.protocol ∧
      d.services.resolve route.model caller = .ok route.channel ∧ Streams d route fresh frames := by
  cases hbody : body.settle with
  | error e =>
    rw [Dispatcher.relay_unreadable hbody] at h
    exact absurd h (by simp)
  | ok settled =>
    obtain ⟨request, replaced⟩ := settled
    have hrelayed : Dispatcher.Relayed d caller request fresh reader _ _ :=
      Dispatcher.relayed_of_settle hbody
    rw [h] at hrelayed
    generalize (d.relay caller body fresh reader).effects = effects at hrelayed
    cases hrelayed with
    | streamed posts sent stream success =>
      exact ⟨_, rfl, posts.admits.resolved, streams_run d _ fresh _ reader⟩

/-! ## Requests

From a request over HTTP to the reply of the dispatcher, and back to the response. -/

/-- The frames of a stream. -/
def Payload.frames? : Payload → Option (List Frame)
  | .frames all => some all
  | _ => none

/-- The caller of a request that shows a key. -/
def callerOf (r : Request) (protocol : Protocol) (freshId key : String) : Caller :=
  ⟨(CallerId.ofKey key).id, (CallerId.ofKey key).label, (requestId? r.headers).getD freshId,
    r.headers, protocol⟩

namespace Server

variable (s : Server) (r : Request) (fresh : Fresh) (freshId : String) (uptime activeStreams : Nat)
  (reader : Session.Caller)

theorem handle_relay {protocol : Protocol} (hmethod : r.method = "POST")
    (hpath : Endpoint.ofPath? (pathOf r.target) = some (.relay protocol)) :
    s.handle r fresh freshId uptime activeStreams reader
      = s.relay protocol r fresh freshId reader := by
  rw [handle, hpath]
  simp only [hmethod]
  rfl

/-- A request that shows a key is relayed for its caller, and answered by the reply. -/
theorem relay_of_key (protocol : Protocol) {key : String} (hkey : keyOf? r.headers = some key)
    (hsize : r.body.size ≤ maxBodySize) :
    let caller := callerOf r protocol freshId key
    (s.relay protocol r fresh freshId reader).caller = some caller ∧
      (∀ e, (s.dispatcher.relay caller ⟨r.body⟩ fresh reader).reply = .error e →
        (s.relay protocol r fresh freshId reader).response
          = some (ApiError.relay (protocol == .messages) e).toResponse) ∧
      ∀ reply, (s.dispatcher.relay caller ⟨r.body⟩ fresh reader).reply = .ok reply →
        (s.relay protocol r fresh freshId reader).response
          = replyResponse caller.requestId reply := by
  have hauth : authorize (pathOf r.target) r.headers = .ok (.ofKey key) := by
    rw [authorize, hkey]
  intro caller
  rw [relay, hauth]
  dsimp only
  rw [if_neg (Nat.not_lt_of_le hsize)]
  refine ⟨rfl, fun e he => ?_, fun reply hreply => ?_⟩
  · dsimp only [caller, callerOf] at he
    rw [he]
  · dsimp only [caller, callerOf] at hreply
    rw [hreply]
    rfl

/-- **The failures that a request of a protocol is answered with are in the envelope of that
protocol**: that it shows no key, that its call failed before it was answered, and that its stream
failed on the way, of which the last frame tells. That frame alone goes by the protocol of the
provider as well, and is as the caller's protocol has it if and only if the caller asked for chat
completions or the provider speaks the Messages protocol.

One refusal is left out: a body over the limit is turned away with a line of plain text before the
relay has looked at it, and that line is in nobody's envelope. Hence the bound on the size of the
body for all that comes behind the key. -/
theorem failures_are_enveloped {protocol : Protocol} (hmethod : r.method = "POST")
    (hpath : Endpoint.ofPath? (pathOf r.target) = some (.relay protocol)) :
    let h := s.handle r fresh freshId uptime activeStreams reader
    (keyOf? r.headers = none → ∃ j, h.response = some (.ofJson 401 j) ∧ InEnvelope protocol j) ∧
    ∀ key, keyOf? r.headers = some key → r.body.size ≤ maxBodySize →
      let caller := callerOf r protocol freshId key
      h.caller = some caller ∧
        (∀ e, (s.dispatcher.relay caller ⟨r.body⟩ fresh reader).reply = .error e →
          ∃ j, h.response = some (.ofJson e.status j) ∧ InEnvelope protocol j) ∧
        ∀ frames, (s.dispatcher.relay caller ⟨r.body⟩ fresh reader).reply = .ok (.stream frames) →
          (∃ response, h.response = some response ∧ response.payload = .frames frames) ∧
          ∃ route : Route, route.protocol = protocol ∧
            s.dispatcher.services.resolve route.model caller = .ok route.channel ∧
            Streams s.dispatcher route fresh frames ∧
            ∀ fault, TellsFailure protocol (Frame.ofError route.isNative fault)
              ↔ protocol = .completions ∨ route.channel.family.isClaude = true := by
  intro h
  have hrelay : h = s.relay protocol r fresh freshId reader :=
    s.handle_relay r fresh freshId uptime activeStreams reader hmethod hpath
  rw [hrelay]
  refine ⟨fun hkey => ?_, fun key hkey hsize => ?_⟩
  · have hauth : authorize (pathOf r.target) r.headers
        = .error (.unauthorized (protocol == .messages) missingKey) := by
      rw [authorize, hkey, isMessagesPath_of_endpoint hpath]
    refine ⟨_, ?_, inEnvelope_unauthorized protocol missingKey⟩
    rw [relay, hauth]
    rfl
  · intro caller
    obtain ⟨hcaller, hfailed, hanswered⟩ :=
      s.relay_of_key r fresh freshId reader protocol hkey hsize
    refine ⟨hcaller, fun e he => ?_, fun frames hframes => ?_⟩
    · exact ⟨_, hfailed e he, inEnvelope_relay protocol e⟩
    · obtain ⟨route, hroute, hchannel, hstreams⟩ := streams_of_reply hframes
      replace hroute : route.protocol = protocol := hroute
      refine ⟨⟨_, hanswered _ hframes, rfl⟩, route, hroute, hchannel, hstreams, fun fault => ?_⟩
      rw [← hroute]
      exact tellsFailure_iff route fault

/-- A request in the Messages protocol that shows no key, and one whose provider refuses it. -/
theorem refusals_are_enveloped :
    let s : Server :=
      { dispatcher := .withExchange .anthropic (.answered { status := 503, body := "busy".toUTF8 }),
        models := [] }
    let body := "\x7b\"model\": \"small\", \"messages\": [\x7b\"role\": \"user\"\x7d]\x7d".toUTF8
    let keyless : Request := { target := "/v1/messages", headers := [], body }
    let r : Request :=
      { target := "/v1/messages", headers := [("x-api-key", "key".toUTF8.data.toList)], body }
    (∃ j, (s.handle keyless ⟨"1", 0, 0⟩ "id" 0 0 {}).response = some (.ofJson 401 j) ∧
      InEnvelope .messages j) ∧
    ∃ j, (s.handle r ⟨"1", 0, 0⟩ "id" 0 0 {}).response = some (.ofJson 503 j) ∧
      InEnvelope .messages j := by
  intro s body keyless r
  have hpath : Endpoint.ofPath? (pathOf "/v1/messages") = some (.relay .messages) := by
    decide +kernel
  have hkey : keyOf? r.headers = some "key" := by decide +kernel
  have hreply : failureOf? (s.dispatcher.relay (callerOf r .messages "id" "key") ⟨r.body⟩
      ⟨"1", 0, 0⟩ {}).reply = some (.refused "anthropic" 503 "busy" none) := by
    decide +kernel
  obtain ⟨hkeyless, -⟩ :=
    s.failures_are_enveloped keyless ⟨"1", 0, 0⟩ "id" 0 0 {} rfl hpath
  obtain ⟨-, hrefused⟩ :=
    s.failures_are_enveloped r ⟨"1", 0, 0⟩ "id" 0 0 {} rfl hpath
  obtain ⟨-, hfailed, -⟩ := hrefused "key" hkey (by decide +kernel)
  exact ⟨hkeyless (by decide +kernel), hfailed _ (of_failureOf? hreply)⟩

/-- A stream in the Messages protocol that a provider of chat completions serves can end with a
frame that is in neither form of that protocol: it is no event, and its body has no type. -/
theorem served_stream_is_told_otherwise :
    let s : Server :=
      { dispatcher := .withExchange .openai (.answered { body := "".toUTF8 }), models := [] }
    let r : Request :=
      { target := "/v1/messages", headers := [("x-api-key", "key".toUTF8.data.toList)]
        body := ("\x7b\"model\": \"small\", \"messages\": [\x7b\"role\": \"user\"\x7d], " ++
          "\"stream\": true\x7d").toUTF8 }
    let frame : Frame := .data <| "\x7b\"error\":\x7b\"message\":\"Stream error: openai stream " ++
      "ended without a completion signal\",\"type\":\"stream_error\"\x7d\x7d"
    ((s.handle r ⟨"1", 0, 0⟩ "id" 0 0 {}).response.bind (·.payload.frames?)) = some [frame] ∧
      ¬ TellsFailure .messages frame := by
  intro s r frame
  refine ⟨by decide +kernel, fun h => ?_⟩
  have hdata : TellsFailure .messages (.data _) := h
  cases hdata

end Server

end ModelRelay.Http
