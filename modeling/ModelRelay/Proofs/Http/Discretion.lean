import ModelRelay.Proofs.Delivery.Alike
import ModelRelay.Proofs.Http.Envelope
import ModelRelay.Proofs.Relay.Blame

/-!
# What is kept from callers

Of an answer that could not be decoded, and of a failure of the relay itself, a caller is told that
it happened and no more. The wording of the first quotes what the provider sent, so this is a matter
of discretion: **two calls that fail so are answered with the same bytes, whatever the two providers
sent** (`hidden_failures_look_alike`), be it in place of an answer or in the middle of a stream.

The statement compares two runs. They share the server, the request and everything that is made up
on the way, and differ in what the providers send; so whatever a response could give away of a
hidden failure would show as a difference. Up to the call the providers have no part in what
happens, and behind it only the failure is left of what they sent.

What is told names the provider, and that is why it is not enough that both failures are hidden:
both calls also have to have gone to the same one (`Names`). In a stream the frames before the
failure are told too, and two streams can only look alike if these are the same; they need not agree
in anything that comes behind (`BreakAlike`).

What is written to the log is another matter. There the details are told.
-/

set_option autoImplicit false

namespace ModelRelay

open Delivery Sse

/-! ## Failures whose details are kept back

Two kinds of failures have details that are not told. Their status and their wording depend on the
kind and, for one of them, on the provider. -/

namespace RelayError

/-- Two failures of a kind of which no details are told. -/
inductive BothHidden : RelayError → RelayError → Prop where
  | undecodable (provider₁ provider₂ : String) (fault₁ fault₂ : DecodeFault) :
      BothHidden (.undecodable provider₁ fault₁) (.undecodable provider₂ fault₂)
  | internal (fault₁ fault₂ : InternalFault) : BothHidden (.internal fault₁) (.internal fault₂)

/-- A failure names no other provider as one that was not understood. -/
def Names (provider : String) (e : RelayError) : Prop :=
  ∀ name fault, e = .undecodable name fault → name = provider

theorem follows_names (provider : String) : Follows provider (Names provider) where
  refused _ _ _ _ _ h := nomatch h
  unreachable _ _ _ h := nomatch h
  undecodable _ _ _ h := (RelayError.undecodable.inj h).1.symm
  stream _ _ _ h := nomatch h
  cancelled _ _ _ h := nomatch h
  internal _ _ _ h := nomatch h

/-- Two failures that are told in the same words. -/
structure ToldAlike (e₁ e₂ : RelayError) : Prop where
  status : e₁.status = e₂.status
  envelope : ∀ native, e₁.envelope native = e₂.envelope native

variable {e₁ e₂ : RelayError} {provider : String}

theorem ToldAlike.refl (e : RelayError) : ToldAlike e e :=
  ⟨rfl, fun _ => rfl⟩

theorem toldAlike_internal (fault₁ fault₂ : InternalFault) :
    ToldAlike (.internal fault₁) (.internal fault₂) :=
  ⟨rfl, fun native => by cases native <;> rfl⟩

/-- **The details of a hidden failure are in none of what a caller is told.** -/
theorem BothHidden.toldAlike (h : BothHidden e₁ e₂) (names₁ : e₁.Names provider)
    (names₂ : e₂.Names provider) : ToldAlike e₁ e₂ := by
  cases h with
  | undecodable name₁ name₂ fault₁ fault₂ =>
    obtain rfl := names₁ _ _ rfl
    obtain rfl := names₂ _ _ rfl
    exact ⟨rfl, fun native => by cases native <;> rfl⟩
  | internal => exact toldAlike_internal _ _

theorem ToldAlike.toResponse (h : ToldAlike e₁ e₂) (native : Bool) :
    (Http.ApiError.relay native e₁).toResponse = (Http.ApiError.relay native e₂).toResponse := by
  rw [Http.ApiError.toResponse, Http.ApiError.toResponse, Http.ApiError.status,
    Http.ApiError.status, Http.ApiError.body, Http.ApiError.body, h.status, h.envelope]

theorem ToldAlike.ofError (h : ToldAlike e₁ e₂) (native : Bool) :
    Frame.ofError native e₁ = Frame.ofError native e₂ := by
  rw [Frame.ofError, Frame.ofError, h.envelope]

end RelayError

open RelayError (BothHidden Names ToldAlike follows_names)

/-! ## Streams that break off

The two streams are the same up to one item. There the decoder has come to the same state on both
sides, and fails on both. -/

/-- The items of two providers are the same up to one item each, and there both fail, in failures
of which no details are told. Nothing is said of what comes behind. -/
def Delivery.EventDecoder.BreakAlike (d : EventDecoder) (items₁ items₂ : List Item) : Prop :=
  ∃ before item₁ item₂ after₁ after₂,
    items₁ = before ++ item₁ :: after₁ ∧ items₂ = before ++ item₂ :: after₂ ∧
    ∀ told state, d.Hears d.start before told state →
      ∃ e₁ e₂, d.failure? state item₁ = some e₁ ∧ d.failure? state item₂ = some e₂ ∧
        BothHidden e₁ e₂

theorem Delivery.EventDecoder.BreakAlike.alike {d : EventDecoder} {provider : String}
    {items₁ items₂ : List Item} (hd : d.FailsBy (Names provider)) (h : d.BreakAlike items₁ items₂)
    (native : Bool) : d.Alike native d.start items₁ items₂ := by
  obtain ⟨before, item₁, item₂, after₁, after₂, rfl, rfl, hbreak⟩ := h
  refine alike_of_agree fun told state hears => ?_
  obtain ⟨e₁, e₂, hfailure₁, hfailure₂, hidden⟩ := hbreak told state hears
  have htold : ToldAlike e₁ e₂ :=
    hidden.toldAlike (hd.of_failure? hfailure₁) (hd.of_failure? hfailure₂)
  exact .fail hfailure₁ hfailure₂ (htold.ofError native)

/-- Which events of a stream of chat completions fail does not depend on those before. -/
theorem OpenAi.failure?_of_decodeEvent {event : Event} {e : RelayError}
    (h : decodeEvent event = .error e) (s : eventDecoder.State) :
    eventDecoder.failure? s (.event event) = some e := by
  have hdecode : eventDecoder.decode s event = .error e := by
    show (decodeEvent event).map _ = _
    rw [h]
    rfl
  rw [EventDecoder.failure?, hdecode]

/-! ## Calls

The two runs do the same things until the post goes out. What is made of its answer depends on the
channel, which is the same too. -/

namespace Dispatcher

variable {d : Dispatcher} {caller : Caller} {request : Chat.Request} {fresh : Fresh}
  {reader : Session.Caller} {send₁ send₂ : Post → Exchange}

/-- A call goes out once, and what goes out is settled by the request. -/
theorem Posts.unique {channel₁ channel₂ : Channel} {post₁ post₂ : Post}
    (h₁ : Posts d caller request fresh channel₁ post₁)
    (h₂ : Posts d caller request fresh channel₂ post₂) : channel₁ = channel₂ ∧ post₁ = post₂ := by
  obtain rfl := Except.ok.inj (h₁.admits.resolved.symm.trans h₂.admits.resolved)
  exact ⟨rfl, Except.ok.inj (h₁.prepared.symm.trans h₂.prepared)⟩

/-- Which call goes out does not depend on where it goes. -/
theorem Posts.withSend {channel : Channel} {post : Post}
    (h : Posts d caller request fresh channel post) (send : Post → Exchange) :
    Posts { d with send } caller request fresh channel post :=
  ⟨⟨h.admits.valid, h.admits.resolved, h.admits.reserved⟩, h.prepared⟩

/-- **Two calls that differ in what their provider sent, and of whose failures no details are told,
are told alike.** -/
theorem toldAlike_of_relay {body : StoredBody} {e₁ e₂ : RelayError}
    (h₁ : ({ d with send := send₁ }.relay caller body fresh reader).reply = .error e₁)
    (h₂ : ({ d with send := send₂ }.relay caller body fresh reader).reply = .error e₂)
    (hidden : BothHidden e₁ e₂) : ToldAlike e₁ e₂ := by
  cases hsettled : body.settle with
  | error e =>
    rw [relay_unreadable hsettled] at h₁ h₂
    obtain rfl := Except.error.inj h₁
    obtain rfl := Except.error.inj h₂
    exact .refl e
  | ok settled =>
  obtain ⟨request, replaced⟩ := settled
  have hrelayed₁ : Relayed { d with send := send₁ } caller request fresh reader _ _ :=
    relayed_of_settle hsettled
  have hrelayed₂ : Relayed { d with send := send₂ } caller request fresh reader _ _ :=
    relayed_of_settle hsettled
  rw [h₁] at hrelayed₁
  rw [h₂] at hrelayed₂
  -- Up to the call the provider has no part in what happens.
  have hsame : { d with send := send₁ }.outgoing caller request fresh
      = { d with send := send₂ }.outgoing caller request fresh := rfl
  obtain hout₁ | ⟨channel₁, post₁, hposts₁, hfollows₁⟩ := hrelayed₁.stopped_or_follows <;>
    obtain hout₂ | ⟨channel₂, post₂, hposts₂, hfollows₂⟩ := hrelayed₂.stopped_or_follows
  · -- Both calls end before they go out, in the same way; one cannot end where the other goes out;
    -- or both go out, to the same channel.
    obtain rfl := Except.error.inj (hout₁.symm.trans (hsame.trans hout₂))
    exact .refl e₁
  · exact absurd (hout₁.symm.trans (hsame.trans hposts₂.outgoing)) (by simp)
  · exact absurd (hposts₁.outgoing.symm.trans (hsame.trans hout₂)) (by simp)
  · obtain rfl := Except.ok.inj (hposts₁.admits.resolved.symm.trans hposts₂.admits.resolved)
    exact hidden.toldAlike (hfollows₁ _ (follows_names _)) (hfollows₂ _ (follows_names _))

/-- A call whose provider takes it is answered with the frames of its session. -/
theorem reply_of_stream (reader : Session.Caller) {body : StoredBody}
    {replaced : Option StoredBody} {channel : Channel} {post : Post} {answer : Provider.Answer}
    (hsettled : body.settle = .ok (request, replaced)) (hstream : request.stream = true)
    (hposts : Posts d caller request fresh channel post) (hsent : d.send post = .answered answer)
    (hsuccess : answer.isSuccess = true) :
    (d.relay caller body fresh reader).reply = .ok (.stream
      ((d.session (routeOf caller request channel) fresh answer).run reader).received) := by
  have hrelayed : Relayed d caller request fresh reader _ _ := relayed_of_settle hsettled
  generalize (d.relay caller body fresh reader).effects = effects at hrelayed
  generalize (d.relay caller body fresh reader).reply = reply at hrelayed ⊢
  -- The call went out and was answered well, so all ways but one contradict what is known of it.
  cases hrelayed with
  | invalid invalid => exact absurd (invalid.symm.trans hposts.admits.valid) (by simp)
  | unresolved _ unresolved =>
    exact absurd (unresolved.symm.trans hposts.admits.resolved) (by simp)
  | denied _ _ denied => exact absurd (denied.symm.trans hposts.admits.reserved) (by simp)
  | unprepared admits unprepared =>
    obtain rfl := Except.ok.inj (admits.resolved.symm.trans hposts.admits.resolved)
    exact absurd (unprepared.symm.trans hposts.prepared) (by simp)
  | unanswered posts unanswered =>
    obtain ⟨rfl, rfl⟩ := posts.unique hposts
    exact absurd unanswered (by simp [hsent, Exchange.answer])
  | rejected posts sent _ rejected =>
    obtain ⟨rfl, rfl⟩ := posts.unique hposts
    obtain rfl := Exchange.answered.inj (hsent.symm.trans sent)
    exact absurd rejected (by simp [Provider.Answer.ensureSuccess, hsuccess])
  | waiting posts sent _ endless =>
    obtain ⟨rfl, rfl⟩ := posts.unique hposts
    obtain rfl := Exchange.answered.inj (hsent.symm.trans sent)
    exact absurd endless (by simp [Provider.Answer.ensureSuccess, hsuccess])
  | misunderstood _ _ whole | whole _ _ whole => exact absurd (hstream.symm.trans whole) (by simp)
  | streamed posts sent =>
    obtain ⟨rfl, rfl⟩ := posts.unique hposts
    obtain rfl := Exchange.answered.inj (hsent.symm.trans sent)
    rfl

/-- The decoder of a call's stream names its own provider. -/
theorem failsBy_names (d : Dispatcher) (route : Route) (fresh : Fresh) :
    ((d.adaptor route).eventDecoder route fresh).FailsBy (Names (d.adaptor route).provider) :=
  (d.adaptor route).failsBy_eventDecoder (follows_names _) route fresh

/-- **Two streams that break off alike show a caller the same frames**, in every order of moves and
for every caller. -/
theorem received_of_breakAlike (reader : Session.Caller) {route : Route}
    {answer₁ answer₂ : Provider.Answer}
    (h : ((d.adaptor route).eventDecoder route fresh).BreakAlike answer₁.items answer₂.items) :
    (∀ moves, ((d.session route fresh answer₁).play moves).map (·.received)
        = ((d.session route fresh answer₂).play moves).map (·.received)) ∧
      ((d.session route fresh answer₁).run reader).received
        = ((d.session route fresh answer₂).run reader).received := by
  have halike := h.alike (failsBy_names d route fresh) route.isNative
  have hstart : Session.Alike route.isNative (d.session route fresh answer₁)
      (d.session route fresh answer₂) :=
    ⟨rfl, rfl, .reading rfl rfl rfl halike⟩
  refine ⟨fun moves => ?_, Session.received_run_alike halike route.promptTokens _ _ reader⟩
  have hplay := Session.alike_play hstart moves
  generalize (d.session route fresh answer₁).play moves = after₁ at hplay ⊢
  generalize (d.session route fresh answer₂).play moves = after₂ at hplay ⊢
  cases hplay with
  | none => rfl
  | some h => exact congrArg some h.received

end Dispatcher

/-! ## Requests

The response is a function of the reply, so that what holds of replies holds of what is sent over
HTTP. -/

namespace Http.Server

open Dispatcher (Posts routeOf)

/-- The server with another way to the providers. -/
def withSend (s : Server) (send : Post → Exchange) : Server :=
  { s with dispatcher := { s.dispatcher with send } }

/-- **What a provider sent that could not be decoded is not told.** Two runs of one request, with
the same made up values, differ in what the providers answer. If both calls fail, and both failures
are of one kind of which no details are told, then the answers are the same: their status, their
headers and their body. If both calls are answered with a stream, and the streams agree up to one
item each that cannot be decoded, then the answers are the same, with all their frames, and so is
what the caller has received after any moves. One failure of the relay itself can stand for any
other, in an answer and in a stream.

The details of such a failure are in its constructor and are not looked at by what writes it. For
streams the two sessions are kept alike move by move, up to the failure and behind it. -/
theorem hidden_failures_look_alike (s : Server) (r : Request) (fresh : Fresh) (freshId : String)
    (uptime activeStreams : Nat) (reader : Session.Caller) {protocol : Protocol} {key : String}
    (hmethod : r.method = "POST")
    (hpath : Endpoint.ofPath? (pathOf r.target) = some (.relay protocol))
    (hkey : keyOf? r.headers = some key) (hsize : r.body.size ≤ maxBodySize)
    (send₁ send₂ : Post → Exchange) :
    let caller := callerOf r protocol freshId key
    let s₁ := s.withSend send₁
    let s₂ := s.withSend send₂
    let response₁ := (s₁.handle r fresh freshId uptime activeStreams reader).response
    let response₂ := (s₂.handle r fresh freshId uptime activeStreams reader).response
    (∀ e₁ e₂, (s₁.dispatcher.relay caller ⟨r.body⟩ fresh reader).reply = .error e₁ →
        (s₂.dispatcher.relay caller ⟨r.body⟩ fresh reader).reply = .error e₂ →
        BothHidden e₁ e₂ → response₁ = response₂) ∧
      (∀ request replaced channel post answer₁ answer₂,
        StoredBody.settle ⟨r.body⟩ = .ok (request, replaced) → request.stream = true →
        Posts s.dispatcher caller request fresh channel post →
        send₁ post = .answered answer₁ → send₂ post = .answered answer₂ →
        answer₁.isSuccess = true → answer₂.isSuccess = true →
        let route := routeOf caller request channel
        ((s.dispatcher.adaptor route).eventDecoder route fresh).BreakAlike
          answer₁.items answer₂.items →
        response₁ = response₂ ∧
          (∃ response frames, response₁ = some response ∧ response.payload = .frames frames) ∧
          ∀ moves, ((s.dispatcher.session route fresh answer₁).play moves).map (·.received)
            = ((s.dispatcher.session route fresh answer₂).play moves).map (·.received)) ∧
      ∀ fault₁ fault₂ native,
        (ApiError.relay native (.internal fault₁)).toResponse
            = (ApiError.relay native (.internal fault₂)).toResponse ∧
          Frame.ofError native (.internal fault₁) = Frame.ofError native (.internal fault₂) := by
  intro caller s₁ s₂ response₁ response₂
  -- Both requests are relayed, so what is told apart or not is the reply to the call.
  have hrelay₁ : response₁ = (s₁.relay protocol r fresh freshId reader).response :=
    congrArg (·.response)
      (s₁.handle_relay r fresh freshId uptime activeStreams reader hmethod hpath)
  have hrelay₂ : response₂ = (s₂.relay protocol r fresh freshId reader).response :=
    congrArg (·.response)
      (s₂.handle_relay r fresh freshId uptime activeStreams reader hmethod hpath)
  obtain ⟨-, hfailed₁, hanswered₁⟩ := s₁.relay_of_key r fresh freshId reader protocol hkey hsize
  obtain ⟨-, hfailed₂, hanswered₂⟩ := s₂.relay_of_key r fresh freshId reader protocol hkey hsize
  refine ⟨fun e₁ e₂ h₁ h₂ hidden => ?_, ?_, fun fault₁ fault₂ native => ?_⟩
  · have htold : ToldAlike e₁ e₂ := Dispatcher.toldAlike_of_relay h₁ h₂ hidden
    rw [hrelay₁, hrelay₂, hfailed₁ e₁ h₁, hfailed₂ e₂ h₂, htold.toResponse]
  · intro request replaced channel post answer₁ answer₂ hsettled hstream hposts hsent₁ hsent₂
      hsuccess₁ hsuccess₂ route hbreak
    obtain ⟨hmoves, hrun⟩ := Dispatcher.received_of_breakAlike reader hbreak
    have hreply₁ := Dispatcher.reply_of_stream reader hsettled hstream (hposts.withSend send₁)
      hsent₁ hsuccess₁
    have hreply₂ := Dispatcher.reply_of_stream reader hsettled hstream (hposts.withSend send₂)
      hsent₂ hsuccess₂
    have hresponse₁ := hrelay₁.trans (hanswered₁ _ hreply₁)
    have hresponse₂ := hrelay₂.trans (hanswered₂ _ hreply₂)
    refine ⟨?_, ⟨_, _, hresponse₁, rfl⟩, hmoves⟩
    rw [hresponse₁, hresponse₂]
    exact congrArg (fun frames => replyResponse caller.requestId (.stream frames)) hrun
  · have htold := RelayError.toldAlike_internal fault₁ fault₂
    exact ⟨htold.toResponse native, htold.ofError native⟩

/-- An answer that is no JSON and one of the wrong shape, in place of a completion and as the second
event of a stream. -/
theorem unreadable_answers_look_alike :
    let s : Server := { dispatcher := .withExchange .openai (.failed "refused"), models := [] }
    let answer (body : String) : Provider.Answer := { body := body.toUTF8 }
    let request (stream : String) : Request :=
      { target := "/v1/messages", headers := [("x-api-key", "key".toUTF8.data.toList)]
        body := ("\x7b\"model\": \"small\", \"messages\": [\x7b\"role\": \"user\"\x7d], " ++
          "\"stream\": " ++ stream ++ "\x7d").toUTF8 }
    let response (stream body : String) : Option Response :=
      ((s.withSend fun _ => .answered (answer body)).handle (request stream) ⟨"1", 0, 0⟩ "id" 0 0
        {}).response
    let event (data : String) : String :=
      "data: \x7b\"choices\": []\x7d\n\ndata: " ++ data ++ "\n\n"
    response "false" "<secret>" = response "false" "\x7b\"choices\": \"secret\"\x7d" ∧
      response "true" (event "<secret>")
        = response "true" (event "\x7b\"choices\": \"secret\"\x7d") := by
  intro s answer request response event
  have hkey : keyOf? [("x-api-key", "key".toUTF8.data.toList)] = some "key" := by decide +kernel
  have hpath : Endpoint.ofPath? (pathOf "/v1/messages") = some (.relay .messages) := by
    decide +kernel
  have hlook (stream body₁ body₂ : String) (hsize : (request stream).body.size ≤ maxBodySize) :=
    s.hidden_failures_look_alike (request stream) ⟨"1", 0, 0⟩ "id" 0 0 {} rfl hpath hkey
      hsize (fun _ => .answered (answer body₁)) fun _ => .answered (answer body₂)
  constructor
  · have hreply₁ : failureOf? ((s.withSend fun _ => .answered (answer "<secret>")).dispatcher.relay
        (callerOf (request "false") .messages "id" "key") ⟨(request "false").body⟩ ⟨"1", 0, 0⟩
        {}).reply = some (.undecodable "openai" (.body .notJson)) := by
      decide +kernel
    have hreply₂ : failureOf? ((s.withSend fun _ => .answered
        (answer "\x7b\"choices\": \"secret\"\x7d")).dispatcher.relay
        (callerOf (request "false") .messages "id" "key") ⟨(request "false").body⟩ ⟨"1", 0, 0⟩
        {}).reply = some (.undecodable "openai" (.completion .kind)) := by
      decide +kernel
    obtain ⟨hfailed, -, -⟩ :=
      hlook "false" "<secret>" "\x7b\"choices\": \"secret\"\x7d" (by decide +kernel)
    exact hfailed _ _ (of_failureOf? hreply₁) (of_failureOf? hreply₂) (.undecodable _ _ _ _)
  · obtain ⟨-, hstreams, -⟩ := hlook "true" (event "<secret>")
      (event "\x7b\"choices\": \"secret\"\x7d") (by decide +kernel)
    -- The request asks for a stream, and its call goes out.
    have hasked : (StoredBody.settle ⟨(request "true").body⟩).toOption.map (·.1.stream)
        = some true := by
      decide +kernel
    obtain ⟨⟨settled, replaced⟩, hsettled, hstream⟩ := Option.map_eq_some_iff.mp hasked
    have hposted : ((s.dispatcher.relay (callerOf (request "true") .messages "id" "key")
        ⟨(request "true").body⟩ ⟨"1", 0, 0⟩ {}).effects.findSome? Effect.post?).isSome = true := by
      decide +kernel
    obtain ⟨post, hpost⟩ := Option.isSome_iff_exists.mp hposted
    obtain ⟨channel, hposts⟩ :=
      (Dispatcher.relayed_of_settle (ok_of_toOption hsettled)).posts_of_mem (mem_of_post? hpost)
    obtain rfl : channel = _ := by
      simpa using Services.mem_of_channelFor hposts.admits.resolved
    have hfailure₁ : failureOf? (OpenAi.decodeEvent ⟨"message", "<secret>"⟩)
        = some (.undecodable "openai" (.chunkText .notJson)) := by
      decide +kernel
    have hfailure₂ : failureOf? (OpenAi.decodeEvent
        ⟨"message", "\x7b\"choices\": \"secret\"\x7d"⟩)
          = some (.undecodable "openai" (.chunk .kind)) := by
      decide +kernel
    have hitems₁ : (answer (event "<secret>")).items
        = [.event ⟨"message", "\x7b\"choices\": []\x7d"⟩, .event ⟨"message", "<secret>"⟩,
            .finished] := by
      decide +kernel
    have hitems₂ : (answer (event "\x7b\"choices\": \"secret\"\x7d")).items
        = [.event ⟨"message", "\x7b\"choices\": []\x7d"⟩,
            .event ⟨"message", "\x7b\"choices\": \"secret\"\x7d"⟩, .finished] := by
      decide +kernel
    exact (hstreams _ _ _ _ _ _ (ok_of_toOption hsettled) hstream hposts rfl rfl rfl rfl
      ⟨[_], _, _, _, _, hitems₁, hitems₂, fun _ state _ => ⟨_, _,
        OpenAi.failure?_of_decodeEvent (of_failureOf? hfailure₁) state,
        OpenAi.failure?_of_decodeEvent (of_failureOf? hfailure₂) state,
        .undecodable _ _ _ _⟩⟩).1

end Http.Server

end ModelRelay
