import ModelRelay.Proofs.Relay.Alone

/-!
# What a relayed call comes to

`relay` asks its parties one after the other and takes what they answer. `Relayed` lists the ways
this can go, each with the steps that were taken and the reply: the ways to fail, an answer that was
passed on whole, a stream, and a refusal that the caller waits for in vain. **There is no other
way** (`relayed`): the plan of a call is followed from its first step, and at each step its party
either fails, which ends the call, or lets it go on. What else is known of a reply is read off one
of these ways.

The list is the only place where the plan of a call is unfolded for a call alone. It records all
that is known at the end: the channel that was found, the call that was made, what was answered to
it, and which of the conditions along the way were met. Later modules take cases on it and never
look at the plan.

For a call among others `Relay.Course` does the same, with the answers to each step in a log.
-/

set_option autoImplicit false

namespace ModelRelay

open Delivery

/-- The call that a step makes. -/
def Effect.post? : Effect → Option Post
  | post call => some call
  | _ => none

theorem mem_of_post? {effects : List Effect} {post : Post}
    (h : effects.findSome? Effect.post? = some post) : .post post ∈ effects := by
  obtain ⟨effect, hmem, hpost⟩ := List.exists_of_findSome?_eq_some h
  cases effect with
  | post call => exact Option.some.inj hpost ▸ hmem
  | _ => exact absurd hpost (by simp [Effect.post?])

theorem Services.mem_of_channelFor {channels : List Channel} {model : String} {channel : Channel}
    (h : channelFor channels model = .ok channel) : channel ∈ channels := by
  rw [channelFor] at h
  split at h
  · next found hfound => exact Except.ok.inj h ▸ List.mem_of_find?_eq_some hfound
  · exact absurd h (by simp)

namespace Dispatcher

variable (d : Dispatcher) (caller : Caller) (request : Chat.Request) (fresh : Fresh)

/-- A request is accepted, has a channel, and is within the quota of its caller. -/
structure Admits (channel : Channel) : Prop where
  valid : request.accept = .ok ()
  resolved : d.services.resolve request.model caller = .ok channel
  reserved : d.services.reserve caller (Chat.Tokens.ofPrompt request) = .ok ()

/-- An admitted request goes out to its provider as a call. -/
structure Posts (channel : Channel) (post : Post) : Prop where
  admits : Admits d caller request channel
  prepared : d.prepare caller (routeOf caller request channel) request fresh = .ok post

variable {d caller request fresh} in
/-- What a call is put together from. -/
theorem Posts.parts {channel : Channel} {post : Post}
    (h : Posts d caller request fresh channel post) :
    let route := routeOf caller request channel
    ∃ plain,
      (d.adaptor route).body route.protocol (some { request with model := route.actualModel })
        = .ok plain ∧
      (d.adaptor route).url fresh.choice route = .ok post.url ∧
      (d.adaptor route).headers caller.headers route = .ok post.headers ∧
      (d.adaptor route).pinned route plain.print = .ok post.body ∧
      post.timeout = if request.stream then none else some d.settings.requestTimeout := by
  intro route
  obtain ⟨plain, hplain, h⟩ := exists_of_bind_ok h.prepared
  obtain ⟨url, hurl, h⟩ := exists_of_bind_ok h
  obtain ⟨headers, hheaders, h⟩ := exists_of_bind_ok h
  obtain ⟨text, htext, h⟩ := exists_of_bind_ok h
  obtain rfl := Except.ok.inj h
  exact ⟨plain, hplain, hurl, hheaders, htext, rfl⟩

/-- The steps of an admitted request, up to the call. -/
def admission : List Effect :=
  [.resolve request.model, .reserve (Chat.Tokens.ofPrompt request)]

/-- The steps after a call that came to this. -/
def billing (route : Route) : Except RelayError Outcome → List Effect
  | .ok outcome => [.record route outcome.usage]
  | .error _ => []

/-- The ways of a settled request, each with its steps and its reply. -/
inductive Relayed (reader : Session.Caller) : List Effect → Except RelayError Reply → Prop where
  | invalid {e : RelayError} (invalid : request.accept = .error e) : Relayed reader [] (.error e)
  | unresolved {e : RelayError} (valid : request.accept = .ok ())
      (unresolved : d.services.resolve request.model caller = .error e) :
      Relayed reader [.resolve request.model] (.error e)
  | denied {channel : Channel} {e : RelayError} (valid : request.accept = .ok ())
      (resolved : d.services.resolve request.model caller = .ok channel)
      (denied : d.services.reserve caller (Chat.Tokens.ofPrompt request) = .error e) :
      Relayed reader (admission request) (.error e)
  | unprepared {channel : Channel} {e : RelayError} (admits : Admits d caller request channel)
      (unprepared : d.prepare caller (routeOf caller request channel) request fresh = .error e) :
      Relayed reader (admission request) (.error e)
  | unanswered {channel : Channel} {post : Post} {e : RelayError}
      (posts : Posts d caller request fresh channel post)
      (unanswered : (d.send post).answer channel.family.name = .error e) :
      Relayed reader (admission request ++ [.post post]) (.error e)
  | rejected {channel : Channel} {post : Post} {answer : Provider.Answer} {e : RelayError}
      (posts : Posts d caller request fresh channel post) (sent : d.send post = .answered answer)
      (stream : request.stream = true)
      (rejected : answer.ensureSuccess channel.family.name = some (.error e)) :
      Relayed reader (admission request ++ [.post post]) (.error e)
  | misunderstood {channel : Channel} {post : Post} {answer : Provider.Answer} {e : RelayError}
      (posts : Posts d caller request fresh channel post) (sent : d.send post = .answered answer)
      (whole : request.stream = false)
      (misunderstood : (d.adaptor (routeOf caller request channel)).understand
        (routeOf caller request channel) fresh answer = .error e) :
      Relayed reader (admission request ++ [.post post]) (.error e)
  | whole {channel : Channel} {post : Post} {answer : Provider.Answer} {outcome : Outcome}
      {body : Json} (posts : Posts d caller request fresh channel post)
      (sent : d.send post = .answered answer) (whole : request.stream = false)
      (understood : (d.adaptor (routeOf caller request channel)).understand
        (routeOf caller request channel) fresh answer = .ok outcome)
      (hasBody : outcome.body = some body) :
      Relayed reader
        (admission request ++ .post post :: billing (routeOf caller request channel) (.ok outcome))
        (.ok (.whole body outcome.usage))
  | streamed {channel : Channel} {post : Post} {answer : Provider.Answer}
      (posts : Posts d caller request fresh channel post) (sent : d.send post = .answered answer)
      (stream : request.stream = true)
      (success : answer.ensureSuccess channel.family.name = some (.ok answer)) :
      Relayed reader
        (admission request ++ .post post :: billing (routeOf caller request channel)
          ((d.session (routeOf caller request channel) fresh answer).run reader).result)
        (.ok (.stream
          ((d.session (routeOf caller request channel) fresh answer).run reader).received))
  | waiting {channel : Channel} {post : Post} {answer : Provider.Answer}
      (posts : Posts d caller request fresh channel post) (sent : d.send post = .answered answer)
      (stream : request.stream = true)
      (endless : answer.ensureSuccess channel.family.name = none) :
      Relayed reader (admission request ++ [.post post]) (.ok .waiting)

variable {d caller request fresh} {reader : Session.Caller}

variable (d caller fresh reader) in
/-- The steps of a stream that is carried to its end. -/
theorem follow_deliver_stream {route : Route} {answer : Provider.Answer}
    (hstream : route.stream = true)
    (hsuccess : answer.ensureSuccess route.channel.family.name = some (.ok answer)) :
    (d.deliver fresh reader (.stream route answer)).run.follow (d.answerOf caller)
      = (.ok (.stream ((d.session route fresh answer).run reader).received),
          billing route ((d.session route fresh answer).run reader).result) := by
  have hrespond : (d.adaptor route).respond route fresh (some (d.sink reader)) answer = _ :=
    Traffic.respond_stream reader hstream hsuccess
  cases hresult : ((d.session route fresh answer).run reader).result with
  | error e =>
    rw [hresult] at hrespond
    rw [Traffic.deliver_error hrespond]
    rfl
  | ok outcome =>
    rw [hresult] at hrespond
    rw [Traffic.deliver_ok hrespond]
    rfl

variable (d caller request fresh reader) in
/-- **A settled request goes one of these ways.** -/
theorem relayed :
    Relayed d caller request fresh reader
      ((d.dispatch caller request fresh reader).run.follow (d.answerOf caller)).2
      ((d.dispatch caller request fresh reader).run.follow (d.answerOf caller)).1 := by
  have hdispatch : (d.dispatch caller request fresh reader).run
      = (d.begin caller request fresh).run.bind (ExceptT.bindCont (d.deliver fresh reader)) := rfl
  rw [hdispatch, Plan.follow_bind, begin_eq]
  -- One step after the other, as its party answers it.
  cases valid : request.accept with
  | error e => exact .invalid valid
  | ok _ =>
  cases resolved : d.services.resolve request.model caller with
  | error e =>
    simp only [Calling.orFail, Plan.follow, answerOf, resolved]
    exact .unresolved valid resolved
  | ok channel =>
  cases reserved : d.services.reserve caller (Chat.Tokens.ofPrompt request) with
  | error e =>
    simp only [Calling.orFail, Plan.follow, answerOf, resolved, reserved]
    exact .denied valid resolved reserved
  | ok _ =>
  have admits : Admits d caller request channel := ⟨valid, resolved, reserved⟩
  cases prepared : d.prepare caller (routeOf caller request channel) request fresh with
  | error e =>
    simp only [Calling.orFail, Plan.follow, answerOf, resolved, reserved, prepared]
    exact .unprepared admits prepared
  | ok post =>
  have posts : Posts d caller request fresh channel post := ⟨admits, prepared⟩
  cases answered : (d.send post).answer channel.family.name with
  | error e =>
    simp only [Calling.orFail, Plan.follow, answerOf, resolved, reserved, prepared, answered]
    exact .unanswered posts answered
  | ok answer =>
  have sent : d.send post = .answered answer := exchange_of_answer answered
  cases hstream : request.stream with
  | true =>
    simp only [Calling.orFail, Plan.follow, answerOf, resolved, reserved, prepared, answered]
    cases passed : answer.ensureSuccess (routeOf caller request channel).channel.family.name with
    | none =>
      rw [conclude_waiting d fresh hstream passed]
      exact .waiting posts sent hstream passed
    | some result =>
    rw [conclude_stream d fresh hstream passed]
    cases result with
    | error e => exact .rejected posts sent hstream passed
    | ok a =>
      obtain rfl := answer_of_ensureSuccess passed
      -- From here on the steps are those of the delivery.
      show Relayed d caller request fresh reader
        (admission request ++ .post post :: (Plan.follow (d.answerOf caller)
          (d.deliver fresh reader (.stream (routeOf caller request channel) a)).run).2)
        (Plan.follow (d.answerOf caller)
          (d.deliver fresh reader (.stream (routeOf caller request channel) a)).run).1
      rw [follow_deliver_stream d caller fresh reader hstream passed]
      exact .streamed posts sent hstream passed
  | false =>
    simp only [Calling.orFail, Plan.follow, answerOf, resolved, reserved, prepared, answered]
    rw [conclude_whole d fresh hstream]
    cases understood : (d.adaptor (routeOf caller request channel)).understand
        (routeOf caller request channel) fresh answer with
    | error e => exact .misunderstood posts sent hstream understood
    | ok outcome =>
      obtain ⟨body, hbody⟩ := Adaptor.body_of_understand understood
      simp only [Calling.orFail, Plan.follow, hbody]
      exact .whole posts sent hstream understood hbody

variable {body : StoredBody} {replaced : Option StoredBody}

theorem relay_unreadable {e : RelayError} (h : body.settle = .error e) :
    d.relay caller body fresh reader = ⟨body, false, [], .error e⟩ := by
  rw [relay, h]

/-- A body that can be read is settled, and the request in it goes one of the ways. -/
theorem relayed_of_settle (h : body.settle = .ok (request, replaced)) :
    Relayed d caller request fresh reader (d.relay caller body fresh reader).effects
      (d.relay caller body fresh reader).reply := by
  rw [relay, h]
  exact relayed d caller request fresh reader

@[simp] theorem post_notMem_billing (post : Post) (route : Route)
    (result : Except RelayError Outcome) : Effect.post post ∉ billing route result := by
  cases result <;> simp [billing]

/-- A call goes out for a request that was admitted, as it was prepared. -/
theorem Relayed.posts_of_mem {effects : List Effect} {reply : Except RelayError Reply}
    {post : Post} (h : Relayed d caller request fresh reader effects reply)
    (hpost : .post post ∈ effects) : ∃ channel, Posts d caller request fresh channel post := by
  cases h with
  | invalid | unresolved | denied | unprepared => simp [admission] at hpost
  | unanswered posts | rejected posts | misunderstood posts | whole posts | streamed posts
  | waiting posts =>
    obtain rfl : post = _ := by simpa [admission] using hpost
    exact ⟨_, posts⟩

/-- A dispatcher with one channel for one model, every call of which goes the same way. -/
def withExchange (family : Family) (exchange : Exchange) (model : String := "small") :
    Dispatcher where
  services := .ofChannels
    [{ id := "local", family, baseUrl := "http://host", apiKey := "key", models := [model] }]
  settings := { requestTimeout := 60 * 1000000 }
  send _ := exchange

end Dispatcher

end ModelRelay
