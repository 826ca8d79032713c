import ModelRelay.Proofs.Provider.Refusals
import ModelRelay.Proofs.Relay.Reply

/-!
# Calls that break off

A caller who waits for a whole answer waits no longer than the time that is allowed for the call. A
call that breaks off, because that time is up or because its connection fails, has no whole answer,
and **its caller is told that the provider could not be reached if and only if it broke off**
(`broken_calls_are_told`), whatever status had come before and however much of the body.

That the time was up is told only if it was up before the answer began. A body that comes too late
is lost like any other.

`Exchange.BreaksOff` lists the four ways to break off, each with what is told of it. Two are known
before an answer begins, and two by how its body ends. The other direction is the harder one: no
failure of another kind may look like this one. It holds because the readers of an answer name their
failures (`onlyFails_readJson`, `onlyFails_outcomeOf`), and only a lost body is told as a provider
that was not reached (`Adaptor.understand_unreachable_iff`).

Streamed calls have no time limit and are not the matter of this module.
-/

set_option autoImplicit false

namespace ModelRelay

namespace Exchange

/-- The time was up before an answer began. -/
def isLate : Exchange → Bool
  | timedOut _ => true
  | failed _ | answered _ => false

/-- The time was up before an answer was whole. -/
def RunsOut : Exchange → Prop
  | timedOut _ => True
  | failed _ => False
  | answered answer => answer.ending = .silent

/-- A call ends before there is a whole answer, and what is told of it. -/
inductive BreaksOff : Exchange → TransportFault → Prop where
  | late (detail : String) : BreaksOff (.timedOut detail) (.timedOut detail)
  | failed (detail : String) : BreaksOff (.failed detail) (.failed detail)
  | broken {answer : Provider.Answer} {detail : String} (ending : answer.ending = .broken detail) :
      BreaksOff (.answered answer) (.bodyLost detail)
  | stalled {answer : Provider.Answer} (ending : answer.ending = .silent) :
      BreaksOff (.answered answer) (.bodyLost "operation timed out")

variable {exchange : Exchange} {fault : TransportFault}

/-- When the time is up before the answer is whole, the call breaks off. -/
theorem RunsOut.breaksOff (h : exchange.RunsOut) : ∃ fault, exchange.BreaksOff fault := by
  cases exchange with
  | timedOut detail => exact ⟨_, .late detail⟩
  | failed detail => exact h.elim
  | answered answer => exact ⟨_, .stalled h⟩

/-- A timeout is told exactly if the time was up before an answer began. -/
theorem BreaksOff.isTimeout_eq (h : exchange.BreaksOff fault) :
    fault.isTimeout = exchange.isLate := by
  cases h <;> rfl

/-- An answer breaks off where its whole body is not to be had. -/
theorem breaksOff_answered_iff {answer : Provider.Answer} :
    (answered answer).BreaksOff fault
      ↔ ∃ detail, answer.wholeBody? = .error detail ∧ fault = .bodyLost detail := by
  constructor
  · intro h
    cases h with
    | broken ending => exact ⟨_, by rw [Provider.Answer.wholeBody?, ending], rfl⟩
    | stalled ending => exact ⟨_, by rw [Provider.Answer.wholeBody?, ending], rfl⟩
  · rintro ⟨detail, hbody, rfl⟩
    rw [Provider.Answer.wholeBody?] at hbody
    split at hbody
    · exact absurd hbody (by simp)
    · next ending => exact Except.error.inj hbody ▸ .broken ending
    · next ending => exact Except.error.inj hbody ▸ .stalled ending

end Exchange

/-! ## What a whole answer comes to

The two layers, reading the body and making something of it, fail in ways that differ from a lost
body by their constructor. -/

open Provider in
/-- A whole answer is unreachable if its body is lost, and in no other case. -/
theorem Adaptor.understand_unreachable_iff {a : Adaptor} {route : Route} {fresh : Fresh}
    {answer : Answer} {fault : TransportFault} :
    a.understand route fresh answer = .error (.unreachable a.provider fault)
      ↔ (Exchange.answered answer).BreaksOff fault := by
  rw [understand, Exchange.breaksOff_answered_iff]
  constructor
  · -- Of the ways to fail, only a lost body is of this kind.
    let P (e : RelayError) : Prop := e = .unreachable a.provider fault →
      ∃ detail, answer.wholeBody? = .error detail ∧ fault = .bodyLost detail
    have hread : OnlyFails P (answer.readJson a.provider) :=
      answer.onlyFails_readJson
        (fun detail hbody he => ⟨detail, hbody, ((RelayError.unreachable.inj he).2).symm⟩)
        (fun _ _ _ he => absurd he (by simp)) (fun _ _ he => absurd he (by simp))
        (fun _ he => absurd he (by simp))
    have hfails : OnlyFails P ((answer.readJson a.provider).bind (a.outcomeOf route fresh)) :=
      .bind hread fun body => a.onlyFails_outcomeOf route fresh body
        (fun _ he => absurd he (by simp)) (fun _ he => absurd he (by simp))
    exact fun h => hfails _ h rfl
  · rintro ⟨detail, hbody, rfl⟩
    rw [Answer.readJson, hbody]
    rfl

namespace Dispatcher

variable (d : Dispatcher) (caller : Caller) (body : StoredBody) (fresh : Fresh)
  (reader : Delivery.Session.Caller)

/-- What a call comes to for a caller who waits for a whole answer. -/
def comesTo (route : Route) (exchange : Exchange) : Except RelayError Outcome :=
  (exchange.answer route.channel.family.name).bind fun answer =>
    (d.adaptor route).understand route fresh answer

theorem comesTo_of_error {route : Route} {exchange : Exchange} {e : RelayError}
    (h : exchange.answer route.channel.family.name = .error e) :
    d.comesTo fresh route exchange = .error e := by
  rw [comesTo, h]
  rfl

/-- What a call comes to is that the provider was not reached, if and only if the call broke off. -/
theorem comesTo_unreachable_iff {route : Route} {exchange : Exchange} {fault : TransportFault} :
    d.comesTo fresh route exchange = .error (.unreachable route.channel.family.name fault)
      ↔ exchange.BreaksOff fault := by
  cases exchange with
  | answered answer => exact Adaptor.understand_unreachable_iff
  | timedOut detail =>
    constructor
    · intro h
      exact (RelayError.unreachable.inj (Except.error.inj h)).2 ▸ .late detail
    · intro h
      cases h with
      | late => rfl
  | failed detail =>
    constructor
    · intro h
      exact (RelayError.unreachable.inj (Except.error.inj h)).2 ▸ .failed detail
    · intro h
      cases h with
      | failed => rfl

variable {d caller body fresh reader} {request : Chat.Request} {post : Post}

/-- A call that went out and whose caller waits for a whole answer fails by what it comes to. -/
theorem Relayed.error_iff_of_mem {effects : List Effect} {reply : Except RelayError Reply}
    (h : Relayed d caller request fresh reader effects reply) (hwhole : request.stream = false)
    (hpost : .post post ∈ effects) :
    ∃ channel, Posts d caller request fresh channel post ∧
      ∀ e, reply = .error e ↔
        d.comesTo fresh (routeOf caller request channel) (d.send post) = .error e := by
  cases h with
  | invalid | unresolved | denied | unprepared => simp [admission] at hpost
  | rejected _ _ stream | streamed _ _ stream | waiting _ _ stream =>
    exact absurd (hwhole.symm.trans stream) (by simp)
  | @unanswered channel _ e' posts unanswered =>
    obtain rfl : post = _ := by simpa [admission] using hpost
    have hcomes : d.comesTo fresh (routeOf caller request channel) (d.send post) = .error e' :=
      d.comesTo_of_error fresh unanswered
    exact ⟨channel, posts, fun e => by simp [hcomes]⟩
  | @misunderstood channel _ answer e' posts sent _ misunderstood =>
    obtain rfl : post = _ := by simpa [admission] using hpost
    have hcomes : d.comesTo fresh (routeOf caller request channel) (d.send post) = .error e' :=
      sent ▸ misunderstood
    exact ⟨channel, posts, fun e => by simp [hcomes]⟩
  | @whole channel _ answer outcome _ posts sent _ understood =>
    obtain rfl : post = _ := by simpa [admission] using hpost
    have hcomes : d.comesTo fresh (routeOf caller request channel) (d.send post) = .ok outcome :=
      sent ▸ understood
    exact ⟨channel, posts, fun e => by simp [hcomes]⟩

/-- A call for a whole answer goes out with the limit that is set for calls. -/
theorem timeout_of_posts {channel : Channel} (h : Posts d caller request fresh channel post)
    (hwhole : request.stream = false) : post.timeout = some d.settings.requestTimeout := by
  obtain ⟨_, -, -, -, -, htimeout⟩ := h.parts
  rw [htimeout, hwhole]
  rfl

/-- **A call whose caller waits for a whole answer is told to be unreachable if and only if it broke
off**, and if the time for it was up before the answer was whole it did. The status is 504 if the
time was up before the answer began, and in all other cases 502.

Each part of the relay names the failures it can end with, and only a call without a whole answer is
told as a provider that was not reached. Of its two statuses the one for a timeout goes by the kind
of failure, and a body that is lost is always of the other kind. -/
theorem broken_calls_are_told (d : Dispatcher) (caller : Caller) (body : StoredBody)
    (fresh : Fresh) (reader : Delivery.Session.Caller) {request : Chat.Request}
    {replaced : Option StoredBody} {post : Post}
    (settled : body.settle = .ok (request, replaced)) (waits : request.stream = false)
    (posted : .post post ∈ (d.relay caller body fresh reader).effects) :
    post.timeout = some d.settings.requestTimeout ∧
    ∃ channel, d.services.resolve request.model caller = .ok channel ∧
      (∀ fault, (d.relay caller body fresh reader).reply
          = .error (.unreachable channel.family.name fault) ↔ (d.send post).BreaksOff fault) ∧
      ((d.send post).RunsOut → ∃ fault, (d.send post).BreaksOff fault) ∧
      ∀ fault, (d.send post).BreaksOff fault →
        fault.isTimeout = (d.send post).isLate ∧
        (RelayError.unreachable channel.family.name fault).status
          = if (d.send post).isLate then 504 else 502 := by
  obtain ⟨channel, hposts, hreply⟩ := (relayed_of_settle settled).error_iff_of_mem waits posted
  refine ⟨timeout_of_posts hposts waits, channel, hposts.admits.resolved, fun fault => ?_,
    Exchange.RunsOut.breaksOff, fun fault h => ⟨h.isTimeout_eq, ?_⟩⟩
  · rw [hreply]
    exact d.comesTo_unreachable_iff fresh
  · rw [RelayError.status, h.isTimeout_eq]

/-- A call to which no answer began in time is told to be late. -/
theorem late_call_is_told :
    let d := withExchange .openai (.timedOut "deadline has elapsed")
    let caller : Caller := { id := "tests", protocol := .completions }
    let body := StoredBody.ofText
      "\x7b\"model\": \"small\", \"messages\": [\x7b\"role\": \"user\"\x7d]\x7d"
    ∃ post, .post post ∈ (d.relay caller body ⟨"1", 0, 0⟩ {}).effects ∧
      post.timeout = some d.settings.requestTimeout ∧
      ∃ provider, (d.relay caller body ⟨"1", 0, 0⟩ {}).reply
          = .error (.unreachable provider (.timedOut "deadline has elapsed")) ∧
        (RelayError.unreachable provider (.timedOut "deadline has elapsed")).status = 504 := by
  intro d caller body
  have hposted : ((d.relay caller body ⟨"1", 0, 0⟩ {}).effects.findSome? Effect.post?).isSome
      = true := by
    decide +kernel
  have hwaits : body.settle.toOption.map (·.1.stream) = some false := by decide +kernel
  obtain ⟨post, hpost⟩ := Option.isSome_iff_exists.mp hposted
  replace hpost : .post post ∈ (d.relay caller body ⟨"1", 0, 0⟩ {}).effects := mem_of_post? hpost
  obtain ⟨⟨request, replaced⟩, hsettled, hwaits⟩ := Option.map_eq_some_iff.mp hwaits
  obtain ⟨htimeout, channel, -, hreply, -, htold⟩ := broken_calls_are_told d caller body
    ⟨"1", 0, 0⟩ {} (ok_of_toOption hsettled) hwaits hpost
  exact ⟨post, hpost, htimeout, channel.family.name, (hreply _).mpr (.late _),
    (htold _ (.late _)).2⟩

/-- The time for a call can be up without its caller being told so: a body of which only the first
bytes came in time is lost, and the status is 502. -/
theorem stalled_body_is_not_told :
    let answer : Provider.Answer := { body := "\x7b\"id\":".toUTF8, ending := .silent }
    let d := withExchange .openai (.answered answer)
    let caller : Caller := { id := "tests", protocol := .completions }
    let body := StoredBody.ofText
      "\x7b\"model\": \"small\", \"messages\": [\x7b\"role\": \"user\"\x7d]\x7d"
    let fault := TransportFault.bodyLost "operation timed out"
    (Exchange.answered answer).RunsOut ∧
      (d.relay caller body ⟨"1", 0, 0⟩ {}).reply = .error (.unreachable "openai" fault) ∧
      fault.isTimeout = false ∧ (RelayError.unreachable "openai" fault).status = 502 := by
  intro answer d caller body fault
  have hreply : failureOf? (d.relay caller body ⟨"1", 0, 0⟩ {}).reply
      = some (.unreachable "openai" fault) := by
    decide +kernel
  exact ⟨rfl, of_failureOf? hreply, rfl, rfl⟩

end Dispatcher

end ModelRelay
