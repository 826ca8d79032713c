import ModelRelay.Proofs.Relay.Outcome
import ModelRelay.Relay.Traffic

/-!
# The course of a call

A call goes from step to step by what it is answered. `Course` lists every point it can be at
between two steps, with the answers that brought it there, and `course_of_leads` shows that **there
is no other**. Seven ways to fail are among them (`Fails`): each names the one step that failed, has
no step after it, and ends with the failure of that step.

Both are about the call as it is written, one plan; that answers may come between those of other
calls plays no part here.

A plan is a tree of steps, with one branch for each answer. `Leads p log q` says that the answers in
a log lead from `p` to what is left of it, `q`. The log settles what is left (`Leads.unique`), can
be cut anywhere (`Leads.split`) and grows at its end (`Leads.snoc`); an induction along the log
proves each of these, once for all plans.

The plan of a call is written in a monad that fails. `begin_eq` says what it is as a plan: steps,
and between them results that end it if they are failures (`Calling.orFail`). The points are then
read off this one equation.
-/

set_option autoImplicit false

namespace ModelRelay

/-! ## Following a plan

The relation is about any plan. Entries carry the step and its answer, so a log says all that has
been asked and answered. -/

namespace Plan

variable {α β : Type}

/-- The answers in a log lead from a plan to what is left of it. -/
inductive Leads : Plan α → List Entry → Plan α → Prop where
  | refl (p : Plan α) : Leads p [] p
  | step {effect : Effect} {next : effect.Answer → Plan α} {answer : effect.Answer}
      {log : List Entry} {q : Plan α} :
      Leads (next answer) log q → Leads (.step effect next) (⟨effect, answer⟩ :: log) q

theorem Leads.snoc {p : Plan α} {log : List Entry} {effect : Effect}
    {next : effect.Answer → Plan α} (h : Leads p log (.step effect next))
    (answer : effect.Answer) : Leads p (log ++ [⟨effect, answer⟩]) (next answer) := by
  generalize hq : Plan.step effect next = q at h
  induction h with
  | refl p =>
    subst hq
    exact .step (.refl _)
  | step _ ih => exact .step (ih hq)

/-- A log that is cut leads to some rest of the plan at the cut. -/
theorem Leads.split {p q : Plan α} {before after : List Entry}
    (h : Leads p (before ++ after) q) : ∃ r, Leads p before r ∧ Leads r after q := by
  induction before generalizing p with
  | nil => exact ⟨p, .refl p, h⟩
  | cons entry before ih =>
    cases h with
    | step h =>
      obtain ⟨r, hr, hq⟩ := ih h
      exact ⟨r, .step hr, hq⟩

/-- What is left of a plan is settled by the answers. -/
theorem Leads.unique {p q q' : Plan α} {log : List Entry} (h : Leads p log q)
    (h' : Leads p log q') : q = q' := by
  induction h with
  | refl p => cases h' with | refl => rfl
  | step _ ih => cases h' with | step h' => exact ih h'

/-- A step that was not answered is still to be answered. -/
theorem Leads.of_step {effect : Effect} {next : effect.Answer → Plan α} {q : Plan α}
    {log : List Entry} (h : Leads (.step effect next) log q) :
    (log = [] ∧ q = .step effect next) ∨
      ∃ answer rest, log = ⟨effect, answer⟩ :: rest ∧ Leads (next answer) rest q := by
  cases h with
  | refl => exact Or.inl ⟨rfl, rfl⟩
  | step h => exact Or.inr ⟨_, _, rfl, h⟩

/-- Nothing comes after the end of a plan. -/
theorem Leads.of_done {a : α} {q : Plan α} {log : List Entry} (h : Leads (.done a) log q) :
    log = [] ∧ q = .done a := by
  cases h with
  | refl => exact ⟨rfl, rfl⟩

end Plan

/-! ## The steps of a call

Each way to ask a party, in the monad, is one step and then the failure that it may be answered
with. -/

namespace Calling

variable {α β : Type}

/-- Goes on with the value of a result; a failure ends the plan. -/
def orFail (result : Except RelayError α) (f : α → Plan (Except RelayError β)) :
    Plan (Except RelayError β) :=
  match result with
  | .error e => .done (.error e)
  | .ok a => f a

/-- A result that is a failure ends the plan there, and one that is none lets it go on. -/
theorem leads_orFail {result : Except RelayError α} {f : α → Plan (Except RelayError β)}
    {log : List Entry} {q : Plan (Except RelayError β)}
    (h : Plan.Leads (orFail result f) log q) :
    (∃ e, result = .error e ∧ log = [] ∧ q = .done (.error e)) ∨
      ∃ a, result = .ok a ∧ Plan.Leads (f a) log q := by
  cases result with
  | error e =>
    obtain ⟨hlog, hq⟩ := h.of_done
    exact Or.inl ⟨e, rfl, hlog, hq⟩
  | ok a => exact Or.inr ⟨a, rfl, h⟩

theorem run_ofExcept_bind (result : Except RelayError α) (f : α → Calling β) :
    (ofExcept result >>= f).run = orFail result fun a => (f a).run := by
  cases result <;> rfl

theorem run_resolve_bind (model : String) (f : Channel → Calling α) :
    (resolve model >>= f).run
      = .step (.resolve model) fun answer => orFail answer fun channel => (f channel).run := by
  refine congrArg (Plan.step (.resolve model)) (funext fun answer => ?_)
  cases answer <;> rfl

theorem run_reserve_bind (tokens : UInt32) (f : Unit → Calling α) :
    (reserve tokens >>= f).run
      = .step (.reserve tokens) fun answer => orFail answer fun _ => (f ()).run := by
  refine congrArg (Plan.step (.reserve tokens)) (funext fun answer => ?_)
  cases answer <;> rfl

/-- A call is made in one step, and its failure is that of the exchange. -/
theorem run_exchange_bind (provider : String) (post : Post) (f : Provider.Answer → Calling α) :
    (exchange provider post >>= f).run
      = .step (.post post) fun exchange =>
          orFail (Exchange.answer provider exchange) fun answer => (f answer).run := by
  refine congrArg (Plan.step (.post post)) (funext fun exchange => ?_)
  cases exchange <;> rfl

end Calling

namespace Entry

/-- A channel was asked for. -/
def resolved (model : String) (answer : Except RelayError Channel) : Entry :=
  ⟨.resolve model, answer⟩

/-- Quota was asked for. -/
def reserved (tokens : UInt32) (answer : Except RelayError Unit) : Entry :=
  ⟨.reserve tokens, answer⟩

/-- A call was made. -/
def posted (post : Post) (exchange : Exchange) : Entry :=
  ⟨.post post, exchange⟩

/-- A bill was written. -/
def recorded (route : Route) (usage : Chat.Usage) (answer : Except RelayError Unit) : Entry :=
  ⟨.record route usage, answer⟩

@[simp] theorem effect_resolved (model : String) (answer : Except RelayError Channel) :
    (resolved model answer).effect = .resolve model := rfl

@[simp] theorem effect_reserved (tokens : UInt32) (answer : Except RelayError Unit) :
    (reserved tokens answer).effect = .reserve tokens := rfl

@[simp] theorem effect_posted (post : Post) (exchange : Exchange) :
    (posted post exchange).effect = .post post := rfl

@[simp] theorem effect_recorded (route : Route) (usage : Chat.Usage)
    (answer : Except RelayError Unit) :
    (recorded route usage answer).effect = .record route usage := rfl

end Entry

namespace Dispatcher

open Plan

variable (d : Dispatcher) (caller : Caller) (request : Chat.Request) (fresh : Fresh)

theorem exchange_of_answer {provider : String} {exchange : Exchange} {answer : Provider.Answer}
    (h : exchange.answer provider = .ok answer) : exchange = .answered answer := by
  cases exchange with
  | answered a => rw [Except.ok.inj h]
  | timedOut detail => exact absurd h (by simp [Exchange.answer])
  | failed detail => exact absurd h (by simp [Exchange.answer])

/-- The answer that passes is the one that was looked at. -/
theorem answer_of_ensureSuccess {provider : String} {answer passed : Provider.Answer}
    (h : answer.ensureSuccess provider = some (.ok passed)) : passed = answer := by
  rw [Provider.Answer.ensureSuccess] at h
  split at h
  · exact (Except.ok.inj (Option.some.inj h)).symm
  · obtain ⟨body, -, hrefused⟩ := Option.map_eq_some_iff.mp h
    exact absurd hrefused (by simp)

/-- The log of a call that has its channel and its quota. -/
def admitted (channel : Channel) : List Entry :=
  [.resolved request.model (.ok channel), .reserved (Chat.Tokens.ofPrompt request) (.ok ())]

/-- The ways a call can fail, with its log and the failure that its caller gets. -/
inductive Fails : List Entry → RelayError → Prop where
  | invalid {e : RelayError} (invalid : request.accept = .error e) : Fails [] e
  | unresolved {e : RelayError} (valid : request.accept = .ok ()) :
      Fails [.resolved request.model (.error e)] e
  | denied {channel : Channel} {e : RelayError} (valid : request.accept = .ok ()) :
      Fails [.resolved request.model (.ok channel),
        .reserved (Chat.Tokens.ofPrompt request) (.error e)] e
  | unprepared {channel : Channel} {e : RelayError} (valid : request.accept = .ok ())
      (unprepared : d.prepare caller (routeOf caller request channel) request fresh = .error e) :
      Fails (admitted request channel) e
  | unanswered {channel : Channel} {post : Post} {exchange : Exchange} {e : RelayError}
      (valid : request.accept = .ok ())
      (prepared : d.prepare caller (routeOf caller request channel) request fresh = .ok post)
      (unanswered : exchange.answer channel.family.name = .error e) :
      Fails (admitted request channel ++ [.posted post exchange]) e
  | rejected {channel : Channel} {post : Post} {answer : Provider.Answer} {e : RelayError}
      (valid : request.accept = .ok ())
      (prepared : d.prepare caller (routeOf caller request channel) request fresh = .ok post)
      (stream : request.stream = true)
      (rejected : answer.ensureSuccess channel.family.name = some (.error e)) :
      Fails (admitted request channel ++ [.posted post (.answered answer)]) e
  | misunderstood {channel : Channel} {post : Post} {answer : Provider.Answer} {e : RelayError}
      (valid : request.accept = .ok ())
      (prepared : d.prepare caller (routeOf caller request channel) request fresh = .ok post)
      (whole : request.stream = false)
      (misunderstood : (d.adaptor (routeOf caller request channel)).understand
        (routeOf caller request channel) fresh answer = .error e) :
      Fails (admitted request channel ++ [.posted post (.answered answer)]) e

/-- The points of a call between its steps, with its log and what is left of its plan. -/
inductive Course : List Entry → Plan (Except RelayError Opening) → Prop where
  | failed {log : List Entry} {e : RelayError} (fails : Fails d caller request fresh log e) :
      Course log (.done (.error e))
  | resolving {next} : Course [] (.step (.resolve request.model) next)
  | reserving {channel : Channel} {next} :
      Course [.resolved request.model (.ok channel)]
        (.step (.reserve (Chat.Tokens.ofPrompt request)) next)
  | posting {channel : Channel} {post : Post} {next} :
      Course (admitted request channel) (.step (.post post) next)
  | streaming {channel : Channel} {post : Post} {answer : Provider.Answer}
      (stream : request.stream = true)
      (success : answer.ensureSuccess channel.family.name = some (.ok answer)) :
      Course (admitted request channel ++ [.posted post (.answered answer)])
        (.done (.ok (.stream (routeOf caller request channel) answer)))
  | waiting {channel : Channel} {post : Post} {answer : Provider.Answer}
      (stream : request.stream = true)
      (endless : answer.ensureSuccess channel.family.name = none) :
      Course (admitted request channel ++ [.posted post (.answered answer)]) (.done (.ok .waiting))
  | billing {channel : Channel} {post : Post} {answer : Provider.Answer} {outcome : Outcome} {next}
      (whole : request.stream = false)
      (understood : (d.adaptor (routeOf caller request channel)).understand
        (routeOf caller request channel) fresh answer = .ok outcome) :
      Course (admitted request channel ++ [.posted post (.answered answer)])
        (.step (.record (routeOf caller request channel) outcome.usage) next)
  | answered {channel : Channel} {post : Post} {answer : Provider.Answer} {outcome : Outcome}
      {body : Json} {billed : Except RelayError Unit}
      (whole : request.stream = false)
      (understood : (d.adaptor (routeOf caller request channel)).understand
        (routeOf caller request channel) fresh answer = .ok outcome)
      (hasBody : outcome.body = some body) :
      Course (admitted request channel ++ [.posted post (.answered answer),
          .recorded (routeOf caller request channel) outcome.usage billed])
        (.done (.ok (.whole body outcome.usage)))

/-! ## The plan of a call, step by step

What is made of an answer has three forms: a stream, the wait for a refusal without end, and a whole
answer with its bill. -/

open Calling in
/-- A stream begins, or what the provider refused it with is the failure. -/
theorem conclude_stream {route : Route} (h : route.stream = true) {answer : Provider.Answer}
    {result : Except RelayError Provider.Answer}
    (hresult : answer.ensureSuccess route.channel.family.name = some result) :
    (d.conclude route fresh answer).run
      = orFail result fun answer => .done (.ok (.stream route answer)) := by
  have hadaptor : answer.ensureSuccess (d.adaptor route).provider = some result := hresult
  rw [conclude, if_pos h, hadaptor]
  exact run_ofExcept_bind result _

theorem conclude_waiting {route : Route} (h : route.stream = true) {answer : Provider.Answer}
    (hendless : answer.ensureSuccess route.channel.family.name = none) :
    (d.conclude route fresh answer).run = .done (.ok .waiting) := by
  have hadaptor : answer.ensureSuccess (d.adaptor route).provider = none := hendless
  rw [conclude, if_pos h, hadaptor]
  rfl

open Calling in
theorem conclude_whole {route : Route} (h : route.stream = false) (answer : Provider.Answer) :
    (d.conclude route fresh answer).run
      = orFail ((d.adaptor route).understand route fresh answer) fun outcome =>
          .step (.record route outcome.usage) fun _ =>
            outcome.body.elim (.done (.error (.internal .noBody))) fun body =>
              .done (.ok (.whole body outcome.usage)) := by
  rw [conclude, if_neg (by simp [h]), run_ofExcept_bind]
  refine congrArg _ (funext fun outcome => ?_)
  refine congrArg (Plan.step (.record route outcome.usage)) (funext fun _ => ?_)
  cases outcome.body <;> rfl

open Calling in
/-- The plan of a call, with its steps in their order. -/
theorem begin_eq :
    (d.begin caller request fresh).run
      = orFail request.accept fun _ =>
          .step (.resolve request.model) fun answer => orFail answer fun channel =>
            .step (.reserve (Chat.Tokens.ofPrompt request)) fun answer => orFail answer fun _ =>
              orFail (d.prepare caller (routeOf caller request channel) request fresh) fun post =>
                .step (.post post) fun exchange =>
                  orFail (Exchange.answer channel.family.name exchange) fun answer =>
                    (d.conclude (routeOf caller request channel) fresh answer).run := by
  simp only [begin, run_ofExcept_bind, run_resolve_bind, run_reserve_bind, run_exchange_bind]
  rfl

/-! ## Every point of a call

The two directions: a failure of the list is reached by its log, and whatever a log leads to is in
the list. -/

variable {d caller request fresh}

theorem leads_of_fails {log : List Entry} {e : RelayError}
    (h : Fails d caller request fresh log e) :
    Leads (d.begin caller request fresh).run log (.done (.error e)) := by
  rw [begin_eq]
  -- Each way is walked along the plan: one step for each entry of its log, and the failure behind
  -- the last.
  cases h with
  | invalid invalid =>
    rw [invalid]
    exact .refl _
  | unresolved valid =>
    rw [valid]
    exact .step (.refl _)
  | denied valid =>
    rw [valid]
    exact .step (.step (.refl _))
  | unprepared valid unprepared =>
    rw [valid]
    refine .step (.step ?_)
    simp only [Calling.orFail, unprepared]
    exact .refl _
  | unanswered valid prepared unanswered =>
    rw [valid]
    refine .step (.step ?_)
    simp only [Calling.orFail, prepared]
    refine .step ?_
    simp only [unanswered]
    exact .refl _
  | @rejected channel post answer e valid prepared stream rejected =>
    have hreject : answer.ensureSuccess (routeOf caller request channel).channel.family.name
        = some (.error e) := rejected
    rw [valid]
    refine .step (.step ?_)
    simp only [Calling.orFail, prepared]
    refine .step ?_
    show Leads (d.conclude (routeOf caller request channel) fresh answer).run [] _
    rw [conclude_stream d fresh stream hreject]
    exact .refl _
  | misunderstood valid prepared whole misunderstood =>
    rw [valid]
    refine .step (.step ?_)
    simp only [Calling.orFail, prepared]
    refine .step ?_
    show Leads (d.conclude (routeOf caller request _) fresh _).run [] _
    rw [conclude_whole d fresh whole, misunderstood]
    exact .refl _

/-- **A call is always at one of these points.** -/
theorem course_of_leads {log : List Entry} {q : Plan (Except RelayError Opening)}
    (h : Leads (d.begin caller request fresh).run log q) : Course d caller request fresh log q := by
  rw [begin_eq] at h
  -- One step after the other: it failed, or it waits for its answer, or the answer is in.
  obtain ⟨e, invalid, rfl, rfl⟩ | ⟨_, valid, h₁⟩ := Calling.leads_orFail h
  · exact .failed (.invalid invalid)
  obtain ⟨rfl, rfl⟩ | ⟨(resolved : Except RelayError Channel), log₁, rfl, h₂⟩ := h₁.of_step
  · exact .resolving
  obtain ⟨e, rfl, rfl, rfl⟩ | ⟨channel, rfl, h₃⟩ := Calling.leads_orFail h₂
  · exact .failed (.unresolved valid)
  obtain ⟨rfl, rfl⟩ | ⟨(reserved : Except RelayError Unit), log₂, rfl, h₄⟩ := h₃.of_step
  · exact .reserving
  obtain ⟨e, rfl, rfl, rfl⟩ | ⟨_, rfl, h₅⟩ := Calling.leads_orFail h₄
  · exact .failed (.denied valid)
  obtain ⟨e, unprepared, rfl, rfl⟩ | ⟨post, prepared, h₆⟩ := Calling.leads_orFail h₅
  · exact .failed (.unprepared valid unprepared)
  obtain ⟨rfl, rfl⟩ | ⟨(exchange : Exchange), log₃, rfl, h₇⟩ := h₆.of_step
  · exact .posting
  obtain ⟨e, unanswered, rfl, rfl⟩ | ⟨answer, answered, h₈⟩ := Calling.leads_orFail h₇
  · exact .failed (.unanswered valid prepared unanswered)
  obtain rfl : exchange = .answered answer := exchange_of_answer answered
  cases hstream : request.stream with
  | true =>
    -- What the provider says to a stream comes to an end, or it does not.
    cases hpassed : answer.ensureSuccess (routeOf caller request channel).channel.family.name with
    | none =>
      rw [conclude_waiting d fresh hstream hpassed] at h₈
      obtain ⟨rfl, rfl⟩ := h₈.of_done
      exact .waiting hstream hpassed
    | some result =>
      rw [conclude_stream d fresh hstream hpassed] at h₈
      obtain ⟨e, rfl, rfl, rfl⟩ | ⟨passed, rfl, h₉⟩ := Calling.leads_orFail h₈
      · exact .failed (.rejected valid prepared hstream hpassed)
      obtain ⟨rfl, rfl⟩ := h₉.of_done
      obtain rfl := answer_of_ensureSuccess hpassed
      exact .streaming hstream hpassed
  | false =>
    rw [conclude_whole d fresh hstream] at h₈
    obtain ⟨e, misunderstood, rfl, rfl⟩ | ⟨outcome, understood, h₉⟩ := Calling.leads_orFail h₈
    · exact .failed (.misunderstood valid prepared hstream misunderstood)
    obtain ⟨rfl, rfl⟩ | ⟨(billed : Except RelayError Unit), log₄, rfl, h₁₀⟩ := h₉.of_step
    · exact .billing hstream understood
    obtain ⟨body, hbody⟩ := Adaptor.body_of_understand understood
    rw [hbody] at h₁₀
    obtain ⟨rfl, rfl⟩ := h₁₀.of_done
    exact .answered hstream understood hbody

end Dispatcher

end ModelRelay
