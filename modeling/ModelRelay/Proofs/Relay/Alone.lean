import ModelRelay.Proofs.Delivery.Schedule
import ModelRelay.Proofs.Relay.Course

/-!
# A call alone

`relay` carries a call through from its start to its end, with nothing else going on and with
parties who answer the same way whenever they are asked. It is written as one function, not as
happenings, so what holds in any traffic holds of it only once it is shown to be one:
`relay_is_traffic`.

The call is followed in three parts, as its stages are: up to where the caller is answered
(`turns_follow`), through the moves of a session (`turns_play`), and to the bill (`turns_bill`).

`Turns d c c'` says that a call that is alone can become another by what happens to it. It is
reflexive and transitive, and each thing that can happen is one step of it, so the parts are joined
without looking at the traffic again. The first part is an induction on the plan, in which each step
is answered as its party always answers it; the second is one on the moves of the session, which are
those of a caller who reads as `reader` does.

The happenings are not given one by one. They depend on the plan and on the session, and it is
enough that there are some.
-/

set_option autoImplicit false

namespace ModelRelay

/-- A step with what a party who answers all of them says to it. -/
def Entry.ofAnswer (answer : (effect : Effect) → effect.Answer) (effect : Effect) : Entry :=
  ⟨effect, answer effect⟩

namespace Plan

variable {α β : Type} (answer : (effect : Effect) → effect.Answer)

theorem follow_bind (p : Plan α) (f : α → Plan β) :
    (p.bind f).follow answer
      = (((f (p.follow answer).1).follow answer).1,
          (p.follow answer).2 ++ ((f (p.follow answer).1).follow answer).2) := by
  induction p with
  | done a => rfl
  | step effect next ih => rw [Plan.bind, follow, ih]; rfl

/-- What is followed is led along. -/
theorem leads_follow (p : Plan α) :
    Leads p ((p.follow answer).2.map (Entry.ofAnswer answer)) (.done (p.follow answer).1) := by
  induction p with
  | done a => exact .refl _
  | step effect next ih => exact .step (ih (answer effect))

end Plan

namespace Traffic

open Dispatcher Plan

variable {d : Dispatcher} {c c' c'' : Call}

theorem after?_append (t : Traffic) (hs hs' : List Happening) :
    t.after? d (hs ++ hs') = (t.after? d hs).bind (·.after? d hs') := by
  induction hs generalizing t with
  | nil => rfl
  | cons h rest ih =>
    rw [List.cons_append, after?, after?]
    cases t.happen? d h with
    | none => rfl
    | some t' => exact ih t'

/-- The caller has all that it will get, and nothing more is done for it. A caller who waits for the
end of a refusal that has none is one of these: it gets nothing. -/
def Stage.isAtRest : Stage → Bool
  | failed _ | whole _ _ | streaming _ _ _ .ended | waiting => true
  | _ => false

namespace Call

/-- The steps that a call has taken. -/
def effects (c : Call) : List Effect :=
  c.log.map (·.effect)

/-- What a reply gives to the caller of a call is what it got. -/
def Got (d : Dispatcher) (c : Call) : Except RelayError Reply → Prop
  | .error e => c.stage = .failed e
  | .ok (.whole body usage) => c.stage = .whole body usage
  | .ok .waiting => c.stage = .waiting
  | .ok (.stream frames) => ∃ route answer moves task s,
    c.stage = .streaming route answer moves task ∧
      (d.session route c.fresh answer).play moves = some s ∧ s.received = frames

end Call

/-- A call that is alone can become another by what happens to it. -/
def Turns (d : Dispatcher) (c c' : Call) : Prop :=
  ∀ n, ∃ happenings n',
    ({ calls := [c], activeStreams := n } : Traffic).after? d happenings
      = some { calls := [c'], activeStreams := n' }

theorem Turns.refl (c : Call) : Turns d c c :=
  fun n => ⟨[], n, rfl⟩

theorem Turns.trans (h : Turns d c c') (h' : Turns d c' c'') : Turns d c c'' := by
  intro n
  obtain ⟨happenings, n', hn⟩ := h n
  obtain ⟨more, n'', hn'⟩ := h' n'
  exact ⟨happenings ++ more, n'', by rw [after?_append, hn]; exact hn'⟩

/-- A change of the only call is a change of the traffic. -/
theorem change?_alone {f : Call → Option (Call × Guard)} {guard : Guard} {n : UInt64}
    (h : f c = some (c', guard)) :
    ({ calls := [c], activeStreams := n } : Traffic).change? 0 f
      = some { calls := [c'], activeStreams := guard.count n } := by
  show (f c).bind _ = _
  rw [h]
  rfl

theorem Turns.of_answered {answer : (effect : Effect) → effect.Answer} {guard : Guard}
    (h : c.answered? answer = some (c', guard)) : Turns d c c' := by
  intro n
  refine ⟨[.answered 0 answer], guard.count n, ?_⟩
  rw [after?, happen?, change?_alone h]
  rfl

theorem Turns.of_moved {m : Delivery.Move} {guard : Guard}
    (h : c.moved? d m = some (c', guard)) : Turns d c c' := by
  intro n
  refine ⟨[.moved 0 m], guard.count n, ?_⟩
  rw [after?, happen?, change?_alone h]
  rfl

theorem Turns.of_finished {guard : Guard} (h : c.finished? d = some (c', guard)) :
    Turns d c c' := by
  intro n
  refine ⟨[.finished 0], guard.count n, ?_⟩
  rw [after?, happen?, change?_alone h]
  rfl

/-! ## Up to where the caller is answered

The plan is followed with the answers of parties who always say the same, and its log is what they
said. -/

variable {caller : Caller} {body : StoredBody} {fresh : Fresh} {log : List Entry}

/-- **A call goes where its plan leads it.** By induction on the plan: its first step is answered,
and what is left of it is followed on. -/
theorem turns_follow (answer : (effect : Effect) → effect.Answer)
    (p : Plan (Except RelayError Opening)) (log : List Entry) :
    Turns d ⟨caller, body, fresh, log, (Stage.ofPlan p).1⟩
      ⟨caller, body, fresh, log ++ (p.follow answer).2.map (Entry.ofAnswer answer),
        (Stage.ofPlan (.done (p.follow answer).1)).1⟩ := by
  induction p generalizing log with
  | done result => rw [follow, List.map_nil, List.append_nil]; exact .refl _
  | step effect next ih =>
    have hrest := ih (answer effect) (log ++ [Entry.ofAnswer answer effect])
    rw [List.append_assoc] at hrest
    exact Turns.trans (.of_answered rfl) hrest

/-! ## Through a session

The task that forwards the stream is not over while the moves are made, even after the session has
ended. -/

variable {route : Route} {answer : Provider.Answer}

/-- Moves that a session can make are made in the call. By induction on those that are still to be
made. -/
theorem turns_play (made moves : List Delivery.Move)
    {s : Delivery.Session ((d.adaptor route).eventDecoder route fresh)}
    (h : (d.session route fresh answer).play (made ++ moves) = some s) :
    Turns d ⟨caller, body, fresh, log, .streaming route answer made .forwarding⟩
      ⟨caller, body, fresh, log, .streaming route answer (made ++ moves) .forwarding⟩ := by
  induction moves generalizing made with
  | nil => rw [List.append_nil]; exact .refl _
  | cons m rest ih =>
    rw [List.append_cons made m rest] at h ⊢
    refine Turns.trans ?_ (ih (made ++ [m]) h)
    -- The moves up to this one were made on the way to the last.
    obtain ⟨s', hs'⟩ : ∃ s', (d.session route fresh answer).play (made ++ [m]) = some s' := by
      rw [Delivery.Session.play_append] at h
      obtain ⟨s', hs', -⟩ := Option.bind_eq_some_iff.mp h
      exact ⟨s', hs'⟩
    have hmove :
        Call.moved? d m ⟨caller, body, fresh, log, .streaming route answer made .forwarding⟩
        = some (⟨caller, body, fresh, log, .streaming route answer (made ++ [m]) .forwarding⟩,
          .kept) := by
      rw [Call.moved?]
      simp only [hs']
    exact .of_moved hmove

/-! ## To the bill

A session that ended well is billed, and one that ended badly is not. -/

variable {moves : List Delivery.Move}
  {s : Delivery.Session ((d.adaptor route).eventDecoder route fresh)}

/-- The task finishes, the bill is written, and the call is over. -/
theorem turns_bill (bill : (effect : Effect) → effect.Answer) {outcome : Outcome}
    (hplay : (d.session route fresh answer).play moves = some s)
    (hresult : s.courier.result? = some (.ok outcome)) :
    Turns d ⟨caller, body, fresh, log, .streaming route answer moves .forwarding⟩
      ⟨caller, body, fresh, log ++ [Entry.ofAnswer bill (.record route outcome.usage)],
        .streaming route answer moves .ended⟩ := by
  have hfinish : Call.finished? d
        ⟨caller, body, fresh, log, .streaming route answer moves .forwarding⟩
      = some (⟨caller, body, fresh, log,
          .streaming route answer moves (.billing (Dispatcher.bill route outcome.usage))⟩,
        .kept) := by
    rw [Call.finished?]
    simp only [hplay, Option.bind_some, hresult]
    rfl
  exact Turns.trans (.of_finished hfinish) (.of_answered rfl)

theorem turns_break {e : RelayError} (hplay : (d.session route fresh answer).play moves = some s)
    (hresult : s.courier.result? = some (.error e)) :
    Turns d ⟨caller, body, fresh, log, .streaming route answer moves .forwarding⟩
      ⟨caller, body, fresh, log, .streaming route answer moves .ended⟩ := by
  have hfinish : Call.finished? d
        ⟨caller, body, fresh, log, .streaming route answer moves .forwarding⟩
      = some (⟨caller, body, fresh, log, .streaming route answer moves .ended⟩, .dropped) := by
    rw [Call.finished?]
    simp only [hplay, Option.bind_some, hresult]
  exact .of_finished hfinish

/-! ## From start to end

The parts are put together along the plan. Where the plan ends with a whole answer, a failure or a
wait, the first part is all there is. -/

/-- An answer that is good enough to begin a stream is streamed by running its session. -/
theorem respond_stream (reader : Delivery.Session.Caller) (hstream : route.stream = true)
    (hsuccess : answer.ensureSuccess route.channel.family.name = some (.ok answer)) :
    (d.adaptor route).respond route fresh (some (d.sink reader)) answer
      = some (((d.session route fresh answer).run reader).received,
          ((d.session route fresh answer).run reader).result) := by
  have hprovider : answer.ensureSuccess (d.adaptor route).provider = some (.ok answer) := hsuccess
  have hready : (d.adaptor route).ensureReady = .ok () := rfl
  unfold Adaptor.respond
  rw [hready]
  dsimp only
  rw [if_pos hstream, hprovider]
  rfl

theorem deliver_ok {reader : Delivery.Session.Caller} {frames : List Sse.Frame} {outcome : Outcome}
    (h : (d.adaptor route).respond route fresh (some (d.sink reader)) answer
      = some (frames, .ok outcome)) :
    (d.deliver fresh reader (.stream route answer)).run
      = .step (.record route outcome.usage) fun _ => .done (.ok (.stream frames)) := by
  rw [deliver, h]
  rfl

/-- A stream that ended badly is not billed; its frames are the reply all the same. -/
theorem deliver_error {reader : Delivery.Session.Caller} {frames : List Sse.Frame} {e : RelayError}
    (h : (d.adaptor route).respond route fresh (some (d.sink reader)) answer
      = some (frames, .error e)) :
    (d.deliver fresh reader (.stream route answer)).run = .done (.ok (.stream frames)) := by
  rw [deliver, h]
  rfl

/-- A plan that ends with a stream was asked for one, and its provider took the call. -/
theorem stream_of_leads {request : Chat.Request}
    (h : Leads (d.begin caller request fresh).run log (.done (.ok (.stream route answer)))) :
    route.stream = true ∧ answer.ensureSuccess route.channel.family.name = some (.ok answer) := by
  cases course_of_leads h with
  | streaming stream success => exact ⟨stream, success⟩

/-- A call that is alone can go to its end, with some more steps and a reply. -/
structure Ends (d : Dispatcher) (c c' : Call) (result : Except RelayError Reply × List Effect) :
    Prop where
  turns : Turns d c c'
  same : c'.caller = c.caller ∧ c'.body = c.body ∧ c'.fresh = c.fresh
  effects : c'.effects = c.effects ++ result.2
  atRest : c'.stage.isAtRest = true
  got : c'.Got d result.1

/-- A stream that has begun goes to its end, through the moves of its reader. -/
theorem ends_deliver (reader : Delivery.Session.Caller) (hstream : route.stream = true)
    (hsuccess : answer.ensureSuccess route.channel.family.name = some (.ok answer)) :
    ∃ c, Ends d ⟨caller, body, fresh, log, .streaming route answer [] .forwarding⟩ c
      ((d.deliver fresh reader (.stream route answer)).run.follow (d.answerOf caller)) := by
  have hrespond : (d.adaptor route).respond route fresh (some (d.sink reader)) answer = _ :=
    respond_stream reader hstream hsuccess
  obtain ⟨moves, hplay⟩ := (d.session route fresh answer).reaches_run reader
  obtain ⟨result, hresult⟩ := (d.session route fresh answer).ended_run reader rfl
  rw [Delivery.Session.result, hresult, Option.getD_some] at hrespond
  have hmoved : Turns d ⟨caller, body, fresh, log, .streaming route answer [] .forwarding⟩ _ :=
    turns_play [] moves hplay
  cases result with
  | error e =>
    rw [deliver_error hrespond]
    exact ⟨_, hmoved.trans (turns_break hplay hresult), ⟨rfl, rfl, rfl⟩,
      (List.append_nil _).symm, rfl, route, answer, moves, .ended, _, rfl, hplay, rfl⟩
  | ok outcome =>
    rw [deliver_ok hrespond]
    exact ⟨_, hmoved.trans (turns_bill (d.answerOf caller) hplay hresult), ⟨rfl, rfl, rfl⟩,
      List.map_append, rfl, route, answer, moves, .ended, _, rfl, hplay, rfl⟩

/-- A call alone goes to where its plan ends. -/
theorem ends_dispatch (request : Chat.Request) (reader : Delivery.Session.Caller) :
    ∃ c, Ends d ⟨caller, body, fresh, [], (Stage.ofPlan (d.begin caller request fresh).run).1⟩ c
      ((d.dispatch caller request fresh reader).run.follow (d.answerOf caller)) := by
  have hdispatch : (d.dispatch caller request fresh reader).run
      = (d.begin caller request fresh).run.bind (ExceptT.bindCont (d.deliver fresh reader)) := rfl
  -- Both sides follow the plan up to the answer, the function with one step after the other and the
  -- traffic with one happening for each.
  have hopen : Turns d
      ⟨caller, body, fresh, [], (Stage.ofPlan (d.begin caller request fresh).run).1⟩ _ :=
    turns_follow (d.answerOf caller) (d.begin caller request fresh).run []
  have hleads := leads_follow (d.answerOf caller) (d.begin caller request fresh).run
  rw [hdispatch, follow_bind]
  generalize (d.begin caller request fresh).run.follow (d.answerOf caller) = followed
    at hopen hleads ⊢
  obtain ⟨result, effects⟩ := followed
  have heffects : ([] ++ effects.map (Entry.ofAnswer (d.answerOf caller))).map Entry.effect
      = effects := by
    rw [List.nil_append, List.map_map]
    exact List.map_id _
  dsimp only at hopen hleads ⊢
  cases result with
  | error e => exact ⟨_, hopen, ⟨rfl, rfl, rfl⟩, heffects.trans (List.append_nil _).symm, rfl, rfl⟩
  | ok opening =>
    cases opening with
    | whole json usage =>
      exact ⟨_, hopen, ⟨rfl, rfl, rfl⟩, heffects.trans (List.append_nil _).symm, rfl, rfl⟩
    | waiting =>
      exact ⟨_, hopen, ⟨rfl, rfl, rfl⟩, heffects.trans (List.append_nil _).symm, rfl, rfl⟩
    | stream route answer =>
      obtain ⟨hstream, hsuccess⟩ := stream_of_leads hleads
      obtain ⟨c, hends⟩ := ends_deliver reader hstream hsuccess
      refine ⟨c, hopen.trans hends.turns, hends.same, ?_, hends.atRest, hends.got⟩
      exact hends.effects.trans (congrArg (· ++ _) heffects)

/-- **Relaying a call is one way for it to go in the traffic**: what it does, what its caller gets,
and that nothing is left to be done. -/
theorem relay_is_traffic (d : Dispatcher) (caller : Caller) (body : StoredBody) (fresh : Fresh)
    (reader : Delivery.Session.Caller) :
    ∃ happenings c n,
      ({} : Traffic).after? d happenings = some { calls := [c], activeStreams := n } ∧
      (c.caller = caller ∧ c.body = body ∧ c.fresh = fresh) ∧
      c.effects = (d.relay caller body fresh reader).effects ∧
      c.stage.isAtRest = true ∧ c.Got d (d.relay caller body fresh reader).reply := by
  rw [relay]
  cases hbody : body.settle with
  | error e =>
    refine ⟨[.call caller body fresh], ⟨caller, body, fresh, [], .failed e⟩, 0, ?_,
      ⟨rfl, rfl, rfl⟩, rfl, rfl, rfl⟩
    rw [after?, happen?, Call.start, hbody]
    rfl
  | ok settled =>
    obtain ⟨request, replaced⟩ := settled
    obtain ⟨c, hends⟩ := ends_dispatch request reader
    obtain ⟨happenings, n, hafter⟩ :=
      hends.turns ((Stage.ofPlan (d.begin caller request fresh).run).2.count 0)
    refine ⟨.call caller body fresh :: happenings, c, n, ?_, hends.same, hends.effects,
      hends.atRest, hends.got⟩
    rw [after?, happen?, Call.start, hbody]
    exact hafter

end Traffic

end ModelRelay
