import ModelRelay.Proofs.Relay.Course

/-!
# Where calls stand, in any traffic

`Stands` ties the stage of a call to its log: the log is one that the plan of the call leads along,
and the stage is what is left of the plan there. A call that streams stands beyond its plan, with a
session that its moves have made and, if the session ended well, one more step in its log.

Every happening keeps it, for the call that it happens to and so for all (`IsSound.after?`), and
with it goes the account of the guards: **the count of streams is the number of tasks that are not
over**, in whatever order calls come, are answered, move, finish and are stopped.

This is the invariant of all traffic, and the only induction over happenings is here. What is
claimed of a call elsewhere is read off the place where it stands.

There is one lemma for each thing that can happen to a call: it starts (`start_isSound`), a step of
it is answered, its session moves, its task finishes, its caller leaves. Each says that the call
stands where it may afterwards, and that the guard that was taken or dropped fits (`Guard.Fits`).
How a change of one call changes the count of all is the same in each case and is shown once
(`isSound_change?`).

The count is a word of 64 bits. It is compared with the number of tasks as a word, so the statement
holds without a bound on the number of calls.
-/

set_option autoImplicit false

namespace ModelRelay

namespace Traffic

open Plan

/-! ## One call

The stages are those of the relay, and the constructors below follow them. Two of them lead to one
stage: a caller may leave while a step is open, or while it waits for a refusal. -/

section Standing

variable (d : Dispatcher) (caller : Caller) (request : Chat.Request) (fresh : Fresh)

/-- The log has led the plan of a call to its end, and the end is a stream. -/
def Begun (log : List Entry) (route : Route) (answer : Provider.Answer) : Prop :=
  Leads (d.begin caller request fresh).run log (.done (.ok (.stream route answer)))

/-- A call with a log may be in a stage. -/
inductive Stands : List Entry → Stage → Prop where
  | opening {log : List Entry} {effect : Effect} {next}
      (leads : Leads (d.begin caller request fresh).run log (.step effect next)) :
      Stands log (.opening (.step effect next))
  | abandoned {log : List Entry} {effect : Effect} {next}
      (leads : Leads (d.begin caller request fresh).run log (.step effect next)) :
      Stands log .abandoned
  | waiting {log : List Entry}
      (leads : Leads (d.begin caller request fresh).run log (.done (.ok .waiting))) :
      Stands log .waiting
  | abandonedWaiting {log : List Entry}
      (leads : Leads (d.begin caller request fresh).run log (.done (.ok .waiting))) :
      Stands log .abandoned
  | failed {log : List Entry} {e : RelayError}
      (leads : Leads (d.begin caller request fresh).run log (.done (.error e))) :
      Stands log (.failed e)
  | whole {log : List Entry} {body : Json} {usage : Chat.Usage}
      (leads : Leads (d.begin caller request fresh).run log (.done (.ok (.whole body usage)))) :
      Stands log (.whole body usage)
  | forwarding {log : List Entry} {route : Route} {answer : Provider.Answer}
      {moves : List Delivery.Move} {s}
      (begun : Begun d caller request fresh log route answer)
      (played : (d.session route fresh answer).play moves = some s) :
      Stands log (.streaming route answer moves .forwarding)
  | stopped {log : List Entry} {route : Route} {answer : Provider.Answer}
      {moves : List Delivery.Move} {s}
      (begun : Begun d caller request fresh log route answer)
      (played : (d.session route fresh answer).play moves = some s) :
      Stands log (.streaming route answer moves .stopped)
  | broken {log : List Entry} {route : Route} {answer : Provider.Answer}
      {moves : List Delivery.Move} {s} {e : RelayError}
      (begun : Begun d caller request fresh log route answer)
      (played : (d.session route fresh answer).play moves = some s)
      (result : s.courier.result? = some (.error e)) :
      Stands log (.streaming route answer moves .ended)
  | billing {log : List Entry} {route : Route} {answer : Provider.Answer}
      {moves : List Delivery.Move} {s} {outcome : Outcome}
      (begun : Begun d caller request fresh log route answer)
      (played : (d.session route fresh answer).play moves = some s)
      (result : s.courier.result? = some (.ok outcome)) :
      Stands log (.streaming route answer moves (.billing (Dispatcher.bill route outcome.usage)))
  | billed {log : List Entry} {route : Route} {answer : Provider.Answer}
      {moves : List Delivery.Move} {s} {outcome : Outcome} {billed : Except RelayError Unit}
      (begun : Begun d caller request fresh log route answer)
      (played : (d.session route fresh answer).play moves = some s)
      (result : s.courier.result? = some (.ok outcome)) :
      Stands (log ++ [.recorded route outcome.usage billed]) (.streaming route answer moves .ended)

end Standing

/-- There is a task that is not over. -/
def Stage.isForwarding : Stage → Bool
  | streaming _ _ _ .forwarding | streaming _ _ _ (.billing _) => true
  | _ => false

/-- The call stands where its body and its log allow. -/
def Call.IsSound (d : Dispatcher) (c : Call) : Prop :=
  (∃ e, c.body.settle = .error e ∧ c.log = [] ∧ c.stage = .failed e) ∨
    ∃ request replaced, c.body.settle = .ok (request, replaced) ∧
      Stands d c.caller request c.fresh c.log c.stage

/-- A guard goes with whether its task is over. -/
def Guard.Fits (before after : Bool) : Guard → Prop
  | .acquired => before = false ∧ after = true
  | .kept => before = after
  | .dropped => before = true ∧ after = false

variable {d : Dispatcher} {caller : Caller} {request : Chat.Request} {fresh : Fresh}
  {log : List Entry} {c c' : Call} {guard : Guard}

/-- What is left of a plan is a stage to stand in. -/
theorem stands_ofPlan {p : Plan (Except RelayError Opening)}
    (h : Leads (d.begin caller request fresh).run log p) :
    Stands d caller request fresh log (Stage.ofPlan p).1 := by
  cases p with
  | step effect next => exact .opening h
  | done result =>
    cases result with
    | error e => exact .failed h
    | ok opening =>
      cases opening with
      | whole body usage => exact .whole h
      | stream route answer => exact .forwarding h rfl
      | waiting => exact .waiting h

/-- A guard is taken where a stream begins, and nowhere else on the way. -/
theorem fits_ofPlan (p : Plan (Except RelayError Opening)) :
    (Stage.ofPlan p).2.Fits false (Stage.ofPlan p).1.isForwarding := by
  cases p with
  | step effect next => exact rfl
  | done result =>
    cases result with
    | error e => exact rfl
    | ok opening =>
      cases opening with
      | whole body usage | waiting => exact rfl
      | stream route answer => exact ⟨rfl, rfl⟩

/-- A call that comes in stands where it may: at its first step, or at the failure to read its
body. -/
theorem start_isSound (d : Dispatcher) (caller : Caller) (body : StoredBody) (fresh : Fresh) :
    (Call.start d caller body fresh).1.IsSound d ∧
      (Call.start d caller body fresh).2.Fits false
        (Call.start d caller body fresh).1.stage.isForwarding := by
  rw [Call.start]
  cases h : body.settle with
  | error e => exact ⟨Or.inl ⟨e, h, rfl, rfl⟩, rfl⟩
  | ok settled =>
    obtain ⟨request, replaced⟩ := settled
    exact ⟨Or.inr ⟨request, replaced, h, stands_ofPlan (.refl _)⟩, fits_ofPlan _⟩

/-- An answer leads the plan one step on, or closes the bill of a stream. -/
theorem answered?_isSound {answer : (effect : Effect) → effect.Answer} (h : c.IsSound d)
    (hs : c.answered? answer = some (c', guard)) :
    c'.IsSound d ∧ guard.Fits c.stage.isForwarding c'.stage.isForwarding := by
  obtain ⟨caller, body, fresh, log, stage⟩ := c
  rcases h with ⟨e, -, -, rfl⟩ | ⟨request, replaced, hbody, h⟩
  · exact absurd hs (by simp [Call.answered?])
  · cases h with
    | opening leads =>
      obtain ⟨rfl, rfl⟩ := Prod.mk.inj (Option.some.inj hs)
      exact ⟨Or.inr ⟨request, replaced, hbody, stands_ofPlan (leads.snoc _)⟩, fits_ofPlan _⟩
    | billing begun played result =>
      obtain ⟨rfl, rfl⟩ := Prod.mk.inj (Option.some.inj hs)
      exact ⟨Or.inr ⟨request, replaced, hbody, .billed begun played result⟩, rfl, rfl⟩
    | _ => exact absurd hs (by simp [Call.answered?])

/-- A session that is over stays so, whatever its caller and its provider still do. -/
theorem play_snoc_ended {e : Delivery.EventDecoder} {start s s' : Delivery.Session e}
    {moves : List Delivery.Move} {m : Delivery.Move} {r : Except RelayError Outcome}
    (hp : start.play moves = some s) (hr : s.courier.result? = some r)
    (hp' : start.play (moves ++ [m]) = some s') : s'.courier.result? = some r := by
  rw [Delivery.Session.play_append, hp] at hp'
  obtain ⟨hc, -⟩ := Delivery.Session.ended_of_play (Delivery.Courier.stage_of_result? hr) hp'
  rw [hc, hr]

/-- A move is made on the session of a call that streams, and changes nothing else of it. -/
theorem moved?_eq {m : Delivery.Move} (hs : c.moved? d m = some (c', guard)) :
    ∃ route answer moves task s, c.stage = .streaming route answer moves task ∧
      (d.session route c.fresh answer).play (moves ++ [m]) = some s ∧
      c' = { c with stage := .streaming route answer (moves ++ [m]) task } ∧ guard = .kept := by
  rw [Call.moved?] at hs
  split at hs
  · exact absurd hs (by simp)
  · rename_i route answer moves task _ hstage
    split at hs
    · rename_i s hplay
      obtain ⟨rfl, rfl⟩ := Prod.mk.inj (Option.some.inj hs)
      exact ⟨route, answer, moves, task, s, hstage, hplay, rfl, rfl⟩
    · exact absurd hs (by simp)
  · exact absurd hs (by simp)

/-- A move keeps where the call stands, since a session that is over stays so. -/
theorem moved?_isSound {m : Delivery.Move} (h : c.IsSound d)
    (hs : c.moved? d m = some (c', guard)) :
    c'.IsSound d ∧ guard.Fits c.stage.isForwarding c'.stage.isForwarding := by
  obtain ⟨route, answer, moves, task, s', hstage, hplay, rfl, rfl⟩ := moved?_eq hs
  obtain ⟨caller, body, fresh, log, stage⟩ := c
  subst hstage
  rcases h with ⟨e, -, -, hfailed⟩ | ⟨request, replaced, hbody, h⟩
  · exact absurd hfailed (by simp)
  · cases h with
    | forwarding begun played =>
      exact ⟨Or.inr ⟨request, replaced, hbody, .forwarding begun hplay⟩, rfl⟩
    | stopped begun played =>
      exact ⟨Or.inr ⟨request, replaced, hbody, .stopped begun hplay⟩, rfl⟩
    | broken begun played result =>
      have hkept := play_snoc_ended played result hplay
      exact ⟨Or.inr ⟨request, replaced, hbody, .broken begun hplay hkept⟩, rfl⟩
    | billing begun played result =>
      have hkept := play_snoc_ended played result hplay
      exact ⟨Or.inr ⟨request, replaced, hbody, .billing begun hplay hkept⟩, rfl⟩
    | billed begun played result =>
      have hkept := play_snoc_ended played result hplay
      exact ⟨Or.inr ⟨request, replaced, hbody, .billed begun hplay hkept⟩, rfl⟩

/-- A task whose session is over is done if it ended badly, and has its bill to write if it ended
well. -/
theorem finished?_isSound (h : c.IsSound d) (hs : c.finished? d = some (c', guard)) :
    c'.IsSound d ∧ guard.Fits c.stage.isForwarding c'.stage.isForwarding := by
  obtain ⟨caller, body, fresh, log, stage⟩ := c
  rcases h with ⟨e, -, -, rfl⟩ | ⟨request, replaced, hbody, h⟩
  · exact absurd hs (by simp [Call.finished?])
  · cases h with
    | @forwarding _ route answer moves s begun played =>
      simp only [Call.finished?, played, Option.bind_some] at hs
      cases hr : s.courier.result? with
      | none => exact absurd hs (by simp [hr])
      | some r =>
        rw [hr] at hs
        cases r with
        | error e =>
          obtain ⟨rfl, rfl⟩ := Prod.mk.inj (Option.some.inj hs)
          exact ⟨Or.inr ⟨request, replaced, hbody, .broken begun played hr⟩, rfl, rfl⟩
        | ok outcome =>
          obtain ⟨rfl, rfl⟩ := Prod.mk.inj (Option.some.inj hs)
          exact ⟨Or.inr ⟨request, replaced, hbody, .billing begun played hr⟩, rfl⟩
    | _ => exact absurd hs (by simp [Call.finished?])

/-- A call can be stopped at any open step, while it waits, and while it streams. -/
theorem stopped?_isSound (h : c.IsSound d) (hs : c.stopped? = some (c', guard)) :
    c'.IsSound d ∧ guard.Fits c.stage.isForwarding c'.stage.isForwarding := by
  obtain ⟨caller, body, fresh, log, stage⟩ := c
  rcases h with ⟨e, -, -, rfl⟩ | ⟨request, replaced, hbody, h⟩
  · exact absurd hs (by simp [Call.stopped?])
  · cases h with
    | opening leads =>
      obtain ⟨rfl, rfl⟩ := Prod.mk.inj (Option.some.inj hs)
      exact ⟨Or.inr ⟨request, replaced, hbody, .abandoned leads⟩, rfl⟩
    | waiting leads =>
      obtain ⟨rfl, rfl⟩ := Prod.mk.inj (Option.some.inj hs)
      exact ⟨Or.inr ⟨request, replaced, hbody, .abandonedWaiting leads⟩, rfl⟩
    | forwarding begun played | billing begun played result =>
      obtain ⟨rfl, rfl⟩ := Prod.mk.inj (Option.some.inj hs)
      exact ⟨Or.inr ⟨request, replaced, hbody, .stopped begun played⟩, rfl, rfl⟩
    | _ => exact absurd hs (by simp [Call.stopped?])

/-! ## All calls

What happens to one call leaves the others, so soundness is kept call by call. The guards are
counted over all. -/

/-- All calls stand where they may, and the guards are counted. -/
structure IsSound (d : Dispatcher) (t : Traffic) : Prop where
  calls : ∀ c ∈ t.calls, c.IsSound d
  guards : t.activeStreams = UInt64.ofNat (t.calls.countP (·.stage.isForwarding))

/-- The count goes with the number of tasks, up and down, in words that wrap. -/
theorem count_of_fits {before after : Bool} {n m : Nat} (h : guard.Fits before after)
    (hm : m + (if before then 1 else 0) = n + (if after then 1 else 0)) :
    guard.count (UInt64.ofNat n) = UInt64.ofNat m := by
  cases guard with
  | acquired =>
    obtain ⟨rfl, rfl⟩ := h
    simp only [Bool.false_eq_true, if_false, if_true, Nat.add_zero] at hm
    rw [hm, UInt64.ofNat_add]
    rfl
  | kept =>
    cases h
    rw [Nat.add_right_cancel hm]
    rfl
  | dropped =>
    obtain ⟨rfl, rfl⟩ := h
    simp only [Bool.false_eq_true, if_false, if_true, Nat.add_zero] at hm
    rw [← hm, UInt64.ofNat_add]
    exact UInt64.add_sub_cancel _ _

variable {t t' : Traffic}

theorem isSound_call (h : t.IsSound d) (body : StoredBody) :
    IsSound d
      { calls := t.calls ++ [(Call.start d caller body fresh).1]
        activeStreams := (Call.start d caller body fresh).2.count t.activeStreams } := by
  obtain ⟨hnew, hfits⟩ := start_isSound d caller body fresh
  constructor
  · intro c hc
    rcases List.mem_append.mp hc with hc | hc
    · exact h.calls c hc
    · exact List.mem_singleton.mp hc ▸ hnew
  · rw [h.guards]
    refine count_of_fits hfits ?_
    rw [List.countP_append, List.countP_singleton]
    rfl

/-- If every change of a sound call keeps it sound and its guard fits, then changing one call keeps
the traffic sound. -/
theorem isSound_change? {i : Nat} {f : Call → Option (Call × Guard)}
    (hf : ∀ {c c' : Call} {guard : Guard}, c.IsSound d → f c = some (c', guard) →
      c'.IsSound d ∧ guard.Fits c.stage.isForwarding c'.stage.isForwarding)
    (h : t.IsSound d) (hc : t.change? i f = some t') : t'.IsSound d := by
  obtain ⟨c, hi, hc₁⟩ := Option.bind_eq_some_iff.mp hc
  obtain ⟨⟨c', guard⟩, hstep, hc₂⟩ := Option.bind_eq_some_iff.mp hc₁
  obtain ⟨hlt, rfl⟩ := List.getElem?_eq_some_iff.mp hi
  obtain ⟨hsound, hfits⟩ := hf (h.calls _ (List.getElem_mem hlt)) hstep
  rw [← Option.some.inj hc₂]
  constructor
  · intro x hx
    rcases List.mem_or_eq_of_mem_set hx with hx | rfl
    · exact h.calls x hx
    · exact hsound
  · rw [h.guards]
    refine count_of_fits hfits ?_
    -- The call that changes is one of those that are counted.
    have hcounted : (if t.calls[i].stage.isForwarding then 1 else 0)
        ≤ t.calls.countP (·.stage.isForwarding) := by
      split
      · rename_i hlive
        exact List.countP_pos_iff.mpr ⟨_, List.getElem_mem hlt, hlive⟩
      · exact Nat.zero_le _
    rw [List.countP_set hlt]
    omega

theorem IsSound.happen? (h : t.IsSound d) {happening : Happening}
    (hs : t.happen? d happening = some t') : t'.IsSound d := by
  cases happening with
  | call caller body fresh => exact Option.some.inj hs ▸ isSound_call h body
  | answered i answer => exact isSound_change? answered?_isSound h hs
  | moved i m => exact isSound_change? moved?_isSound h hs
  | finished i => exact isSound_change? finished?_isSound h hs
  | stopped i => exact isSound_change? stopped?_isSound h hs

/-- **Traffic is sound at every moment.** -/
theorem IsSound.after? (h : t.IsSound d) {happenings : List Happening}
    (ha : t.after? d happenings = some t') : t'.IsSound d := by
  induction happenings generalizing t with
  | nil => exact Option.some.inj ha ▸ h
  | cons happening rest ih =>
    obtain ⟨t₁, hs, hrest⟩ := Option.bind_eq_some_iff.mp ha
    exact ih (h.happen? hs) hrest

theorem isSound_idle (d : Dispatcher) : IsSound d {} :=
  ⟨fun _ hc => absurd hc List.not_mem_nil, rfl⟩

end Traffic

end ModelRelay
