import ModelRelay.Proofs.Delivery.Schedule
import ModelRelay.Proofs.Fallible

/-!
# How a stream can fail

A stream fails because its decoder does not take an event, because its items break off or end
without an end signal, or because the caller is lost. **There is no other way** (`onlyFails_run`):
what holds of these failures holds of whatever a session comes to.

The property is carried along a play as an invariant of the failure that the courier is telling of
or has come to. A step either brings one in, by taking an item or by losing the caller, or passes on
the one that is there.
-/

set_option autoImplicit false

namespace ModelRelay.Delivery

open Sse

/-- All that can go wrong in a stream has a property: what its decoder does not take, and what
becomes of its provider and of its caller. -/
structure EventDecoder.FailsBy (d : EventDecoder) (P : RelayError → Prop) : Prop where
  decode : ∀ s e, OnlyFails P (d.decode s e)
  stream : ∀ fault, P (.stream fault)
  cancelled : ∀ fault, P (.cancelled fault)

/-- What an item fails in has the property. -/
theorem EventDecoder.FailsBy.of_failure? {d : EventDecoder} {P : RelayError → Prop}
    (hd : d.FailsBy P) {s : d.State} {item : Item} {e : RelayError}
    (h : d.failure? s item = some e) : P e := by
  cases item with
  | event event =>
    rw [failure?] at h
    cases hdecode : d.decode s event with
    | ok decoded =>
      rw [hdecode] at h
      exact absurd h (by simp)
    | error fault =>
      rw [hdecode] at h
      exact Option.some.inj h ▸ hd.decode _ _ _ hdecode
  | broken | finished => exact Option.some.inj h ▸ hd.stream _

namespace Courier

variable {d : EventDecoder} {c : Courier d} {P : RelayError → Prop}

/-- The failure that a courier tells of or has come to, if any. -/
def failure? (c : Courier d) : Option RelayError :=
  match c.stage with
  | .sending _ _ (.fail e) => some e
  | .ended (.error e) => some e
  | _ => none

theorem failure?_send (c : Courier d) (goal : Goal) (frames : List Frame) :
    (c.send goal frames).failure? = match goal with
      | .fail e => some e
      | _ => none := by
  cases frames with
  | cons frame waiting => cases goal <;> rfl
  | nil => cases goal <;> rfl

theorem failure?_fail (c : Courier d) (e : RelayError) : (c.fail e).failure? = some e :=
  failure?_send _ _ _

theorem failure?_absorb (c : Courier d) (state : d.State) (decoded : Decoded) :
    (c.absorb state decoded).failure? = none := by
  rw [absorb]
  dsimp only
  split <;> exact failure?_send _ _ _

theorem failure?_accepted {frame : Frame} {waiting : List Frame} {goal : Goal}
    (h : c.stage = .sending frame waiting goal) : c.accepted.failure? = c.failure? := by
  rw [accepted_eq h, failure?_send, failure?, h]
  cases goal <;> rfl

/-- An item that is taken leads to a failure of the decoder or of the stream, or to none. -/
theorem failsBy_take (hd : d.FailsBy P) (item : Item) {e : RelayError}
    (h : (c.take item).failure? = some e) : P e := by
  cases item with
  | event event =>
    rw [take] at h
    cases hdecode : d.decode c.state event with
    | ok decoded =>
      rw [hdecode] at h
      exact absurd ((failure?_absorb ..).symm.trans h) (by simp)
    | error fault =>
      rw [hdecode] at h
      obtain rfl := Option.some.inj ((failure?_fail ..).symm.trans h)
      exact hd.decode _ _ _ hdecode
  | broken detail =>
    obtain rfl := Option.some.inj ((failure?_fail ..).symm.trans h)
    exact hd.stream _
  | finished =>
    obtain rfl := Option.some.inj ((failure?_fail ..).symm.trans h)
    exact hd.stream _

/-- A courier that loses its caller while it tells of a failure keeps that failure. -/
theorem failure?_lost (c : Courier d) (fault : CancelFault) :
    (c.lost fault).failure? = some (.cancelled fault) ∨
      (c.lost fault).failure? = c.failure? := by
  rw [lost, failure?, failure?]
  cases c.stage with
  | reading | ended result => exact .inl rfl
  | sending frame waiting goal =>
    cases goal with
    | read | finish outcome => exact .inl rfl
    | fail e => exact .inr rfl

end Courier

namespace Session

variable {d : EventDecoder} {s s' : Session d} {P : RelayError → Prop}

theorem failsBy_step {m : Move} (hd : d.FailsBy P) (h : ∀ e, s.courier.failure? = some e → P e)
    (hs : Step s m s') : ∀ e, s'.courier.failure? = some e → P e := by
  have hlost : ∀ fault e, (s.courier.lost fault).failure? = some e → P e := by
    intro fault e he
    obtain hfault | hkept := s.courier.failure?_lost fault
    · exact Option.some.inj (hfault.symm.trans he) ▸ hd.cancelled fault
    · exact h e (hkept.symm.trans he)
  cases hs with
  | arrive | receive | leave => exact h
  | read reading next here => exact fun e he => Courier.failsBy_take hd _ he
  | accept sending here room =>
    exact fun e he => h e ((Courier.failure?_accepted sending).symm.trans he)
  | expire | refuse | notice => exact hlost _

theorem failsBy_play {moves : List Move} (hd : d.FailsBy P)
    (h : ∀ e, s.courier.failure? = some e → P e) (hp : s.play moves = some s') :
    ∀ e, s'.courier.failure? = some e → P e := by
  induction moves generalizing s with
  | nil => exact Option.some.inj hp ▸ h
  | cons m moves ih =>
    obtain ⟨s₁, hm, hrest⟩ := play_cons_some hp
    exact ih (failsBy_step hd h (step_of_move? hm)) hrest

/-- **A stream fails the way its decoder does, or as a stream, or because it is cancelled.** -/
theorem onlyFails_run (hd : d.FailsBy P) (items : List Item) (native : Bool)
    (promptTokens : UInt32) (buffer patience : Nat) (caller : Caller) :
    OnlyFails P
      ((ofItems items native promptTokens buffer patience : Session d).run caller).result := by
  intro e he
  obtain ⟨moves, hplay⟩ := reaches_run (ofItems items native promptTokens buffer patience) caller
  have hkeeps : ∀ e, _ = some e → P e :=
    failsBy_play hd (fun e he => absurd he (by simp [ofItems, Courier.failure?])) hplay
  rw [result] at he
  cases hresult : ((ofItems items native promptTokens buffer patience : Session d).run
      caller).courier.result? with
  | none =>
    rw [hresult] at he
    exact Except.error.inj he ▸ hd.cancelled .left
  | some r =>
    rw [hresult] at he
    refine hkeeps e ?_
    rw [Courier.failure?, Courier.stage_of_result? hresult, Option.getD_some.symm.trans he]

end Session

end ModelRelay.Delivery
