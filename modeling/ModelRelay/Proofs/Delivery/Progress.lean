import ModelRelay.Proofs.Delivery.Script

/-!
# A courier in the middle of a stream

What a courier has still to send, what it will end with, and which phase it shows meanwhile. The
courier may be asked at any stage, with any items that are still to come; **its own steps change
neither answer**: what a step takes from the items it adds to the frames (`foretold_take`), and what
it hands over is what it had foretold first (`foretold_accepted`).

The answers are given by the stage. A courier that is sending has a goal behind its frames, and what
the goal leads to is what follows them; this is why there are lemmas for turning to a goal (`send`)
from which those for taking an item are put together.

Losing the caller is the step that has no such lemma: nothing is left to be sent then. The result
that it comes to is told by `result?_lost`.
-/

set_option autoImplicit false

namespace ModelRelay.Delivery

open Sse

namespace Courier

variable {d : EventDecoder}

/-- The frames that the courier will send if it reads some items after this. -/
def foretold (c : Courier d) (rest : List Item) : List Frame :=
  match c.stage with
  | .reading => d.script c.native c.state rest
  | .sending frame waiting .read => frame :: waiting ++ d.script c.native c.state rest
  | .sending frame waiting _ => frame :: waiting
  | .ended _ => []

/-- What the courier will end with if it reads some items after this. -/
def fate (c : Courier d) (rest : List Item) : Option (Except RelayError Outcome) :=
  match c.stage with
  | .reading | .sending _ _ .read => d.verdict c.promptTokens c.state c.text c.usage rest
  | .sending _ _ (.finish outcome) => some (.ok outcome)
  | .sending _ _ (.fail e) => some (.error e)
  | .ended result => some result

/-- The stream goes well so far. -/
def IsUnderWay (c : Courier d) : Prop :=
  c.phase = .awaitingFirstEvent ∨ c.phase = .forwarding

/-- The phase that is shown is that of the stage, and a failure is told in the last frame. -/
def IsCoherent (c : Courier d) : Prop :=
  match c.stage with
  | .reading | .sending _ _ .read | .sending _ _ (.finish _) => c.IsUnderWay
  | .sending _ waiting (.fail _) => c.phase = .failed ∧ waiting = []
  | .ended (.error _) => c.phase = .failed
  | .ended (.ok _) => c.phase = .done

/-! ## Turning to a goal

A courier sends some frames for a goal and then goes there. Where there is no frame it goes there at
once, and the two cases come to the same. -/

/-- What a goal adds to the frames on the way to it. -/
def Goal.script (native : Bool) (s : d.State) (rest : List Item) : Goal → List Frame
  | .read => d.script native s rest
  | .finish _ | .fail _ => []

/-- What a goal leads to. -/
def Goal.fate (c : Courier d) (rest : List Item) : Goal → Option (Except RelayError Outcome)
  | .read => d.verdict c.promptTokens c.state c.text c.usage rest
  | .finish outcome => some (.ok outcome)
  | .fail e => some (.error e)

/-- The courier may turn to a goal with some frames before it. -/
def Goal.Suits (c : Courier d) (frames : List Frame) : Goal → Prop
  | .read | .finish _ => c.IsUnderWay
  | .fail _ => c.phase = .failed ∧ frames.tail = []

theorem foretold_send (c : Courier d) (goal : Goal) (frames : List Frame) (rest : List Item) :
    (c.send goal frames).foretold rest = frames ++ Goal.script c.native c.state rest goal := by
  cases frames <;> cases goal <;> simp [send, foretold, Goal.script]

theorem fate_send (c : Courier d) (goal : Goal) (frames : List Frame) (rest : List Item) :
    (c.send goal frames).fate rest = Goal.fate c rest goal := by
  cases frames <;> cases goal <;> rfl

theorem isCoherent_send {c : Courier d} {goal : Goal} {frames : List Frame}
    (h : Goal.Suits c frames goal) : (c.send goal frames).IsCoherent := by
  cases frames with
  | cons frame waiting => cases goal <;> exact h
  | nil =>
    cases goal with
    | read => exact h
    | finish outcome => exact rfl
    | fail e => exact rfl

/-! ## Failing

A failure is one frame and one result, whatever is still to come. -/

theorem foretold_fail (c : Courier d) (e : RelayError) (rest : List Item) :
    (c.fail e).foretold rest = [Frame.ofError c.native e] := by
  rw [fail, foretold_send]
  rfl

theorem fate_fail (c : Courier d) (e : RelayError) (rest : List Item) :
    (c.fail e).fate rest = some (.error e) := by
  rw [fail, fate_send]
  rfl

/-! ## Taking an item

The same case analysis three times, for the frames, the result and the phase: an event may not be
understood, it may be the end signal, or it is one of many; and a body may break off or be over. -/

/-- **An item that is taken goes from what is to come to what is to be sent.** -/
theorem foretold_take {c : Courier d} (h : c.stage = .reading) (item : Item) (rest : List Item) :
    (c.take item).foretold rest = c.foretold (item :: rest) := by
  have hc : c.foretold (item :: rest) = d.script c.native c.state (item :: rest) := by
    rw [foretold, h]
  rw [hc]
  cases item with
  | event e =>
    rw [take, EventDecoder.script]
    cases hdec : d.decode c.state e with
    | error fault => exact foretold_fail c fault rest
    | ok r =>
      obtain ⟨s, x⟩ := r
      show (c.absorb s x).foretold rest = _
      cases hfin : x.finished with
      | true =>
        simp only [absorb, hfin, if_true]
        rw [foretold_send]
        exact List.append_nil _
      | false =>
        simp only [absorb, hfin, Bool.false_eq_true, if_false]
        rw [foretold_send]
        rfl
  | broken detail => exact foretold_fail c _ rest
  | finished => exact foretold_fail c _ rest

theorem fate_take {c : Courier d} (h : c.stage = .reading) (item : Item) (rest : List Item) :
    (c.take item).fate rest = c.fate (item :: rest) := by
  have hc : c.fate (item :: rest)
      = d.verdict c.promptTokens c.state c.text c.usage (item :: rest) := by
    rw [fate, h]
  rw [hc]
  cases item with
  | event e =>
    rw [take, EventDecoder.verdict]
    cases hdec : d.decode c.state e with
    | error fault => exact fate_fail c fault rest
    | ok r =>
      obtain ⟨s, x⟩ := r
      show (c.absorb s x).fate rest = _
      cases hfin : x.finished with
      | true =>
        simp only [absorb, hfin, if_true]
        rw [fate_send]
        rfl
      | false =>
        simp only [absorb, hfin, Bool.false_eq_true, if_false]
        rw [fate_send]
        rfl
  | broken detail => exact fate_fail c _ rest
  | finished => exact fate_fail c _ rest

theorem isCoherent_fail (c : Courier d) (e : RelayError) : (c.fail e).IsCoherent :=
  isCoherent_send ⟨rfl, rfl⟩

theorem isCoherent_take {c : Courier d} (h : c.stage = .reading) (hp : c.IsCoherent)
    (item : Item) : (c.take item).IsCoherent := by
  have hu : c.IsUnderWay := by
    rw [IsCoherent, h] at hp
    exact hp
  cases item with
  | event e =>
    rw [take]
    cases hdec : d.decode c.state e with
    | error fault => exact isCoherent_fail c fault
    | ok r =>
      obtain ⟨s, x⟩ := r
      show (c.absorb s x).IsCoherent
      cases hfin : x.finished with
      | true =>
        simp only [absorb, hfin, if_true]
        exact isCoherent_send hu
      | false =>
        simp only [absorb, hfin, Bool.false_eq_true, if_false]
        exact isCoherent_send hu
  | broken detail => exact isCoherent_fail c _
  | finished => exact isCoherent_fail c _

/-! ## A frame is accepted

The courier goes on to the next frame, or to its goal. The first frame of all changes the phase that
is shown. -/

section Sending

variable {c : Courier d} {frame : Frame} {waiting : List Frame} {goal : Goal}

theorem accepted_eq (h : c.stage = .sending frame waiting goal) :
    c.accepted
      = { c with
          phase := if c.phase = Phase.awaitingFirstEvent then .forwarding else c.phase }.send
            goal waiting := by
  simp only [accepted, h]

/-- **The frame that is accepted is the first that was foretold.** -/
theorem foretold_accepted (h : c.stage = .sending frame waiting goal) (rest : List Item) :
    c.foretold rest = frame :: c.accepted.foretold rest := by
  rw [accepted_eq h, foretold_send, foretold, h]
  cases goal with
  | read => exact List.cons_append
  | finish outcome => exact (congrArg _ (List.append_nil _)).symm
  | fail e => exact (congrArg _ (List.append_nil _)).symm

theorem fate_accepted (h : c.stage = .sending frame waiting goal) (rest : List Item) :
    c.accepted.fate rest = c.fate rest := by
  rw [accepted_eq h, fate_send, fate, h]
  cases goal <;> rfl

theorem isCoherent_accepted (h : c.stage = .sending frame waiting goal) (hp : c.IsCoherent) :
    c.accepted.IsCoherent := by
  rw [IsCoherent, h] at hp
  rw [accepted_eq h]
  refine isCoherent_send ?_
  cases goal with
  | read | finish outcome =>
    rcases hp with hp | hp
    · exact Or.inr (if_pos hp)
    · exact Or.inr (by rw [hp]; rfl)
  | fail e =>
    refine ⟨?_, by rw [hp.2]; rfl⟩
    show (if c.phase = .awaitingFirstEvent then _ else c.phase) = Phase.failed
    rw [hp.1]
    rfl

end Sending

/-! ## The caller is lost

All frames that are left are dropped, and the courier is over. -/

theorem isCoherent_lost (c : Courier d) (fault : CancelFault) : (c.lost fault).IsCoherent := by
  rw [lost]
  split <;> exact rfl

theorem stage_lost (c : Courier d) (fault : CancelFault) :
    ∃ e, (c.lost fault).stage = .ended (.error e) := by
  rw [lost]
  split <;> exact ⟨_, rfl⟩

/-- A failure that was being told stays the result; otherwise the loss is. -/
theorem result?_lost (c : Courier d) (fault : CancelFault) :
    (c.lost fault).result?
      = some (match c.stage with
          | .sending _ _ (.fail e) => .error e
          | _ => .error (.cancelled fault)) := rfl

/-! ## The result is in

A result is there only at the end, and the phase tells which kind it is. -/

theorem stage_of_result? {c : Courier d} {r : Except RelayError Outcome}
    (h : c.result? = some r) : c.stage = .ended r := by
  rw [result?] at h
  split at h
  · rename_i result hs
    rw [hs, Option.some.inj h]
  · exact absurd h (by simp)

theorem IsCoherent.phase_of_ok {c : Courier d} {outcome : Outcome} (h : c.IsCoherent)
    (hr : c.result? = some (.ok outcome)) : c.phase = .done := by
  rw [IsCoherent, stage_of_result? hr] at h
  exact h

theorem IsCoherent.phase_of_error {c : Courier d} {e : RelayError} (h : c.IsCoherent)
    (hr : c.result? = some (.error e)) : c.phase = .failed := by
  rw [IsCoherent, stage_of_result? hr] at h
  exact h

end Courier

end ModelRelay.Delivery
