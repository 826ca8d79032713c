import ModelRelay.Proofs.Delivery.Reading

/-!
# The text that a courier gathers

A courier adds up the text of what it reads, and a failure leaves it as it is. Where the stream ends
well the text is in its result; where it does not, only the courier has it. For a caller who keeps
reading **it is the text of the items, up to the first that ends the stream**
(`Session.FullyRead.text`), in every order of moves.

The argument is the one for frames and results, once more for the text: what the courier has and
what the items that are left will add is kept by every step in which nobody is lost. It is told
apart from them because a result has no text where the stream failed, and a caller is billed for it
all the same.
-/

set_option autoImplicit false

namespace ModelRelay.Delivery

open Sse

/-! ## The text of items

Another recursion on the items, which stops where the script and the verdict do. -/

namespace EventDecoder

variable (d : EventDecoder)

/-- The text that items add to what was gathered before. -/
def gathered (s : d.State) (text : String) : List Item → String
  | [] => text
  | .event e :: rest =>
    match d.decode s e with
    | .ok (s', x) => if x.finished then text ++ x.text else gathered s' (text ++ x.text) rest
    | .error _ => text
  | .broken _ :: _ | .finished :: _ => text

variable {d} {s s' : d.State} {text : String}

theorem gathered_of_hears {before : List Item} {told : List Decoded}
    (h : d.Hears s before told s') (text : String) (rest : List Item) :
    d.gathered s text (before ++ rest) = d.gathered s' (text ++ toldText told) rest := by
  induction h generalizing text with
  | nil s => rw [toldText_nil, String.append_empty]; rfl
  | cons hdec hfin _ ih =>
    rw [List.cons_append, gathered, hdec]
    simp only [hfin, Bool.false_eq_true, if_false]
    rw [ih, toldText_cons, String.append_assoc]

theorem gathered_of_end {e : Event} {x : Decoded} (hdec : d.decode s e = .ok (s', x))
    (hfin : x.finished = true) (rest : List Item) :
    d.gathered s text (.event e :: rest) = text ++ x.text := by
  rw [gathered, hdec]
  simp only [hfin, if_true]

theorem gathered_of_failure? {item : Item} {fault : RelayError}
    (h : d.failure? s item = some fault) (rest : List Item) :
    d.gathered s text (item :: rest) = text := by
  cases item with
  | event e =>
    rw [failure?] at h
    rw [gathered]
    cases hdec : d.decode s e with
    | ok r => rw [hdec] at h; exact absurd h (by simp)
    | error fault' => rfl
  | broken detail => rfl
  | finished => rfl

end EventDecoder

/-! ## The text of a courier

As for frames: what its goal leads to, and then its steps. -/

namespace Courier

variable {d : EventDecoder} {c : Courier d}

/-- The text that the courier will have if it reads some items after this. -/
def gathers (c : Courier d) (rest : List Item) : String :=
  match c.stage with
  | .reading | .sending _ _ .read => d.gathered c.state c.text rest
  | .sending _ _ (.finish _) | .sending _ _ (.fail _) | .ended _ => c.text

/-- What a goal leads to. -/
def Goal.gathers (c : Courier d) (rest : List Item) : Goal → String
  | .read => d.gathered c.state c.text rest
  | .finish _ | .fail _ => c.text

theorem gathers_send (c : Courier d) (goal : Goal) (frames : List Frame) (rest : List Item) :
    (c.send goal frames).gathers rest = Goal.gathers c rest goal := by
  cases frames <;> cases goal <;> rfl

theorem gathers_fail (c : Courier d) (e : RelayError) (rest : List Item) :
    (c.fail e).gathers rest = c.text := by
  rw [fail, gathers_send]
  rfl

theorem gathers_take (h : c.stage = .reading) (item : Item) (rest : List Item) :
    (c.take item).gathers rest = c.gathers (item :: rest) := by
  have hc : c.gathers (item :: rest) = d.gathered c.state c.text (item :: rest) := by
    rw [gathers, h]
  rw [hc]
  cases item with
  | event e =>
    rw [take, EventDecoder.gathered]
    cases hdec : d.decode c.state e with
    | error fault => exact gathers_fail c fault rest
    | ok r =>
      obtain ⟨s, x⟩ := r
      show (c.absorb s x).gathers rest = _
      cases hfin : x.finished with
      | true =>
        simp only [absorb, hfin, if_true]
        rw [gathers_send]
        rfl
      | false =>
        simp only [absorb, hfin, Bool.false_eq_true, if_false]
        rw [gathers_send]
        rfl
  | broken detail => exact gathers_fail c _ rest
  | finished => exact gathers_fail c _ rest

theorem gathers_accepted {frame : Frame} {waiting : List Frame} {goal : Goal}
    (h : c.stage = .sending frame waiting goal) (rest : List Item) :
    c.accepted.gathers rest = c.gathers rest := by
  rw [accepted_eq h, gathers_send, gathers, h]
  cases goal <;> rfl

end Courier

/-! ## The text of a session

With the items that are there, and with those that are still to come. -/

namespace Session

variable {d : EventDecoder} {s s' : Session d} {m : Move}

/-- What a step reads it takes from the items that are there, so with them the text is the same. -/
theorem gathers_step (hs : Step s m s') (hm : m.loss? s.patience = none) (more : List Item) :
    s'.courier.gathers (s'.incoming ++ more)
      = s.courier.gathers (s.incoming ++ (m.arrival ++ more)) := by
  cases hs with
  | arrive item => exact congrArg _ (List.append_assoc _ _ _)
  | @read item rest reading next here =>
    rw [next]
    exact Courier.gathers_take reading item (rest ++ more)
  | accept sending here room => exact Courier.gathers_accepted sending _
  | receive next => rfl
  | leave => rfl
  | expire | refuse | notice => exact absurd hm (by simp [Move.loss?])

theorem gathers_play {moves : List Move} (ho : s.mailbox.isOpen = true)
    (hp : s.play moves = some s') (hleave : .leave ∉ moves) (hexpire : .expire ∉ moves)
    (more : List Item) :
    s'.courier.gathers (s'.incoming ++ more)
      = s.courier.gathers (s.incoming ++ (Move.arrivals moves ++ more)) := by
  induction moves generalizing s more with
  | nil =>
    rw [play_nil] at hp
    rw [← Option.some.inj hp]
    rfl
  | cons m moves ih =>
    obtain ⟨s₁, hm, hrest⟩ := play_cons_some hp
    have hs := step_of_move? hm
    obtain ⟨hkept, ho₁⟩ := keeps_of_staying hs ho (fun h => hleave (h ▸ List.mem_cons_self))
      fun h => hexpire (h ▸ List.mem_cons_self)
    rw [ih ho₁ hrest (fun h => hleave (List.mem_cons_of_mem _ h))
      (fun h => hexpire (List.mem_cons_of_mem _ h)), gathers_step hs hkept, Move.arrivals_cons,
      List.append_assoc]

/-- **At the end the courier has the text of all that came.** -/
theorem FullyRead.text {items : List Item} {native : Bool} {promptTokens : UInt32}
    {buffer patience : Nat} {moves : List Move} {fin : Session d}
    (h : FullyRead (.ofItems items native promptTokens buffer patience) moves fin) :
    fin.courier.text = d.gathered d.start "" (items ++ Move.arrivals moves) := by
  have hplay := gathers_play rfl h.played h.stays h.inTime []
  obtain ⟨r, hended⟩ := h.ended
  rw [Courier.gathers, hended, List.append_nil (Move.arrivals moves)] at hplay
  exact hplay

end Session

end ModelRelay.Delivery
