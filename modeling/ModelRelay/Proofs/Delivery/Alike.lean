import ModelRelay.Proofs.Delivery.Schedule

/-!
# Streams that a caller cannot tell apart

Two providers send the same items up to a point, and there one item each that fails; the caller is
told of the two failures in the same words. **Then the caller receives the same frames**, in every
order of moves (`alike_play`) and in the run of any caller (`received_run_alike`): which of the two
failed, and what it sent behind the failure, does not show.

The sessions go in lockstep. As long as what is ahead agrees their couriers are equal; behind the
failure only the results differ, and nothing reads what is still ahead. The relation is kept by
every move, and a move can be made in one session exactly if it can be made in the other, so that
the two sessions are related by a bisimulation whose only observations are the frames.

A run takes more than that. Its loop goes by the number of items, and behind the failure the two
providers may have sent different numbers of them. So the loops are compared turn by turn as long as
the couriers read, and once they do not, the turns that are left do nothing on either side.
-/

set_option autoImplicit false

namespace ModelRelay.Delivery

open Sse

/-! ## Items

The relation follows the decoder: it says nothing of items that the decoder does not come to. -/

/-- Two lists of items that come to the same frames: they agree item by item as long as there is
something to hear, and where they differ both fail, in failures that are told alike. -/
inductive EventDecoder.Alike (d : EventDecoder) (native : Bool) :
    d.State → List Item → List Item → Prop where
  | nil (s : d.State) : Alike d native s [] []
  | cons {s : d.State} {item : Item} {items₁ items₂ : List Item}
      (heard : ∀ e s' x, item = .event e → d.decode s e = .ok (s', x) → x.finished = false →
        Alike d native s' items₁ items₂) :
      Alike d native s (item :: items₁) (item :: items₂)
  | fail {s : d.State} {item₁ item₂ : Item} {items₁ items₂ : List Item} {e₁ e₂ : RelayError}
      (failure₁ : d.failure? s item₁ = some e₁) (failure₂ : d.failure? s item₂ = some e₂)
      (told : Frame.ofError native e₁ = Frame.ofError native e₂) :
      Alike d native s (item₁ :: items₁) (item₂ :: items₂)

namespace EventDecoder

variable {d : EventDecoder} {native : Bool}

theorem alike_of_agree {s : d.State} {before items₁ items₂ : List Item}
    (h : ∀ told s', d.Hears s before told s' → d.Alike native s' items₁ items₂) :
    d.Alike native s (before ++ items₁) (before ++ items₂) := by
  induction before generalizing s with
  | nil => exact h [] s (.nil s)
  | cons item rest ih =>
    refine .cons fun e s' x hitem hdecode hgoes => ih fun told s'' hears => ?_
    subst hitem
    exact h (x :: told) s'' (.cons hdecode hgoes hears)

/-- One list is empty only with the other. -/
theorem Alike.nil_iff {s : d.State} {items₁ items₂ : List Item}
    (h : d.Alike native s items₁ items₂) : items₁ = [] ↔ items₂ = [] := by
  cases h <;> simp

theorem Alike.concat {s : d.State} {items₁ items₂ : List Item}
    (h : d.Alike native s items₁ items₂) (item : Item) :
    d.Alike native s (items₁ ++ [item]) (items₂ ++ [item]) := by
  induction h with
  | nil s => exact .cons fun _ s' _ _ _ _ => .nil s'
  | cons _ ih => exact .cons ih
  | fail failure₁ failure₂ told => exact .fail failure₁ failure₂ told

end EventDecoder

/-! ## Couriers

On the way two couriers that are alike are equal, but for the failure that they may be telling of.
-/

namespace Courier

variable {d : EventDecoder} {native : Bool}

/-- Two couriers on the way, each with what is ahead of it. -/
inductive Alike (native : Bool) (c₁ c₂ : Courier d) (items₁ items₂ : List Item) : Prop where
  | reading (same : c₁ = c₂) (tells : c₁.native = native) (stage : c₁.stage = .reading)
      (ahead : d.Alike native c₁.state items₁ items₂)
  | sending {frame : Frame} {waiting : List Frame} {goal : Goal} (same : c₁ = c₂)
      (tells : c₁.native = native) (stage : c₁.stage = .sending frame waiting goal)
      (ahead : goal = .read → d.Alike native c₁.state items₁ items₂)
  | failing {frame : Frame} {waiting : List Frame} {e₁ e₂ : RelayError}
      (stage₁ : c₁.stage = .sending frame waiting (.fail e₁))
      (stage₂ : c₂.stage = .sending frame waiting (.fail e₂))
  | ended {r₁ r₂ : Except RelayError Outcome} (stage₁ : c₁.stage = .ended r₁)
      (stage₂ : c₂.stage = .ended r₂)

theorem take_of_failure? {c : Courier d} {item : Item} {e : RelayError}
    (h : d.failure? c.state item = some e) : c.take item = c.fail e := by
  cases item with
  | event event =>
    rw [EventDecoder.failure?] at h
    rw [take]
    cases hdecode : d.decode c.state event with
    | ok decoded => rw [hdecode] at h; exact absurd h (by simp)
    | error fault => rw [hdecode] at h; rw [Option.some.inj h]
  | broken detail => rw [take, Option.some.inj h]
  | finished => rw [take, Option.some.inj h]

/-- Frames that are sent for a goal leave a courier like itself. -/
theorem alike_send {c : Courier d} (goal : Goal) (frames : List Frame) {items₁ items₂ : List Item}
    (tells : c.native = native) (ahead : goal = .read → d.Alike native c.state items₁ items₂) :
    Alike native (c.send goal frames) (c.send goal frames) items₁ items₂ := by
  cases frames with
  | cons frame waiting => exact .sending rfl tells rfl ahead
  | nil =>
    cases goal with
    | read => exact .reading rfl tells rfl (ahead rfl)
    | finish outcome | fail e => exact .ended rfl rfl

theorem alike_take_same {c : Courier d} (tells : c.native = native) {item : Item}
    {items₁ items₂ : List Item}
    (heard : ∀ e s' x, item = .event e → d.decode c.state e = .ok (s', x) → x.finished = false →
      d.Alike native s' items₁ items₂) :
    Alike native (c.take item) (c.take item) items₁ items₂ := by
  cases hfailure : d.failure? c.state item with
  | some e =>
    rw [take_of_failure? hfailure]
    exact alike_send _ _ tells fun h => by cases h
  | none =>
    cases item with
    | broken | finished => exact absurd hfailure (by simp [EventDecoder.failure?])
    | event e =>
      rw [EventDecoder.failure?] at hfailure
      cases hdecode : d.decode c.state e with
      | error fault => rw [hdecode] at hfailure; exact absurd hfailure (by simp)
      | ok decoded =>
        obtain ⟨s', x⟩ := decoded
        rw [take, hdecode]
        dsimp only [absorb]
        cases hfinished : x.finished with
        | true => exact alike_send _ _ tells fun h => by cases h
        | false => exact alike_send _ _ tells fun _ => heard e s' x rfl hdecode hfinished

/-- **Taking the next item keeps two couriers alike**, and either both have one or neither has. -/
theorem alike_take {c : Courier d} (tells : c.native = native) {item₁ item₂ : Item}
    {items₁ items₂ : List Item} (h : d.Alike native c.state (item₁ :: items₁) (item₂ :: items₂)) :
    Alike native (c.take item₁) (c.take item₂) items₁ items₂ := by
  cases h with
  | cons heard => exact alike_take_same tells heard
  | fail failure₁ failure₂ told =>
    rw [take_of_failure? failure₁, take_of_failure? failure₂]
    rw [← tells] at told
    exact .failing rfl (congrArg (Stage.sending · [] (.fail _)) told.symm)

variable {c₁ c₂ : Courier d} {items₁ items₂ : List Item}

theorem alike_accepted (h : Alike native c₁ c₂ items₁ items₂) {frame : Frame}
    {waiting : List Frame} {goal : Goal} (hstage : c₁.stage = .sending frame waiting goal) :
    Alike native c₁.accepted c₂.accepted items₁ items₂ := by
  cases h with
  | reading _ _ stage => exact absurd (stage.symm.trans hstage) (by simp)
  | ended stage₁ => exact absurd (stage₁.symm.trans hstage) (by simp)
  | sending same tells stage ahead =>
    obtain rfl := same
    rw [accepted_eq stage]
    exact alike_send _ _ tells ahead
  | @failing frame waiting _ _ stage₁ stage₂ =>
    rw [accepted_eq stage₁, accepted_eq stage₂]
    cases waiting with
    | cons next waiting => exact .failing rfl rfl
    | nil => exact .ended rfl rfl

/-- Couriers that have lost their caller are alike, whatever they were doing. -/
theorem alike_lost (c₁ c₂ : Courier d) (fault₁ fault₂ : CancelFault) (items₁ items₂ : List Item) :
    Alike native (c₁.lost fault₁) (c₂.lost fault₂) items₁ items₂ := by
  obtain ⟨e₁, stage₁⟩ := stage_lost c₁ fault₁
  obtain ⟨e₂, stage₂⟩ := stage_lost c₂ fault₂
  exact .ended stage₁ stage₂

theorem Alike.concat (h : Alike native c₁ c₂ items₁ items₂) (item : Item) :
    Alike native c₁ c₂ (items₁ ++ [item]) (items₂ ++ [item]) := by
  cases h with
  | reading same tells stage ahead => exact .reading same tells stage (ahead.concat item)
  | sending same tells stage ahead =>
    exact .sending same tells stage fun h => (ahead h).concat item
  | failing stage₁ stage₂ => exact .failing stage₁ stage₂
  | ended stage₁ stage₂ => exact .ended stage₁ stage₂

/-- The frame that is being sent. -/
def frame? (c : Courier d) : Option Frame :=
  match c.stage with
  | .sending frame _ _ => some frame
  | _ => none

theorem stage_of_frame? {c : Courier d} {frame : Frame} (h : c.frame? = some frame) :
    ∃ waiting goal, c.stage = .sending frame waiting goal := by
  rw [frame?] at h
  split at h
  · next hstage => exact ⟨_, _, Option.some.inj h ▸ hstage⟩
  · exact absurd h (by simp)

theorem Alike.frame?_eq (h : Alike native c₁ c₂ items₁ items₂) : c₁.frame? = c₂.frame? := by
  cases h with
  | reading same | sending same => rw [same]
  | failing stage₁ stage₂ => rw [frame?, frame?, stage₁, stage₂]
  | ended stage₁ stage₂ => rw [frame?, frame?, stage₁, stage₂]

theorem Alike.reading_iff (h : Alike native c₁ c₂ items₁ items₂) :
    c₁.stage = .reading ↔ c₂.stage = .reading := by
  cases h with
  | reading same | sending same => rw [same]
  | failing stage₁ stage₂ => simp [stage₁, stage₂]
  | ended stage₁ stage₂ => simp [stage₁, stage₂]

/-- Couriers that are reading are equal, and what is ahead of them is alike. -/
theorem Alike.of_reading (h : Alike native c₁ c₂ items₁ items₂) (hstage : c₁.stage = .reading) :
    c₁ = c₂ ∧ d.Alike native c₁.state items₁ items₂ := by
  cases h with
  | reading same _ _ ahead => exact ⟨same, ahead⟩
  | sending _ _ stage => exact absurd (stage.symm.trans hstage) (by simp)
  | failing stage₁ | ended stage₁ => exact absurd (stage₁.symm.trans hstage) (by simp)

theorem Alike.pending_eq (h : Alike native c₁ c₂ items₁ items₂) : c₁.pending = c₂.pending := by
  cases h with
  | reading same | sending same => rw [same]
  | failing stage₁ stage₂ => rw [pending, pending, stage₁, stage₂]
  | ended stage₁ stage₂ => rw [pending, pending, stage₁, stage₂]

end Courier

/-! ## Sessions

The mailbox and what was received are the same, so that whatever the caller does it can do in both.
-/

namespace Session

variable {d : EventDecoder} {native : Bool} {s₁ s₂ s₁' s₂' : Session d}

/-- Two sessions of which the caller sees the same. -/
structure Alike (native : Bool) (s₁ s₂ : Session d) : Prop where
  mailbox : s₁.mailbox = s₂.mailbox
  received : s₁.received = s₂.received
  couriers : Courier.Alike native s₁.courier s₂.courier s₁.incoming s₂.incoming

theorem alike_read (mailbox : s₁.mailbox = s₂.mailbox) (received : s₁.received = s₂.received)
    (couriers : Courier.Alike native s₁.courier s₂.courier s₁.incoming s₂.incoming) :
    Option.Rel (Alike native) (s₁.move? .read) (s₂.move? .read) := by
  simp only [move?]
  cases couriers with
  | sending same _ stage =>
    rw [← same, stage]
    exact .none
  | failing stage₁ stage₂ =>
    rw [stage₁, stage₂]
    exact .none
  | ended stage₁ stage₂ =>
    rw [stage₁, stage₂]
    exact .none
  | reading same tells stage ahead =>
    -- Both couriers read, or neither does: the items ahead are of one length up to the failure, and
    -- the mailboxes are equal.
    rw [← same, stage, ← mailbox]
    generalize s₁.incoming = items₁ at ahead ⊢
    generalize s₂.incoming = items₂ at ahead ⊢
    cases items₁ with
    | nil =>
      cases ahead
      exact .none
    | cons item₁ items₁ =>
    cases items₂ with
    | nil => cases ahead
    | cons item₂ items₂ =>
    cases s₁.mailbox.isOpen with
    | false => exact .none
    | true => exact .some ⟨rfl, received, Courier.alike_take tells ahead⟩

theorem alike_notice (mailbox : s₁.mailbox = s₂.mailbox) (received : s₁.received = s₂.received)
    (couriers : Courier.Alike native s₁.courier s₂.courier s₁.incoming s₂.incoming) :
    Option.Rel (Alike native) (s₁.move? .notice) (s₂.move? .notice) := by
  simp only [move?]
  cases couriers with
  | sending same _ stage =>
    rw [← same, stage]
    exact .none
  | failing stage₁ stage₂ =>
    rw [stage₁, stage₂]
    exact .none
  | ended stage₁ stage₂ =>
    rw [stage₁, stage₂]
    exact .none
  | reading same _ stage =>
    rw [← same, stage, ← mailbox]
    cases s₁.mailbox.isOpen with
    | false => exact .some ⟨rfl, received, Courier.alike_lost _ _ _ _ _ _⟩
    | true => exact .none

theorem move?_accept (s : Session d) :
    s.move? .accept = s.courier.frame?.bind fun frame =>
      match s.mailbox.send frame with
      | .accepted mailbox => some { s with mailbox, courier := s.courier.accepted }
      | _ => none := by
  rw [move?, Courier.frame?]
  cases s.courier.stage <;> rfl

theorem move?_expire (s : Session d) :
    s.move? .expire = s.courier.frame?.bind fun frame =>
      match s.mailbox.send frame with
      | .expired => some { s with courier := s.courier.lost (.stalled s.patience) }
      | _ => none := by
  rw [move?, Courier.frame?]
  cases s.courier.stage <;> rfl

theorem move?_refuse (s : Session d) :
    s.move? .refuse = s.courier.frame?.bind fun frame =>
      match s.mailbox.send frame with
      | .refused => some { s with courier := s.courier.lost .left }
      | _ => none := by
  rw [move?, Courier.frame?]
  cases s.courier.stage <;> rfl

/-- **Two sessions that are alike can make the same moves, and are alike after each.** -/
theorem alike_move? (h : Alike native s₁ s₂) (m : Move) :
    Option.Rel (Alike native) (s₁.move? m) (s₂.move? m) := by
  obtain ⟨mailbox, received, couriers⟩ := h
  cases m with
  | arrive item => exact .some ⟨mailbox, received, couriers.concat item⟩
  | read => exact alike_read mailbox received couriers
  | accept =>
    rw [move?_accept, move?_accept, ← couriers.frame?_eq, ← mailbox]
    cases hframe : s₁.courier.frame? with
    | none => exact .none
    | some frame =>
      obtain ⟨waiting, goal, hstage⟩ := Courier.stage_of_frame? hframe
      dsimp only [Option.bind_some]
      cases s₁.mailbox.send frame with
      | accepted mailbox => exact .some ⟨rfl, received, Courier.alike_accepted couriers hstage⟩
      | expired | refused => exact .none
  | expire =>
    rw [move?_expire, move?_expire, ← couriers.frame?_eq, ← mailbox]
    cases s₁.courier.frame? with
    | none => exact .none
    | some frame =>
      dsimp only [Option.bind_some]
      cases s₁.mailbox.send frame with
      | expired => exact .some ⟨rfl, received, Courier.alike_lost _ _ _ _ _ _⟩
      | accepted | refused => exact .none
  | refuse =>
    rw [move?_refuse, move?_refuse, ← couriers.frame?_eq, ← mailbox]
    cases s₁.courier.frame? with
    | none => exact .none
    | some frame =>
      dsimp only [Option.bind_some]
      cases s₁.mailbox.send frame with
      | refused => exact .some ⟨rfl, received, Courier.alike_lost _ _ _ _ _ _⟩
      | accepted | expired => exact .none
  | notice => exact alike_notice mailbox received couriers
  | receive =>
    simp only [move?, ← mailbox, ← received]
    cases s₁.mailbox.receive? with
    | none => exact .none
    | some taken => exact .some ⟨rfl, rfl, couriers⟩
  | leave => exact .some ⟨congrArg Mailbox.close mailbox, received, couriers⟩

/-- **Every order of moves shows the caller the same.** -/
theorem alike_play (h : Alike native s₁ s₂) (moves : List Move) :
    Option.Rel (Alike native) (s₁.play moves) (s₂.play moves) := by
  induction moves generalizing s₁ s₂ with
  | nil => exact .some h
  | cons m moves ih =>
    have hmove := alike_move? h m
    rw [play_cons, play_cons]
    generalize s₁.move? m = after₁ at hmove
    generalize s₂.move? m = after₂ at hmove
    cases hmove with
    | none => exact .none
    | some h' => exact ih h'

/-! ## Runs

The caller of a run decides by what is in its mailbox, and the courier by its stage; both are the
same in sessions that are alike. A run takes as many turns as there are items, and these are not as
many in both; but behind the failure no turn does anything. -/

theorem tryMoves_cons (s : Session d) (m : Move) (moves : List Move) :
    s.tryMoves (m :: moves) = (s.move? m).getD (s.tryMoves moves) := by
  rw [tryMoves, List.findSome?_cons, tryMoves]
  cases s.move? m <;> rfl

theorem alike_tryMoves (h : Alike native s₁ s₂) (moves : List Move) :
    Alike native (s₁.tryMoves moves) (s₂.tryMoves moves) := by
  induction moves with
  | nil => exact h
  | cons m moves ih =>
    have hmove := alike_move? h m
    rw [tryMoves_cons, tryMoves_cons]
    generalize s₁.move? m = after₁ at hmove
    generalize s₂.move? m = after₂ at hmove
    cases hmove with
    | none => exact ih
    | some h' => exact h'

/-- Two sessions that are alike, with a caller in one state. -/
def AlikeWith (native : Bool) (a b : Session d × Caller) : Prop :=
  Alike native a.1 b.1 ∧ a.2 = b.2

/-- The session in which the caller has taken some frames out. -/
def afterReading (s : Session d) (count : Nat) : Session d :=
  { s with
    mailbox := (s.mailbox.receiveUpTo count).2
    received := s.received ++ (s.mailbox.receiveUpTo count).1 }

theorem Alike.afterReading (h : Alike native s₁ s₂) (count : Nat) :
    Alike native (s₁.afterReading count) (s₂.afterReading count) := by
  obtain ⟨mailbox, received, couriers⟩ := h
  refine ⟨?_, ?_, couriers⟩
  · rw [Session.afterReading, Session.afterReading, mailbox]
  · rw [Session.afterReading, Session.afterReading, mailbox, received]

/-- The caller's turn is settled by how much is buffered. -/
theorem callerTurn_eq (s : Session d) (c : Caller) :
    s.callerTurn c =
      let count := c.takes s.mailbox.queue.length
      let c' := c.afterReading count
      if c'.isDone && !c'.stays then ((s.afterReading count).tryMoves [.leave], c')
      else (s.afterReading count, c') := rfl

theorem alike_callerTurn (h : Alike native s₁ s₂) (c : Caller) :
    AlikeWith native (s₁.callerTurn c) (s₂.callerTurn c) := by
  rw [callerTurn_eq, callerTurn_eq, ← h.mailbox]
  have hread := h.afterReading (c.takes s₁.mailbox.queue.length)
  dsimp only
  split
  · exact ⟨alike_tryMoves hread [.leave], rfl⟩
  · exact ⟨hread, rfl⟩

theorem alike_flush (fuel : Nat) (h : Alike native s₁ s₂) (c : Caller) :
    AlikeWith native (flush fuel s₁ c) (flush fuel s₂ c) := by
  induction fuel generalizing s₁ s₂ c with
  | zero => exact ⟨h, rfl⟩
  | succ fuel ih =>
    rw [flush, flush, ← h.couriers.pending_eq, ← h.mailbox]
    split
    · exact ⟨h, rfl⟩
    · have hturn : AlikeWith native (if s₁.mailbox.isFull then s₁.callerTurn c else (s₁, c))
          (if s₁.mailbox.isFull then s₂.callerTurn c else (s₂, c)) := by
        split
        · exact alike_callerTurn h c
        · exact ⟨h, rfl⟩
      generalize (if s₁.mailbox.isFull then s₁.callerTurn c else (s₁, c)) = turn₁ at hturn ⊢
      generalize (if s₁.mailbox.isFull then s₂.callerTurn c else (s₂, c)) = turn₂ at hturn ⊢
      obtain ⟨hs, hc⟩ := hturn
      dsimp only
      rw [hc]
      exact ih (alike_tryMoves hs _) _

theorem alike_endInSilence (h : Alike native s₁ s₂) (c : Caller) :
    AlikeWith native (s₁.endInSilence c) (s₂.endInSilence c) := by
  rw [endInSilence, endInSilence]
  cases h.couriers with
  | sending same _ stage =>
    rw [← same, stage]
    exact ⟨h, rfl⟩
  | failing stage₁ stage₂ =>
    rw [stage₁, stage₂]
    exact ⟨h, rfl⟩
  | ended stage₁ stage₂ =>
    rw [stage₁, stage₂]
    exact ⟨h, rfl⟩
  | reading same _ stage =>
    rw [← same, stage]
    obtain ⟨hs, hc⟩ := alike_callerTurn h c
    generalize s₁.callerTurn c = turn₁ at hs hc ⊢
    generalize s₂.callerTurn c = turn₂ at hs hc ⊢
    obtain ⟨t₁, c₁⟩ := turn₁
    obtain ⟨t₂, c₂⟩ := turn₂
    -- What is buffered counts as received before the caller leaves.
    have hreceived : t₁.received ++ t₁.mailbox.queue = t₂.received ++ t₂.mailbox.queue := by
      rw [hs.received, hs.mailbox]
    have hbuffered : Alike native { t₁ with received := t₁.received ++ t₁.mailbox.queue }
        { t₂ with received := t₂.received ++ t₂.mailbox.queue } :=
      ⟨hs.mailbox, hreceived, hs.couriers⟩
    exact ⟨alike_tryMoves (alike_tryMoves hbuffered _) _, hc⟩

/-- A courier that is not reading takes no more turns. -/
theorem readAll_of_stage {s : Session d} (hstage : s.courier.stage ≠ .reading) (fuel : Nat)
    (c : Caller) : readAll fuel s c = (s, c) := by
  cases fuel with
  | zero =>
    rw [readAll, endInSilence]
    split
    · next h => exact absurd h hstage
    · rfl
  | succ fuel =>
    rw [readAll]
    split
    · next h => exact absurd h hstage
    · rfl

theorem incoming_callerTurn (s : Session d) (c : Caller) :
    (s.callerTurn c).1.incoming = s.incoming := by
  simp only [callerTurn]
  split <;> rfl

/-- Nothing is read while frames are being sent. -/
theorem incoming_tryMoves (s : Session d) :
    (s.tryMoves [.accept, .refuse, .expire]).incoming = s.incoming := by
  rw [tryMoves]
  cases h : [Move.accept, .refuse, .expire].findSome? s.move? with
  | none => rfl
  | some s' =>
    obtain ⟨m, hm, hmove⟩ := List.exists_of_findSome?_eq_some h
    have hstep := step_of_move? hmove
    simp only [List.mem_cons, List.not_mem_nil, or_false] at hm
    rcases hm with rfl | rfl | rfl <;> cases hstep <;> rfl

theorem incoming_flush (fuel : Nat) (s : Session d) (c : Caller) :
    (flush fuel s c).1.incoming = s.incoming := by
  induction fuel generalizing s c with
  | zero => rfl
  | succ fuel ih =>
    rw [flush]
    split
    · rfl
    · have hturn : (if s.mailbox.isFull then s.callerTurn c else (s, c)).1.incoming
          = s.incoming := by
        split
        · exact incoming_callerTurn s c
        · rfl
      generalize (if s.mailbox.isFull then s.callerTurn c else (s, c)) = turn at hturn ⊢
      rw [ih, incoming_tryMoves, hturn]

/-- A turn in which the courier is reading again has read one item. -/
theorem incoming_turn {s : Session d} {c : Caller} {item : Item} {rest : List Item}
    (hstage : s.courier.stage = .reading) (hnext : s.incoming = item :: rest)
    (hagain : ((s.tryMoves [.notice, .read]).flush
      (s.tryMoves [.notice, .read]).courier.pending c).1.courier.stage = .reading) :
    ((s.tryMoves [.notice, .read]).flush
      (s.tryMoves [.notice, .read]).courier.pending c).1.incoming = rest := by
  cases hopen : s.mailbox.isOpen with
  | true =>
    have hread : s.tryMoves [.notice, .read]
        = { s with incoming := rest, courier := s.courier.take item } := by
      simp [tryMoves, move?, hstage, hnext, hopen]
    rw [incoming_flush, hread]
  | false =>
    -- A courier that notices that the caller is gone does not read again.
    have hnotice : s.tryMoves [.notice, .read]
        = { s with courier := s.courier.lost .left } := by
      simp [tryMoves, move?, hstage, hopen]
    obtain ⟨e, hended⟩ := Courier.stage_lost s.courier .left
    rw [hnotice] at hagain
    exact absurd (hended.symm.trans hagain) (by simp)

/-- Behind the failure both loops are done, however many turns are left in them. -/
theorem alike_readAll_idle (fuel₁ fuel₂ : Nat) (h : Alike native s₁ s₂) (c : Caller)
    (hstage : s₁.courier.stage ≠ .reading) :
    AlikeWith native (readAll fuel₁ s₁ c) (readAll fuel₂ s₂ c) := by
  have hstage₂ : s₂.courier.stage ≠ .reading := mt h.couriers.reading_iff.mpr hstage
  rw [readAll_of_stage hstage, readAll_of_stage hstage₂]
  exact ⟨h, rfl⟩

/-- As long as the couriers are reading, each has as many turns left as there are items ahead. -/
theorem alike_readAll (fuel₁ fuel₂ : Nat) (h : Alike native s₁ s₂) (c : Caller)
    (hfuel₁ : s₁.courier.stage = .reading → s₁.incoming.length = fuel₁)
    (hfuel₂ : s₂.courier.stage = .reading → s₂.incoming.length = fuel₂) :
    AlikeWith native (readAll fuel₁ s₁ c) (readAll fuel₂ s₂ c) := by
  induction fuel₁ generalizing fuel₂ s₁ s₂ c with
  | zero =>
    by_cases hstage : s₁.courier.stage = .reading
    · obtain ⟨hsame, hahead⟩ := h.couriers.of_reading hstage
      have hnone₁ : s₁.incoming = [] := List.length_eq_zero_iff.mp (hfuel₁ hstage)
      have hnone₂ : s₂.incoming = [] := (hahead.nil_iff).mp hnone₁
      obtain rfl : 0 = fuel₂ := by rw [← hfuel₂ (hsame ▸ hstage), hnone₂]; rfl
      exact alike_endInSilence h c
    · exact alike_readAll_idle _ _ h c hstage
  | succ fuel₁ ih =>
    by_cases hstage : s₁.courier.stage = .reading
    · obtain ⟨hsame, hahead⟩ := h.couriers.of_reading hstage
      have hstage₂ : s₂.courier.stage = .reading := hsame ▸ hstage
      -- Both have an item ahead, which need not be the same one.
      obtain ⟨item₁, rest₁, hnext₁⟩ := List.exists_cons_of_length_eq_add_one (hfuel₁ hstage)
      have hnext₂ : s₂.incoming ≠ [] := fun hnil => by
        rw [hahead.nil_iff.mpr hnil] at hnext₁
        exact absurd hnext₁ (by simp)
      obtain ⟨item₂, rest₂, hnext₂⟩ := List.exists_cons_of_ne_nil hnext₂
      obtain rfl : rest₁.length = fuel₁ := by simpa [hnext₁] using hfuel₁ hstage
      obtain rfl : rest₂.length + 1 = fuel₂ := by simpa [hnext₂] using hfuel₂ hstage₂
      have hmoved := alike_tryMoves h [.notice, .read]
      obtain ⟨hturn, hcaller⟩ := alike_flush (s₁.tryMoves [.notice, .read]).courier.pending hmoved c
      have hreads₁ := incoming_turn (c := c) hstage hnext₁
      have hreads₂ := incoming_turn (c := c) hstage₂ hnext₂
      rw [readAll, readAll, hstage, hstage₂]
      dsimp only
      rw [← hmoved.couriers.pending_eq] at hreads₂ ⊢
      rw [← hcaller]
      exact ih _ hturn _ (fun hagain => by rw [hreads₁ hagain]) fun hagain => by rw [hreads₂ hagain]
    · exact alike_readAll_idle _ _ h c hstage

theorem alike_settle (h : Alike native s₁ s₂) (c : Caller) :
    Alike native (s₁.settle c) (s₂.settle c) :=
  (alike_callerTurn h _).1

/-- **In the run of any caller two sessions show the same frames.** -/
theorem received_run_alike {items₁ items₂ : List Item}
    (h : d.Alike native d.start items₁ items₂) (promptTokens : UInt32) (buffer patience : Nat)
    (c : Caller) :
    ((ofItems items₁ native promptTokens buffer patience : Session d).run c).received
      = ((ofItems items₂ native promptTokens buffer patience : Session d).run c).received := by
  have hstart : Alike native (ofItems items₁ native promptTokens buffer patience : Session d)
      (ofItems items₂ native promptTokens buffer patience) :=
    ⟨rfl, rfl, .reading rfl rfl rfl h⟩
  obtain ⟨hread, hcaller⟩ := alike_readAll _ _ hstart c (fun _ => rfl) fun _ => rfl
  rw [run, run]
  dsimp only
  rw [hcaller]
  exact (alike_settle hread _).received

end Session

end ModelRelay.Delivery
