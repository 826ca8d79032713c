import ModelRelay.Proofs.Delivery.Moves

/-!
# What holds in every session

Three invariants, each kept by every step and then by every play:

* `Accounts`: what the caller has received and what is buffered for it is what the mailbox took in,
  in order; the mailbox is ahead of the caller by its bound at most.
* `Faithful`: what was handed over and what the courier foretells is what was foretold at the start
  (`Tracked`), until the caller is lost; then nothing is handed over any more.
* `Courier.IsCoherent`: the phase that is shown is the one that the stage calls for.

`Tracked` is the strong one. It is an equality for *every* list of items still to come, and that is
what lets an item that has not come yet be counted in before it does. A step that reads takes an
item off the incoming ones and off this list at once, and a step that hands a frame over takes it
off what is foretold; in every other step but a loss the courier does not change.

A loss breaks the equality, for what was foretold is not sent any more. What is left of it is that
what was handed over is the beginning of what was foretold, and as the courier is over, this stays
so.

None of the three asks anything of the caller. For one who stays and reads in time there is no loss,
and `Tracked` holds to the end.
-/

set_option autoImplicit false

namespace ModelRelay.Delivery

open Sse

namespace Session

variable {d : EventDecoder} {s s' : Session d} {sent : List Frame} {m : Move}

/-! ## The mailbox

It is a queue with a bound, from which the caller takes frames and which it may close. Only
accepting, receiving and leaving change it. -/

/-- `sent` is what the mailbox took in so far. -/
structure Accounts (s : Session d) (sent : List Frame) : Prop where
  fifo : s.received ++ s.mailbox.queue <+: sent
  here : s.mailbox.isOpen = true → s.received ++ s.mailbox.queue = sent
  gone : s.mailbox.isOpen = false → s.mailbox.queue = []
  bounded : sent.length ≤ s.received.length + s.mailbox.capacity

/-- **No frame is lost, repeated or moved**, and the bound is kept. -/
theorem Accounts.step (h : Accounts s sent) (hs : Step s m s') :
    Accounts s' (sent ++ s.handed m) := by
  obtain ⟨fifo, here, gone, bounded⟩ := h
  cases hs with
  | accept sending hopen room =>
    rw [handed_accept sending]
    have hall := here hopen
    have hnow : ∀ frame, s.received ++ (s.mailbox.queue ++ [frame]) = sent ++ [frame] := by
      intro frame
      rw [← List.append_assoc, hall]
    refine ⟨hnow _ ▸ List.prefix_rfl, fun _ => hnow _, fun hc => absurd hc (by simp [hopen]), ?_⟩
    rw [List.length_append, ← hall, List.length_append, List.length_singleton]
    show _ ≤ s.received.length + s.mailbox.capacity
    omega
  | receive next =>
    rw [next] at fifo here gone
    have hsame : ∀ (frame : Frame) rest,
        s.received ++ [frame] ++ rest = s.received ++ frame :: rest := by
      intro frame rest
      rw [List.append_assoc, List.singleton_append]
    show Accounts _ (sent ++ [])
    rw [List.append_nil]
    refine ⟨?_, fun ho => ?_, fun hc => absurd (gone hc) (by simp), ?_⟩
    · rw [hsame]
      exact fifo
    · rw [hsame]
      exact here ho
    · rw [List.length_append]
      show _ ≤ s.received.length + 1 + s.mailbox.capacity
      omega
  | leave =>
    show Accounts _ (sent ++ [])
    rw [List.append_nil]
    refine ⟨?_, fun ho => absurd ho (by simp [Mailbox.close]), fun _ => rfl, bounded⟩
    exact (List.append_nil s.received).symm ▸ (List.prefix_append _ _).trans fifo
  | _ =>
    show Accounts _ (sent ++ [])
    rw [List.append_nil]
    exact ⟨fifo, here, gone, bounded⟩

theorem Accounts.play {moves : List Move} (h : Accounts s sent)
    (hp : s.play moves = some s') : Accounts s' (sent ++ s.accepted moves) := by
  induction moves generalizing s sent with
  | nil =>
    rw [play_nil] at hp
    rw [accepted, List.append_nil, ← Option.some.inj hp]
    exact h
  | cons m moves ih =>
    obtain ⟨s₁, hm, hrest⟩ := play_cons_some hp
    rw [accepted_cons hm, ← List.append_assoc]
    exact ih (h.step (step_of_move? hm)) hrest

/-- The bounds in room and in time are set once. -/
theorem bounds_of_step (hs : Step s m s') :
    s'.mailbox.capacity = s.mailbox.capacity ∧ s'.patience = s.patience := by
  cases hs <;> exact ⟨rfl, rfl⟩

theorem bounds_of_play {moves : List Move} (hp : s.play moves = some s') :
    s'.mailbox.capacity = s.mailbox.capacity ∧ s'.patience = s.patience := by
  induction moves generalizing s with
  | nil => exact Option.some.inj hp ▸ ⟨rfl, rfl⟩
  | cons m moves ih =>
    obtain ⟨s₁, hm, hrest⟩ := play_cons_some hp
    obtain ⟨hcap, hpat⟩ := bounds_of_step (step_of_move? hm)
    exact ⟨(ih hrest).1.trans hcap, (ih hrest).2.trans hpat⟩

/-! ## The courier

What was foretold of it at the start, and how far it has come. -/

variable {start : Courier d} {read : List Item}

/-- All that the courier has done is what was foretold of it: it has read `read`, and the mailbox
took in `sent`. -/
structure Tracked (start : Courier d) (s : Session d) (read : List Item) (sent : List Frame) :
    Prop where
  foretold : ∀ rest, sent ++ s.courier.foretold rest = start.foretold (read ++ rest)
  fate : ∀ rest, s.courier.fate rest = start.fate (read ++ rest)

/-- The courier has done what was foretold of it, unless it lost its caller; then what it did is the
beginning of that, and it failed. -/
def Faithful (start : Courier d) (s : Session d) (read : List Item) (sent : List Frame) : Prop :=
  Tracked start s read sent ∨
    (∃ e, s.courier.stage = .ended (.error e)) ∧ ∀ rest, sent <+: start.foretold (read ++ rest)

/-- What a courier that is over has done is done for good. -/
theorem ended_of_step {r : Except RelayError Outcome} (h : s.courier.stage = .ended r)
    (hs : Step s m s') : s'.courier = s.courier ∧ s.handed m = [] := by
  cases hs with
  | arrive item => exact ⟨rfl, rfl⟩
  | receive next => exact ⟨rfl, rfl⟩
  | leave => exact ⟨rfl, rfl⟩
  | read reading | notice reading => exact absurd (h.symm.trans reading) (by simp)
  | accept sending | expire sending | refuse sending =>
    exact absurd (h.symm.trans sending) (by simp)

theorem ended_of_play {moves : List Move} {r : Except RelayError Outcome}
    (h : s.courier.stage = .ended r) (hp : s.play moves = some s') :
    s'.courier = s.courier ∧ s.accepted moves = [] := by
  induction moves generalizing s with
  | nil => exact Option.some.inj hp ▸ ⟨rfl, rfl⟩
  | cons m moves ih =>
    obtain ⟨s₁, hm, hrest⟩ := play_cons_some hp
    obtain ⟨hc, hsent⟩ := ended_of_step h (step_of_move? hm)
    obtain ⟨hc', hsent'⟩ := ih (hc ▸ h) hrest
    exact ⟨hc'.trans hc, by rw [accepted_cons hm, hsent, hsent', List.append_nil]⟩

/-- **What was foretold stays true.** The items that a step reads are those that leave the
incoming ones. -/
theorem Tracked.step (h : Tracked start s read sent) (hs : Step s m s')
    (hm : m.loss? s.patience = none) :
    ∃ read', Tracked start s' read' (sent ++ s.handed m) ∧
      read' ++ s'.incoming = read ++ s.incoming ++ m.arrival := by
  cases hs with
  | arrive item =>
    refine ⟨read, ?_, (List.append_assoc _ _ _).symm⟩
    show Tracked start _ read (sent ++ [])
    rw [List.append_nil]
    exact ⟨h.foretold, h.fate⟩
  -- Only here is an item taken; it goes from what is to come to what was read.
  | @read item rest reading next here =>
    refine ⟨read ++ [item], ⟨fun more => ?_, fun more => ?_⟩, ?_⟩
    · show sent ++ [] ++ _ = _
      rw [List.append_nil, List.append_assoc, List.singleton_append, ← h.foretold]
      exact congrArg _ (Courier.foretold_take reading item more)
    · rw [List.append_assoc, List.singleton_append, ← h.fate]
      exact Courier.fate_take reading item more
    · show read ++ [item] ++ rest = read ++ s.incoming ++ []
      rw [next, List.append_nil, List.append_assoc, List.singleton_append]
  | @accept frame waiting goal sending here room =>
    refine ⟨read, ⟨fun more => ?_, fun more => ?_⟩, ?_⟩
    · rw [handed_accept sending, ← h.foretold, List.append_assoc, List.singleton_append]
      exact congrArg _ (Courier.foretold_accepted sending more).symm
    · rw [← h.fate]
      exact Courier.fate_accepted sending more
    · exact (List.append_nil _).symm
  | receive next =>
    refine ⟨read, ?_, (List.append_nil _).symm⟩
    show Tracked start _ read (sent ++ [])
    rw [List.append_nil]
    exact ⟨h.foretold, h.fate⟩
  | leave =>
    refine ⟨read, ?_, (List.append_nil _).symm⟩
    show Tracked start _ read (sent ++ [])
    rw [List.append_nil]
    exact ⟨h.foretold, h.fate⟩
  -- These moves lose something, which the hypothesis excludes.
  | expire | refuse | notice => exact absurd hm (by simp [Move.loss?])

/-- A step that loses the caller hands nothing over, reads nothing, and ends the courier. -/
theorem ended_of_loss {fault : CancelFault} (hs : Step s m s')
    (hm : m.loss? s.patience = some fault) :
    s'.courier = s.courier.lost fault ∧ s.handed m = [] ∧ m.arrival = [] ∧
      s'.incoming = s.incoming := by
  cases hs with
  | expire sending here => exact ⟨congrArg s.courier.lost (Option.some.inj hm), rfl, rfl, rfl⟩
  | refuse sending gone => exact ⟨congrArg s.courier.lost (Option.some.inj hm), rfl, rfl, rfl⟩
  | notice reading gone => exact ⟨congrArg s.courier.lost (Option.some.inj hm), rfl, rfl, rfl⟩
  | _ => exact absurd hm (by simp [Move.loss?])

theorem Faithful.step (h : Faithful start s read sent) (hs : Step s m s') :
    ∃ read', Faithful start s' read' (sent ++ s.handed m) ∧
      read' ++ s'.incoming = read ++ s.incoming ++ m.arrival := by
  rcases h with ht | ⟨⟨r, hended⟩, hpre⟩
  · cases hm : m.loss? s.patience with
    | none =>
      obtain ⟨read', ht', hin⟩ := ht.step hs hm
      exact ⟨read', Or.inl ht', hin⟩
    | some fault =>
      obtain ⟨hc, hsent, harr, hin⟩ := ended_of_loss hs hm
      refine ⟨read, Or.inr ⟨hc ▸ s.courier.stage_lost fault, fun rest => ?_⟩, ?_⟩
      · rw [hsent, List.append_nil, ← ht.foretold]
        exact List.prefix_append _ _
      · rw [harr, hin, List.append_nil]
  · -- The courier is over: what may still happen is that items come or the caller moves.
    obtain ⟨hc, hsent⟩ := ended_of_step hended hs
    refine ⟨read, Or.inr ⟨⟨r, by rw [hc, hended]⟩, by rw [hsent, List.append_nil]; exact hpre⟩, ?_⟩
    cases hs with
    | arrive item => exact (List.append_assoc _ _ _).symm
    | read reading | notice reading => exact absurd (hended.symm.trans reading) (by simp)
    | accept sending | expire sending | refuse sending =>
      exact absurd (hended.symm.trans sending) (by simp)
    | receive next => exact (List.append_nil _).symm
    | leave => exact (List.append_nil _).symm

/-- **A courier is faithful along every play**, and what it has read is what came and is not there
any more. -/
theorem Faithful.play {moves : List Move} (h : Faithful start s read sent)
    (hp : s.play moves = some s') :
    ∃ read', Faithful start s' read' (sent ++ s.accepted moves) ∧
      read' ++ s'.incoming = read ++ s.incoming ++ Move.arrivals moves := by
  induction moves generalizing s read sent with
  | nil =>
    rw [play_nil] at hp
    rw [accepted, List.append_nil, ← Option.some.inj hp]
    exact ⟨read, h, (List.append_nil _).symm⟩
  | cons m moves ih =>
    obtain ⟨s₁, hm, hrest⟩ := play_cons_some hp
    obtain ⟨read₁, h₁, hin₁⟩ := h.step (step_of_move? hm)
    obtain ⟨read₂, h₂, hin₂⟩ := ih h₁ hrest
    refine ⟨read₂, ?_, ?_⟩
    · rw [accepted_cons hm, ← List.append_assoc]
      exact h₂
    · rw [hin₂, hin₁, List.append_assoc, Move.arrivals_cons]

/-- A courier that has not failed has lost nobody. -/
theorem Faithful.tracked (h : Faithful start s read sent)
    (hc : ∀ e, s.courier.stage ≠ .ended (.error e)) : Tracked start s read sent := by
  rcases h with ht | ⟨⟨e, hended⟩, -⟩
  · exact ht
  · exact absurd hended (hc e)

theorem isCoherent_step (h : s.courier.IsCoherent) (hs : Step s m s') :
    s'.courier.IsCoherent := by
  cases hs with
  | read reading next here => exact Courier.isCoherent_take reading h _
  | accept sending here room => exact Courier.isCoherent_accepted sending h
  | expire sending here => exact Courier.isCoherent_lost _ _
  | refuse sending gone => exact Courier.isCoherent_lost _ _
  | notice reading gone => exact Courier.isCoherent_lost _ _
  | arrive | receive | leave => exact h

theorem isCoherent_play {moves : List Move} (h : s.courier.IsCoherent)
    (hp : s.play moves = some s') : s'.courier.IsCoherent := by
  induction moves generalizing s with
  | nil => exact Option.some.inj hp ▸ h
  | cons m moves ih =>
    obtain ⟨s₁, hm, hrest⟩ := play_cons_some hp
    exact ih (isCoherent_step h (step_of_move? hm)) hrest

/-! ## A caller who keeps reading

Two of the losses are the caller's own doing, and the other two need a mailbox that was closed
before. -/

/-- A step in which the caller neither leaves nor lets a frame wait too long loses nothing. -/
theorem keeps_of_staying (hs : Step s m s') (ho : s.mailbox.isOpen = true) (hleave : m ≠ .leave)
    (hexpire : m ≠ .expire) : m.loss? s.patience = none ∧ s'.mailbox.isOpen = true := by
  cases hs with
  | expire sending here => exact absurd rfl hexpire
  | leave => exact absurd rfl hleave
  -- The other two losses need a mailbox that is closed.
  | refuse sending gone => exact absurd gone (by simp [ho])
  | notice reading gone => exact absurd gone (by simp [ho])
  | _ => exact ⟨rfl, ho⟩

/-- As long as the caller stays and its mailbox takes frames in time, nothing is lost. -/
theorem Tracked.play_of_staying {moves : List Move} (h : Tracked start s read sent)
    (ho : s.mailbox.isOpen = true) (hp : s.play moves = some s') (hleave : .leave ∉ moves)
    (hexpire : .expire ∉ moves) :
    s'.mailbox.isOpen = true ∧ ∃ read', Tracked start s' read' (sent ++ s.accepted moves) ∧
      read' ++ s'.incoming = read ++ s.incoming ++ Move.arrivals moves := by
  induction moves generalizing s read sent with
  | nil =>
    rw [play_nil] at hp
    rw [accepted, List.append_nil, ← Option.some.inj hp]
    exact ⟨ho, read, h, (List.append_nil _).symm⟩
  | cons m moves ih =>
    obtain ⟨s₁, hm, hrest⟩ := play_cons_some hp
    have hs := step_of_move? hm
    have hkeeps := keeps_of_staying hs ho (fun hmem => hleave (hmem ▸ List.mem_cons_self))
      fun hmem => hexpire (hmem ▸ List.mem_cons_self)
    obtain ⟨read₁, h₁, hin₁⟩ := h.step hs hkeeps.1
    obtain ⟨ho₂, read₂, h₂, hin₂⟩ := ih h₁ hkeeps.2 hrest
      (fun hmem => hleave (List.mem_cons_of_mem _ hmem))
      (fun hmem => hexpire (List.mem_cons_of_mem _ hmem))
    refine ⟨ho₂, read₂, ?_, ?_⟩
    · rw [accepted_cons hm, ← List.append_assoc]
      exact h₂
    · rw [hin₂, hin₁, List.append_assoc, Move.arrivals_cons]

/-! ## The start

All three hold of a session that has not begun. -/

theorem accounts_ofItems (items : List Item) (native : Bool) (promptTokens : UInt32)
    (buffer patience : Nat) :
    Accounts (Session.ofItems items native promptTokens buffer patience : Session d) [] :=
  ⟨List.prefix_rfl, fun _ => rfl, fun _ => rfl, Nat.zero_le _⟩

/-- At the start nothing is read and nothing handed over. -/
theorem tracked_start (s : Session d) : Tracked s.courier s [] [] :=
  ⟨fun _ => rfl, fun _ => rfl⟩

theorem isCoherent_ofItems (items : List Item) (native : Bool) (promptTokens : UInt32)
    (buffer patience : Nat) :
    (Session.ofItems items native promptTokens buffer patience : Session d).courier.IsCoherent :=
  Or.inl rfl

end Session

end ModelRelay.Delivery
