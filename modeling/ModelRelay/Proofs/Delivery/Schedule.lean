import ModelRelay.Proofs.Delivery.Invariants

/-!
# One way a session may go

`run` lets the courier go on until it has to wait and only then gives the caller its turn. It is
written as a loop, not as a list of moves, so what holds in every play holds of it only once it is
shown to be one: `reaches_run`. It always comes to an end (`ended_run`). For a caller who keeps
reading more is true (`run_reader`): no move of it loses anything, so it ends with everything that
was foretold.

Each part of the loop has its lemma, from a list of moves that are tried in turn up to the loop over
all items, and the lemmas are put together as the parts are. `Reaches` carries along which kind of
moves was made, so that the same lemma serves for any caller and for one who never leaves. Two kinds
are used: `Quiet`, where nothing comes from the provider, and `Staying`, where besides nobody is
lost.
-/

set_option autoImplicit false

namespace ModelRelay.Delivery

open Sse

namespace Session

variable {d : EventDecoder} {s s' s'' : Session d} {ok : Move → Prop}

/-- The session can go from one state to another by moves of one kind. -/
def Reaches (ok : Move → Prop) (s s' : Session d) : Prop :=
  ∃ moves, (∀ m ∈ moves, ok m) ∧ s.play moves = some s'

theorem Reaches.refl (s : Session d) : Reaches ok s s :=
  ⟨[], fun _ h => absurd h List.not_mem_nil, rfl⟩

theorem Reaches.trans (h : Reaches ok s s') (h' : Reaches ok s' s'') : Reaches ok s s'' := by
  obtain ⟨moves, hok, hplay⟩ := h
  obtain ⟨more, hok', hplay'⟩ := h'
  refine ⟨moves ++ more, fun m hm => ?_, by rw [play_append, hplay]; exact hplay'⟩
  rcases List.mem_append.mp hm with hm | hm
  · exact hok m hm
  · exact hok' m hm

theorem Reaches.of_move? {m : Move} (hok : ok m) (h : s.move? m = some s') : Reaches ok s s' :=
  ⟨[m], fun _ hm => List.mem_singleton.mp hm ▸ hok, by rw [play_cons, h]; rfl⟩

/-! ## Every part of the loop is a play

From the moves that are tried first up to the whole run. -/

/-- The first of some moves that can be made is one, and where none can nothing happens. -/
theorem reaches_tryMoves {moves : List Move} (hok : ∀ m ∈ moves, ok m) :
    Reaches ok s (s.tryMoves moves) := by
  rw [tryMoves]
  cases h : moves.findSome? s.move? with
  | none => exact .refl s
  | some s₁ =>
    obtain ⟨m, hm, hmove⟩ := List.exists_of_findSome?_eq_some h
    exact .of_move? (hok m hm) hmove

theorem reaches_receiveUpTo (hok : ok .receive) (count : Nat) (s : Session d)
    (h : count ≤ s.mailbox.queue.length) :
    Reaches ok s
      { s with
        mailbox := (s.mailbox.receiveUpTo count).2
        received := s.received ++ (s.mailbox.receiveUpTo count).1 } := by
  induction count generalizing s with
  | zero => simpa [Mailbox.receiveUpTo] using Reaches.refl s
  | succ count ih =>
    cases hq : s.mailbox.queue with
    | nil => exact absurd h (by simp [hq])
    | cons frame rest =>
      let s₁ : Session d :=
        { s with
          mailbox := { s.mailbox with queue := rest }
          received := s.received ++ [frame] }
      have hmove : s.move? .receive = some s₁ := by
        simp only [move?, Mailbox.receive?, hq, Option.map_some, s₁]
      have hrest : count ≤ s₁.mailbox.queue.length := by
        rw [hq, List.length_cons] at h
        exact Nat.le_of_succ_le_succ h
      have hgo := (Reaches.of_move? hok hmove).trans (ih s₁ hrest)
      simpa [Mailbox.receiveUpTo, hq, s₁] using hgo

/-- A move with which nothing comes from the provider. -/
def Quiet (m : Move) : Prop :=
  m.arrival = []

theorem quiet_receive : Quiet .receive := rfl

theorem reaches_tryMoves_quietly {moves : List Move} (h : Move.arrivals moves = []) :
    Reaches Quiet s (s.tryMoves moves) :=
  reaches_tryMoves (List.flatMap_eq_nil_iff.mp h)

theorem takes_le (c : Caller) (available : Nat) : c.takes available ≤ available := by
  rw [Caller.takes]
  split
  · exact Nat.le_refl _
  · exact Nat.min_le_right _ _

theorem reaches_callerTurn (s : Session d) (c : Caller) :
    Reaches Quiet s (s.callerTurn c).1 := by
  have hread : Reaches Quiet s _ :=
    reaches_receiveUpTo quiet_receive _ s (takes_le c s.mailbox.queue.length)
  simp only [callerTurn]
  split
  · refine hread.trans ?_
    dsimp only
    exact reaches_tryMoves_quietly rfl
  · exact hread

theorem reaches_flush (fuel : Nat) (s : Session d) (c : Caller) :
    Reaches Quiet s (flush fuel s c).1 := by
  induction fuel generalizing s c with
  | zero => exact .refl s
  | succ fuel ih =>
    rw [flush]
    split
    · exact .refl s
    · have hturn : Reaches Quiet s
          (if s.mailbox.isFull then s.callerTurn c else (s, c)).1 := by
        split
        · exact reaches_callerTurn s c
        · exact .refl s
      generalize (if s.mailbox.isFull then s.callerTurn c else (s, c)) = turn at hturn ⊢
      exact (hturn.trans (reaches_tryMoves_quietly rfl)).trans (ih _ turn.2)

/-- A caller who leaves what is buffered for it behind might as well have read it first. -/
theorem reaches_endInSilence (s : Session d) (c : Caller) :
    Reaches Quiet s (s.endInSilence c).1 := by
  rw [endInSilence]
  split
  · refine (reaches_callerTurn s c).trans ?_
    obtain ⟨s₁, c₁⟩ := s.callerTurn c
    have hread : Reaches Quiet s₁ _ :=
      reaches_receiveUpTo quiet_receive _ s₁ (Nat.le_refl s₁.mailbox.queue.length)
    have hleave : Reaches Quiet s₁
        (({ s₁ with received := s₁.received ++ s₁.mailbox.queue }).tryMoves [.leave]) := by
      have hgone : Reaches Quiet s₁ (tryMoves _ [.leave]) :=
        hread.trans (reaches_tryMoves_quietly rfl)
      simpa [tryMoves, move?, Mailbox.receiveUpTo, Mailbox.close] using hgone
    exact hleave.trans (reaches_tryMoves_quietly rfl)
  · exact .refl s

theorem reaches_readAll (fuel : Nat) (s : Session d) (c : Caller) :
    Reaches Quiet s (readAll fuel s c).1 := by
  induction fuel generalizing s c with
  | zero => exact reaches_endInSilence s c
  | succ fuel ih =>
    rw [readAll]
    split
    · exact ((reaches_tryMoves_quietly rfl).trans (reaches_flush _ _ _)).trans (ih _ _)
    · exact .refl s

/-- Running a session is a play in which nothing comes that was not there at the start. -/
theorem reaches_run_quietly (s : Session d) (c : Caller) :
    ∃ moves, Move.arrivals moves = [] ∧ s.play moves = some (s.run c) := by
  have h : Reaches Quiet s (s.run c) :=
    (reaches_readAll s.incoming.length s c).trans (reaches_callerTurn _ _)
  obtain ⟨moves, hquiet, hplay⟩ := h
  exact ⟨moves, List.flatMap_eq_nil_iff.mpr hquiet, hplay⟩

/-- **Running a session is a play of it.** -/
theorem reaches_run (s : Session d) (c : Caller) : ∃ moves, s.play moves = some (s.run c) := by
  obtain ⟨moves, -, hplay⟩ := s.reaches_run_quietly c
  exact ⟨moves, hplay⟩

/-! ## The run is over in the end

Whoever the caller is. Of the frames that wait one goes with every round, whether it is accepted or
not, and where the items give out it is the caller who leaves. -/

theorem courier_callerTurn (s : Session d) (c : Caller) :
    (s.callerTurn c).1.courier = s.courier := by
  simp only [callerTurn]
  split <;> rfl

theorem pending_accepted {c : Courier d} {frame : Frame} {waiting : List Frame} {goal : Goal}
    (h : c.stage = .sending frame waiting goal) : c.accepted.pending = waiting.length := by
  rw [Courier.accepted_eq h]
  cases waiting <;> cases goal <;> rfl

/-- Whatever becomes of a frame that is being sent, no more than the others wait then. -/
theorem pending_tryMoves {frame : Frame} {waiting : List Frame} {goal : Goal}
    (h : s.courier.stage = .sending frame waiting goal) :
    (s.tryMoves [.accept, .refuse, .expire]).courier.pending ≤ waiting.length := by
  have hlost (fault : CancelFault) : (s.courier.lost fault).pending ≤ waiting.length :=
    Nat.zero_le _
  cases hsend : s.mailbox.send frame with
  | accepted mailbox =>
    have hmove : s.tryMoves [.accept, .refuse, .expire]
        = { s with mailbox, courier := s.courier.accepted } := by
      simp [tryMoves, move?, h, hsend]
    rw [hmove]
    exact Nat.le_of_eq (pending_accepted h)
  | refused =>
    have hmove : s.tryMoves [.accept, .refuse, .expire]
        = { s with courier := s.courier.lost .left } := by
      simp [tryMoves, move?, h, hsend]
    rw [hmove]
    exact hlost .left
  | expired =>
    have hmove : s.tryMoves [.accept, .refuse, .expire]
        = { s with courier := s.courier.lost (.stalled s.patience) } := by
      simp [tryMoves, move?, h, hsend]
    rw [hmove]
    exact hlost (.stalled s.patience)

theorem pending_flush (fuel : Nat) (s : Session d) (c : Caller) (h : s.courier.pending ≤ fuel) :
    (flush fuel s c).1.courier.pending = 0 := by
  induction fuel generalizing s c with
  | zero => exact Nat.le_zero.mp h
  | succ fuel ih =>
    rw [flush]
    split
    · assumption
    · rename_i hp
      have hturn : (if s.mailbox.isFull then s.callerTurn c else (s, c)).1.courier = s.courier := by
        split
        · exact courier_callerTurn s c
        · rfl
      generalize (if s.mailbox.isFull then s.callerTurn c else (s, c)) = turn at hturn ⊢
      refine ih _ turn.2 ?_
      cases hstage : s.courier.stage with
      | reading | ended => exact absurd (by simp [Courier.pending, hstage]) hp
      | sending frame waiting goal =>
        rw [Courier.pending, hstage] at h
        have hturned : turn.1.courier.stage = .sending frame waiting goal := by rw [hturn, hstage]
        exact Nat.le_trans (pending_tryMoves hturned) (Nat.le_of_succ_le_succ h)

theorem ended_endInSilence {s : Session d} (c : Caller) (hp : s.courier.pending = 0) :
    ∃ r, (s.endInSilence c).1.courier.stage = .ended r := by
  rw [endInSilence]
  cases hstage : s.courier.stage with
  | sending => exact absurd hp (by simp [Courier.pending, hstage])
  | ended r => exact ⟨r, hstage⟩
  | reading =>
    have hturn : (s.callerTurn c).1.courier.stage = .reading := by
      rw [courier_callerTurn, hstage]
    refine ⟨.error (.cancelled .left), ?_⟩
    simp [tryMoves, move?, hturn, Mailbox.close, Courier.lost]

theorem ended_readAll (fuel : Nat) (s : Session d) (c : Caller) (hp : s.courier.pending = 0) :
    ∃ r, (readAll fuel s c).1.courier.stage = .ended r := by
  induction fuel generalizing s c with
  | zero => exact ended_endInSilence c hp
  | succ fuel ih =>
    rw [readAll]
    cases hstage : s.courier.stage with
    | sending => exact absurd hp (by simp [Courier.pending, hstage])
    | ended r => exact ⟨r, hstage⟩
    | reading => exact ih _ _ (pending_flush _ _ _ (Nat.le_refl _))

/-- **A run comes to an end**, with one result or another. -/
theorem ended_run (s : Session d) (c : Caller) (hp : s.courier.pending = 0) :
    ∃ r, (s.run c).courier.result? = some r := by
  obtain ⟨r, hended⟩ := ended_readAll s.incoming.length s c hp
  refine ⟨r, ?_⟩
  show (callerTurn _ _).1.courier.result? = _
  rw [courier_callerTurn, Courier.result?, hended]

/-! ## The run of a caller who keeps reading

Here more has to be known than that each part is a play: which moves it is made of, and that it
gets to where there is nothing left to send. -/

/-- A move of a session in which all has come, and whose caller stays and reads in time. -/
def Staying (m : Move) : Prop :=
  m ≠ .leave ∧ m ≠ .expire ∧ m.arrival = []

theorem callerTurn_reader (s : Session d) :
    s.callerTurn {} =
      ({ s with
          mailbox := { s.mailbox with queue := [] }
          received := s.received ++ s.mailbox.queue }, {}) := by
  simp [callerTurn, Caller.takes, Caller.afterReading, Caller.isDone, Mailbox.receiveUpTo]

/-- A reader's turn is made of moves that lose nothing. -/
theorem reaches_callerTurn_reader (s : Session d) : Reaches Staying s (s.callerTurn {}).1 := by
  have hok : Staying .receive := ⟨by simp, by simp, rfl⟩
  have hread := reaches_receiveUpTo hok _ s (Nat.le_refl s.mailbox.queue.length)
  rw [callerTurn_reader]
  simpa [Mailbox.receiveUpTo] using hread

/-- A frame that is being sent to an open mailbox with room in it is accepted at once. -/
theorem tryMoves_accept {frame : Frame} {waiting : List Frame} {goal : Goal}
    (h : s.courier.stage = .sending frame waiting goal) (ho : s.mailbox.isOpen = true)
    (hroom : s.mailbox.isFull = false) :
    s.tryMoves [.accept, .refuse, .expire] =
      { s with
        mailbox := { s.mailbox with queue := s.mailbox.queue ++ [frame] }
        courier := s.courier.accepted } := by
  have hsend : s.mailbox.send frame
      = .accepted { s.mailbox with queue := s.mailbox.queue ++ [frame] } := by
    simp [Mailbox.send, ho, hroom]
  simp [tryMoves, move?, h, hsend]

/-- Everything that waits is sent, and nothing else changes. -/
theorem flush_reader (fuel : Nat) (s : Session d) (ho : s.mailbox.isOpen = true)
    (hp : s.courier.pending = fuel) :
    ∃ s', flush fuel s {} = (s', {}) ∧ Reaches Staying s s' ∧ s'.mailbox.isOpen = true ∧
      s'.courier.pending = 0 ∧ s'.incoming = s.incoming := by
  induction fuel generalizing s with
  | zero => exact ⟨s, rfl, .refl s, ho, hp, rfl⟩
  | succ fuel ih =>
    rw [flush, if_neg (by simp [hp])]
    -- The caller reads first if there is no room, and then there is.
    have hturn : ∃ s₁, (if s.mailbox.isFull then s.callerTurn {} else (s, {})) = (s₁, {}) ∧
        Reaches Staying s s₁ ∧ s₁.mailbox.isOpen = true ∧ s₁.mailbox.isFull = false ∧
        s₁.courier = s.courier ∧ s₁.incoming = s.incoming := by
      cases hfull : s.mailbox.isFull with
      | true =>
        refine ⟨(s.callerTurn {}).1, ?_, reaches_callerTurn_reader s, ?_⟩
        · rw [if_pos rfl, callerTurn_reader]
        · rw [callerTurn_reader]
          have hpos := s.mailbox.capacity_pos
          exact ⟨ho, decide_eq_false (Nat.not_le_of_lt hpos), rfl, rfl⟩
      | false => exact ⟨s, by simp, .refl s, ho, hfull, rfl, rfl⟩
    obtain ⟨s₁, heq, hreach, ho₁, hroom, hc, hin⟩ := hturn
    rw [heq]
    simp only
    cases hstage : s₁.courier.stage with
    | reading | ended => exact absurd hp (by simp [← hc, Courier.pending, hstage])
    | sending frame waiting goal =>
      have hmove : Reaches Staying s₁ (s₁.tryMoves [.accept, .refuse, .expire]) := by
        have haccept : s₁.move? .accept = some (s₁.tryMoves [.accept, .refuse, .expire]) := by
          rw [tryMoves_accept hstage ho₁ hroom]
          simp [move?, hstage, Mailbox.send, ho₁, hroom]
        exact .of_move? ⟨by simp, by simp, rfl⟩ haccept
      have hnext := tryMoves_accept hstage ho₁ hroom
      have hpend : (s₁.tryMoves [.accept, .refuse, .expire]).courier.pending = fuel := by
        rw [hnext]
        show s₁.courier.accepted.pending = fuel
        rw [pending_accepted hstage]
        rw [← hc, Courier.pending, hstage] at hp
        exact Nat.succ.inj hp
      obtain ⟨s', hflush, hreach', ho', hp', hin'⟩ :=
        ih (s₁.tryMoves [.accept, .refuse, .expire]) (by rw [hnext]; exact ho₁) hpend
      refine ⟨s', hflush, (hreach.trans hmove).trans hreach', ho', hp', ?_⟩
      rw [hin', hnext]
      exact hin

/-- Items are read until the stream is over or there are none. -/
theorem readAll_reader (fuel : Nat) (s : Session d) (ho : s.mailbox.isOpen = true)
    (hp : s.courier.pending = 0) (hf : s.incoming.length = fuel) :
    ∃ s', Reaches Staying s s' ∧ s'.mailbox.isOpen = true ∧
      ((∃ r, s'.courier.stage = .ended r) ∧ readAll fuel s {} = (s', {}) ∨
        s'.courier.stage = .reading ∧ s'.incoming = [] ∧
          readAll fuel s {} = s'.endInSilence {}) := by
  induction fuel generalizing s with
  | zero =>
    refine ⟨s, .refl s, ho, ?_⟩
    cases hstage : s.courier.stage with
    | sending => exact absurd hp (by simp [Courier.pending, hstage])
    | reading => exact Or.inr ⟨rfl, List.eq_nil_of_length_eq_zero hf, rfl⟩
    | ended r =>
      refine Or.inl ⟨⟨r, rfl⟩, ?_⟩
      rw [readAll, endInSilence, hstage]
  | succ fuel ih =>
    rw [readAll]
    cases hstage : s.courier.stage with
    | sending => exact absurd hp (by simp [Courier.pending, hstage])
    | ended r => exact ⟨s, .refl s, ho, Or.inl ⟨⟨r, hstage⟩, rfl⟩⟩
    | reading =>
      cases hin : s.incoming with
      | nil => exact absurd hf (by simp [hin])
      | cons item rest =>
        let s₁ : Session d := { s with incoming := rest, courier := s.courier.take item }
        have hread : s.move? .read = some s₁ := by
          simp [move?, hstage, hin, ho, s₁]
        have htry : s.tryMoves [.notice, .read] = s₁ := by
          have hnotice : s.move? .notice = none := by simp [move?, hstage, ho]
          simp [tryMoves, hnotice, hread]
        -- One turn of the loop: an item is read and everything it leads to is sent, which leaves
        -- one item less.
        obtain ⟨s₂, hflush, hreach₂, ho₂, hp₂, hin₂⟩ :=
          flush_reader s₁.courier.pending s₁ ho rfl
        have hlen : s₂.incoming.length = fuel := by
          rw [hin₂]
          rw [hin, List.length_cons] at hf
          exact Nat.succ.inj hf
        obtain ⟨s₃, hreach₃, ho₃, hend⟩ := ih s₂ ho₂ hp₂ hlen
        refine ⟨s₃, ?_, ho₃, ?_⟩
        · have hmove : Reaches Staying s s₁ := .of_move? ⟨by simp, by simp, rfl⟩ hread
          exact (hmove.trans hreach₂).trans hreach₃
        · simp only [htry, hflush]
          exact hend

/-- **A caller who keeps reading ends with everything that was sent**: the stream is over, or the
provider has fallen silent with nothing more to be read. -/
theorem run_reader (s : Session d) (ho : s.mailbox.isOpen = true) (hp : s.courier.pending = 0) :
    ∃ s', Reaches Staying s s' ∧ s'.mailbox.isOpen = true ∧
      (s.run {}).received = s'.received ++ s'.mailbox.queue ∧
      ((∃ r, s'.courier.stage = .ended r) ∧ s.run {} = (s'.callerTurn {}).1 ∨
        s'.courier.stage = .reading ∧ s'.incoming = []) := by
  obtain ⟨s', hreach, ho', hend⟩ := readAll_reader s.incoming.length s ho hp rfl
  refine ⟨s', hreach, ho', ?_⟩
  rcases hend with ⟨hended, heq⟩ | ⟨hstage, hin, heq⟩
  · have hrun : s.run {} = (s'.callerTurn {}).1 := by
      rw [run, heq]
      rfl
    refine ⟨?_, Or.inl ⟨hended, hrun⟩⟩
    rw [hrun, callerTurn_reader]
  · refine ⟨?_, Or.inr ⟨hstage, hin⟩⟩
    rw [run, heq]
    simp [endInSilence, hstage, callerTurn_reader, settle, tryMoves, move?, Mailbox.close]

/-- **The frames of a caller who keeps reading are the script of the items**, whether or not they
come to an end. -/
theorem run_received (items : List Item) (native : Bool) (promptTokens : UInt32)
    (buffer patience : Nat) :
    ((Session.ofItems items native promptTokens buffer patience : Session d).run {}).received
      = d.script native d.start items := by
  obtain ⟨s, ⟨moves, hok, hplay⟩, ho, hreceived, hend⟩ :=
    run_reader (Session.ofItems items native promptTokens buffer patience : Session d) rfl rfl
  obtain ⟨-, read, ht, hread⟩ := (tracked_start _).play_of_staying rfl hplay
    (fun hm => (hok _ hm).1 rfl) (fun hm => (hok _ hm).2.1 rfl)
  have hacc := (accounts_ofItems items native promptTokens buffer patience).play hplay
  rw [hreceived, hacc.here ho]
  have harr : Move.arrivals moves = [] := by
    rw [Move.arrivals, List.flatMap_eq_nil_iff]
    exact fun m hm => (hok m hm).2.2
  -- Nothing is left to foretell, either because it is over or because there is no item.
  have hnone : s.courier.foretold s.incoming = [] := by
    rcases hend with ⟨⟨r, hended⟩, -⟩ | ⟨hstage, hin⟩
    · rw [Courier.foretold, hended]
    · rw [Courier.foretold, hstage, hin]
      rfl
  have hall := ht.foretold s.incoming
  rw [hnone, List.append_nil, hread, harr, List.append_nil] at hall
  exact hall

end Session

end ModelRelay.Delivery
