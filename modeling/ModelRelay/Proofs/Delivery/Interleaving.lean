import ModelRelay.Proofs.Delivery.Schedule

/-!
# Every order of moves

The provider, the courier, the mailbox and the caller move one by one in any order, and the caller
may leave or stop reading between any two moves. This can be counted on all the same, at every
moment of every play (`every_order_is_faithful`):

* the caller has the beginning of what a caller who keeps reading gets;
* the courier reads an item only when all before it is handed over, so that what waits for the
  caller is bounded by the mailbox;
* once the caller is lost nothing more is sent, and the result says so, unless the last frame was
  telling of a failure, which then stays the result;
* the result and the phase agree.

A failure of the provider is told apart from a loss of the caller by what the courier had *read*,
not by what the caller was told of it: the frame that tells of it may be the one that is lost.

All of it follows from the three invariants of a session (`Known`). For the first point the script
of the items read so far is the beginning of the script of anything that may still come; for the
third the stage of the courier at the moment of the loss is compared with the verdict on what it had
read.
-/

set_option autoImplicit false

namespace ModelRelay.Delivery

open Sse

namespace Courier

variable {d : EventDecoder} {c : Courier d}

/-- A session has an outcome exactly if its phase is done. -/
theorem IsCoherent.ok_iff_done (h : c.IsCoherent) :
    (∃ outcome, c.result? = some (.ok outcome)) ↔ c.phase = .done := by
  constructor
  · rintro ⟨outcome, hr⟩
    exact h.phase_of_ok hr
  · intro hdone
    rw [IsCoherent] at h
    split at h
    · rcases h with h | h <;> exact absurd (hdone.symm.trans h) (by simp)
    · rcases h with h | h <;> exact absurd (hdone.symm.trans h) (by simp)
    · rcases h with h | h <;> exact absurd (hdone.symm.trans h) (by simp)
    · exact absurd (hdone.symm.trans h.1) (by simp)
    · exact absurd (hdone.symm.trans h) (by simp)
    · rename_i outcome hstage
      exact ⟨outcome, by rw [result?, hstage]⟩

/-- A result is a failure exactly if the phase is failed. -/
theorem IsCoherent.error_iff_failed (h : c.IsCoherent) {r : Except RelayError Outcome}
    (hr : c.result? = some r) : (∃ e, r = .error e) ↔ c.phase = .failed := by
  cases r with
  | ok outcome =>
    have hdone := h.phase_of_ok hr
    refine ⟨fun ⟨e, he⟩ => absurd he (by simp), fun hfailed => ?_⟩
    exact absurd (hdone.symm.trans hfailed) (by simp)
  | error e => exact ⟨fun _ => h.phase_of_error hr, fun _ => ⟨e, rfl⟩⟩

end Courier

namespace Session

variable {d : EventDecoder} {native : Bool} {promptTokens : UInt32} {came read : List Item}
  {sent : List Frame} {s s' : Session d} {m : Move}

/-- What is known of a session from its past: `came` has come from the provider, `read` of it was
read, and the mailbox took in `sent`. -/
structure Known (native : Bool) (promptTokens : UInt32) (came read : List Item)
    (sent : List Frame) (s : Session d) : Prop where
  accounts : Accounts s sent
  faithful : Faithful { native, promptTokens } s read sent
  all : read ++ s.incoming = came
  coherent : s.courier.IsCoherent

/-- **What is known of every session.** -/
theorem known_of_play {queued : List Item} {buffer patience : Nat} {past : List Move}
    (hp : (ofItems queued native promptTokens buffer patience : Session d).play past = some s) :
    ∃ read, Known native promptTokens (queued ++ Move.arrivals past) read
      ((ofItems queued native promptTokens buffer patience : Session d).accepted past) s := by
  obtain ⟨read, hf, hread⟩ := Faithful.play (Or.inl (tracked_start _)) hp
  exact ⟨read, (accounts_ofItems ..).play hp, hf, hread, isCoherent_play (isCoherent_ofItems ..) hp⟩

/-! ## The frames

What a caller has is a beginning of what was handed over, and this is a beginning of the script. -/

/-- What was handed over is the beginning of the script of anything that may still come. -/
theorem Known.sent_prefix (h : Known native promptTokens came read sent s) {items : List Item}
    (hi : came <+: items) : sent <+: d.script native d.start items := by
  obtain ⟨more, hmore⟩ := hi
  have hitems : read ++ (s.incoming ++ more) = items := by
    rw [← List.append_assoc, h.all, hmore]
  rcases h.faithful with ht | ⟨-, hpre⟩
  · have hall : sent ++ s.courier.foretold (s.incoming ++ more)
        = d.script native d.start (read ++ (s.incoming ++ more)) := ht.foretold _
    exact ⟨_, hitems ▸ hall⟩
  · have hall : sent <+: d.script native d.start (read ++ (s.incoming ++ more)) := hpre _
    exact hitems ▸ hall

/-- A caller gets the beginning of the script of the items, however it reads. -/
theorem received_run_prefix (items : List Item) (native : Bool) (promptTokens : UInt32)
    (buffer patience : Nat) (reader : Caller) :
    ((ofItems items native promptTokens buffer patience : Session d).run reader).received
      <+: d.script native d.start items := by
  obtain ⟨moves, hquiet, hplay⟩ :=
    (ofItems items native promptTokens buffer patience : Session d).reaches_run_quietly reader
  obtain ⟨read, h⟩ := known_of_play hplay
  rw [hquiet, List.append_nil] at h
  exact ((List.prefix_append _ _).trans h.accounts.fifo).trans (h.sent_prefix List.prefix_rfl)

/-! ## The turns of the courier

A courier that is ready to read has nothing more to send for what it has read. -/

/-- Between items all that was read was understood, none of it was the end, and every frame of it
is handed over. -/
theorem Known.heard (h : Known native promptTokens came read sent s)
    (hstage : s.courier.stage = .reading) :
    ∃ told state, d.Hears d.start read told state ∧ sent = told.flatMap (·.frames) := by
  have ht := h.faithful.tracked fun r hended => absurd (hstage.symm.trans hended) (by simp)
  have hfate : none = d.verdict promptTokens d.start "" {} (read ++ []) := by
    rw [← show _ = d.verdict promptTokens d.start "" {} _ from ht.fate [], Courier.fate, hstage]
    rfl
  have hsent : sent ++ [] = d.script native d.start (read ++ []) := by
    rw [← show _ = d.script native d.start _ from ht.foretold [], Courier.foretold, hstage]
    rfl
  rcases EventDecoder.hears_or_decisive d.start read with
    ⟨told, state, hears⟩ | ⟨before, last, after, told, state, heq, hears, hdec⟩
  · refine ⟨told, state, hears, ?_⟩
    rw [EventDecoder.script_of_hears hears, List.append_nil] at hsent
    exact hsent.trans (List.append_nil _)
  · -- An item that ends the stream would have settled the result.
    rw [List.append_nil, heq, EventDecoder.verdict_of_hears hears] at hfate
    obtain ⟨r, hr⟩ : ∃ r, d.verdict promptTokens state ("" ++ toldText told) (toldUsage {} told)
        (last :: after) = some r := EventDecoder.verdict_of_decisive hdec after
    exact absurd (hfate.trans hr) (by simp)

/-! ## The caller is lost

At this moment the courier is reading, or sending on the way to one of three goals. -/

/-- What is left of a session that loses its caller: the failure that it had read, if there is one,
of which the frame that is lost was to tell; otherwise the loss. -/
theorem Known.lost {fault : CancelFault} (h : Known native promptTokens came read sent s)
    (hs : Step s m s') (hm : m.loss? s.patience = some fault) :
    (∃ e, d.verdict promptTokens d.start "" {} read = some (.error e) ∧
      sent ++ [Frame.ofError native e] = d.script native d.start read ∧
      s'.courier.result? = some (.error e)) ∨
    (∀ e, d.verdict promptTokens d.start "" {} read ≠ some (.error e)) ∧
      s'.courier.result? = some (.error (.cancelled fault)) := by
  obtain ⟨hc, -, -, -⟩ := ended_of_loss hs hm
  have hlive : ∀ r, s.courier.stage ≠ .ended r := by
    intro r hended
    cases hs with
    | notice reading => exact absurd (hended.symm.trans reading) (by simp)
    | expire sending | refuse sending => exact absurd (hended.symm.trans sending) (by simp)
    | _ => exact absurd hm (by simp [Move.loss?])
  have ht := h.faithful.tracked fun e => hlive (.error e)
  have hfate : s.courier.fate [] = d.verdict promptTokens d.start "" {} (read ++ []) := ht.fate []
  have hsent : sent ++ s.courier.foretold [] = d.script native d.start (read ++ []) :=
    ht.foretold []
  rw [List.append_nil] at hfate hsent
  rw [hc, Courier.result?_lost]
  -- Only a courier that is telling of a failure keeps it.
  cases hstage : s.courier.stage with
  | ended r => exact absurd hstage (hlive r)
  | reading =>
    rw [Courier.fate, hstage] at hfate
    exact Or.inr ⟨fun e he => absurd (hfate.trans he) (by simp [EventDecoder.verdict]), rfl⟩
  | sending frame waiting goal =>
    cases goal with
    | read =>
      rw [Courier.fate, hstage] at hfate
      exact Or.inr ⟨fun e he => absurd (hfate.trans he) (by simp [EventDecoder.verdict]), rfl⟩
    | finish outcome =>
      rw [Courier.fate, hstage] at hfate
      exact Or.inr ⟨fun e he => absurd (hfate.trans he) (by simp), rfl⟩
    | fail e =>
      rw [Courier.fate, hstage] at hfate
      have hlast : waiting = [] := by
        have hcoh := h.coherent
        rw [Courier.IsCoherent, hstage] at hcoh
        exact hcoh.2
      rw [Courier.foretold, hstage, hlast] at hsent
      obtain ⟨frames, hframes⟩ : ∃ frames, d.script native d.start read
          = frames ++ [Frame.ofError native e] := EventDecoder.script_of_verdict hfate.symm
      have hframe : [frame] = [Frame.ofError native e] :=
        (List.append_inj' (hsent.trans hframes) rfl).2
      exact Or.inl ⟨e, hfate.symm, hframe ▸ hsent, rfl⟩

/-! ## All of it

The four points, of one play and the session it leads to. -/

/-- **In every order of moves the caller gets the beginning of the one stream there is, the courier
is never further ahead than the mailbox allows, and the result tells how it ended.**

What the courier has sent and will send is one script, settled by its items. A move takes from what
is to be sent what it adds to the mailbox, or loses the caller and the rest with it. So what is sent
is the beginning of the script, whoever moves next, and what is received is the beginning of what is
sent. -/
theorem every_order_is_faithful (d : EventDecoder) (queued : List Item) (native : Bool)
    (promptTokens : UInt32) (buffer patience : Nat) :
    let start : Session d := .ofItems queued native promptTokens buffer patience
    ∀ past s, start.play past = some s →
      -- The frames are those of a caller who keeps reading, whatever else is to come.
      (s.received <+: start.accepted past ∧
        ∀ items, queued ++ Move.arrivals past <+: items →
          start.accepted past
            <+: ((ofItems items native promptTokens buffer patience : Session d).run {}).received) ∧
      -- An item is read when all before it is handed over, which the bound of the mailbox limits.
      ((start.accepted past).length ≤ s.received.length + max 1 buffer ∧
        ∀ s', s.move? .read = some s' →
          ∃ read told state, read ++ s.incoming = queued ++ Move.arrivals past ∧
            d.Hears d.start read told state ∧ start.accepted past = told.flatMap (·.frames)) ∧
      -- Once the caller is lost nothing changes any more, and the result is the loss, unless a
      -- failure had been read, of which the frame that is lost was to tell.
      (∀ m fault s', m.loss? patience = some fault → s.move? m = some s' →
        s'.courier.phase = .failed ∧
        (∀ later s'', s'.play later = some s'' →
          s'.accepted later = [] ∧ s''.courier = s'.courier) ∧
        ∃ read, read ++ s.incoming = queued ++ Move.arrivals past ∧
          ((∃ e, d.verdict promptTokens d.start "" {} read = some (.error e) ∧
              start.accepted past ++ [Frame.ofError native e] = d.script native d.start read ∧
              s'.courier.result? = some (.error e)) ∨
            (∀ e, d.verdict promptTokens d.start "" {} read ≠ some (.error e)) ∧
              s'.courier.result? = some (.error (.cancelled fault)))) ∧
      -- The result and the phase agree.
      ((∃ outcome, s.courier.result? = some (.ok outcome)) ↔ s.courier.phase = .done) ∧
      ∀ r, s.courier.result? = some r → ((∃ e, r = .error e) ↔ s.courier.phase = .failed) := by
  intro start past s hp
  obtain ⟨read, h⟩ := known_of_play hp
  obtain ⟨hcap, hpat⟩ := bounds_of_play hp
  refine ⟨⟨(List.prefix_append _ _).trans h.accounts.fifo, fun items hi => ?_⟩, ⟨?_, ?_⟩, ?_,
    h.coherent.ok_iff_done, fun r => h.coherent.error_iff_failed⟩
  · rw [run_received]
    exact h.sent_prefix hi
  · have hbound := h.accounts.bounded
    rw [hcap] at hbound
    exact hbound
  · intro s' hm
    cases step_of_move? hm with
    | read reading next here =>
      obtain ⟨told, state, hears, hsent⟩ := h.heard reading
      exact ⟨read, told, state, h.all, hears, hsent⟩
  · intro m fault s' hm hmove
    have hs := step_of_move? hmove
    have hloss : m.loss? s.patience = some fault := by
      rw [hpat]
      exact hm
    have hresult := h.lost hs hloss
    have hcoh := isCoherent_step h.coherent hs
    obtain ⟨r, hended⟩ : ∃ r, s'.courier.stage = .ended r := by
      rw [(ended_of_loss hs hloss).1]
      exact ⟨_, rfl⟩
    refine ⟨?_, fun later s'' hlater => ?_, read, h.all, hresult⟩
    · rcases hresult with ⟨e, -, -, hr⟩ | ⟨-, hr⟩ <;> exact hcoh.phase_of_error hr
    · obtain ⟨hc, hnone⟩ := ended_of_play hended hlater
      exact ⟨hnone, hc⟩

/-- A provider breaks off, and its caller is gone before it can be told: the failure stays. -/
theorem failure_outlives_caller :
    let start : Session .echo := .ofItems [] true 7 1 1000
    let past := [.arrive (.event ⟨"word", "hello"⟩), .arrive (.broken "reset"), .read, .accept,
      .read, .leave]
    ∃ s s', start.play past = some s ∧ s.move? .refuse = some s' ∧
      start.accepted past = [.data "hello"] ∧ s'.received = [] ∧ s'.courier.phase = .failed ∧
      s'.courier.result? = some (.error (.stream (.interrupted "echo" "reset"))) ∧
      ∀ later s'', s'.play later = some s'' → s'.accepted later = [] := by
  intro start past
  obtain ⟨-, -, hloss, -, -⟩ := every_order_is_faithful .echo [] true 7 1 1000 past _ rfl
  obtain ⟨hphase, hlater, -⟩ := hloss .refuse .left _ rfl rfl
  exact ⟨_, _, rfl, rfl, rfl, rfl, hphase, rfl, fun later s'' h => (hlater later s'' h).1⟩

end Session

end ModelRelay.Delivery
