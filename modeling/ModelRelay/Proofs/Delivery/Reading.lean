import ModelRelay.Channel
import ModelRelay.Proofs.Delivery.Schedule

/-!
# A stream that is read to its end

What becomes of a stream whose caller keeps reading is settled by its items: by the first that is
the end signal or a failure, and by what was heard before it. The phase, the frames, the text and
the counts can all be read off there, **in every order of moves** (`reading_caller_gets_all`); the
loop that `run` is makes one of them.

The caller is the only one of whom anything is asked. It stays, it reads in time, and it reads what
is left when the courier is done (`FullyRead`). Moves that are made as long as one can be made get
there (`fullyRead_of_stuck`).

So there are three parts to it: that such a play exists, that every play which stops only where
nobody can move is one, and what each of them comes to. The first two say that the third is not
empty; the third follows from the script and the verdict of the items, as nothing was lost.
-/

set_option autoImplicit false

namespace ModelRelay

namespace Chat

/-- A sum that does not fit stops at the greatest word. -/
theorem toNat_addSaturating (a b : UInt32) :
    (addSaturating a b).toNat = min (a.toNat + b.toNat) (UInt32.size - 1) := by
  have hsize : UInt32.size = 0x100000000 := rfl
  rw [addSaturating]
  split
  · rename_i h
    show UInt32.size - 1 = _
    omega
  · rename_i h
    rw [UInt32.toNat_add, Nat.mod_eq_of_lt (by omega)]
    omega

end Chat

namespace Delivery

open Sse

namespace Session

variable {d : EventDecoder}

/-- A session that went to its end with a caller who stays, reads in time, and reads it all. -/
structure FullyRead (start : Session d) (moves : List Move) (fin : Session d) : Prop where
  played : start.play moves = some fin
  stays : .leave ∉ moves
  inTime : .expire ∉ moves
  ended : ∃ r, fin.courier.stage = .ended r
  drained : fin.mailbox.queue = []

variable {items : List Item} {native : Bool} {promptTokens : UInt32} {buffer patience : Nat}
  {moves : List Move} {fin : Session d}

/-- A stream that is read to its end comes to what all that came comes to. -/
theorem FullyRead.comesTo
    (h : FullyRead (.ofItems items native promptTokens buffer patience) moves fin) :
    fin.received = d.script native d.start (items ++ Move.arrivals moves) ∧
      fin.courier.result?
        = d.verdict promptTokens d.start "" {} (items ++ Move.arrivals moves) := by
  obtain ⟨ho, read, ht, hin⟩ :=
    (tracked_start _).play_of_staying rfl h.played h.stays h.inTime
  have hacc := (accounts_ofItems items native promptTokens buffer patience).play h.played
  obtain ⟨r, hended⟩ := h.ended
  have hsent := hacc.here ho
  rw [h.drained, List.append_nil] at hsent
  constructor
  · -- What is over has nothing more to foretell, so all that was foretold has been handed over.
    have hall := ht.foretold fin.incoming
    rw [hin, Courier.foretold, hended, List.append_nil] at hall
    rw [hsent, hall]
    rfl
  · have hfate := ht.fate fin.incoming
    rw [hin, Courier.fate, hended] at hfate
    rw [Courier.result?, hended]
    exact hfate

/-- The frames and the result are those that the items come to, whatever else has come since. -/
theorem FullyRead.outcome
    (h : FullyRead (.ofItems items native promptTokens buffer patience) moves fin) :
    ∃ more, fin.received = d.script native d.start (items ++ more) ∧
      fin.courier.result? = d.verdict promptTokens d.start "" {} (items ++ more) ∧
      fin.courier.IsCoherent :=
  ⟨Move.arrivals moves, h.comesTo.1, h.comesTo.2, isCoherent_play (isCoherent_ofItems ..) h.played⟩

/-- A body that ends comes to a result, whatever comes behind it. -/
theorem exists_verdict (d : EventDecoder) (items more : List Item) (promptTokens : UInt32) :
    ∃ r, d.verdict promptTokens d.start "" {} (items ++ [.finished] ++ more) = some r := by
  obtain ⟨before, item, after, told, s', heq, hears, hdec⟩ :=
    EventDecoder.exists_decisive d.start items
  rw [heq, List.append_assoc, List.cons_append, EventDecoder.verdict_of_hears hears]
  exact EventDecoder.verdict_of_decisive hdec _

/-- A courier that goes on reading has not read what comes to a result. -/
theorem incoming_of_verdict {s : Session d} {r : Except RelayError Outcome}
    (hp : (Session.ofItems items native promptTokens buffer patience).play moves = some s)
    (hleave : .leave ∉ moves) (hexpire : .expire ∉ moves) (hstage : s.courier.stage = .reading)
    (hverdict : d.verdict promptTokens d.start "" {} (items ++ Move.arrivals moves) = some r) :
    s.incoming ≠ [] := by
  intro hin
  obtain ⟨-, read, ht, hread⟩ := (tracked_start _).play_of_staying rfl hp hleave hexpire
  have hfate := ht.fate []
  rw [Courier.fate, hstage, List.append_nil] at hfate
  rw [hin, List.append_nil] at hread
  rw [hread] at hfate
  exact absurd (hfate.trans hverdict) (by simp [EventDecoder.verdict])

/-- A courier that has read the end of the body does not go on reading. -/
theorem incoming_of_reading {s : Session d}
    (hp : (Session.ofItems (items ++ [.finished]) native promptTokens buffer patience).play moves
      = some s)
    (hleave : .leave ∉ moves) (hexpire : .expire ∉ moves) (hstage : s.courier.stage = .reading) :
    s.incoming ≠ [] := by
  obtain ⟨r, hverdict⟩ := exists_verdict d items (Move.arrivals moves) promptTokens
  exact incoming_of_verdict hp hleave hexpire hstage hverdict

/-- **Nobody waits for ever**: where neither the courier nor the caller can move, all is read. -/
theorem fullyRead_of_stuck {s : Session d}
    (hp : (Session.ofItems (items ++ [.finished]) native promptTokens buffer patience).play moves
      = some s)
    (hleave : .leave ∉ moves) (hexpire : .expire ∉ moves)
    (hstuck : ∀ m ∈ [Move.read, .accept, .receive], s.move? m = none) :
    FullyRead (.ofItems (items ++ [.finished]) native promptTokens buffer patience) moves s := by
  obtain ⟨ho, -⟩ := (tracked_start _).play_of_staying rfl hp hleave hexpire
  have hdrained : s.mailbox.queue = [] := by
    have hreceive := hstuck .receive (by simp)
    cases hq : s.mailbox.queue with
    | nil => rfl
    | cons frame rest => exact absurd hreceive (by simp [move?, Mailbox.receive?, hq])
  refine ⟨hp, hleave, hexpire, ?_, hdrained⟩
  cases hstage : s.courier.stage with
  | ended r => exact ⟨r, rfl⟩
  | reading =>
    have hread := hstuck .read (by simp)
    cases hin : s.incoming with
    | nil => exact absurd hin (incoming_of_reading hp hleave hexpire hstage)
    | cons item rest => exact absurd hread (by simp [move?, hstage, hin, ho])
  | sending frame waiting goal =>
    -- An empty mailbox has room, so the frame that is being sent can be accepted.
    have hroom : s.mailbox.isFull = false := by
      rw [Mailbox.isFull, hdrained]
      exact decide_eq_false (Nat.not_le_of_lt s.mailbox.capacity_pos)
    exact absurd (hstuck .accept (by simp)) (by simp [move?, hstage, Mailbox.send, ho, hroom])

/-- Running a session whose items come to a result is one way to read it all. -/
theorem fullyRead_run_of_verdict (native : Bool) (buffer patience : Nat)
    {r : Except RelayError Outcome}
    (hverdict : d.verdict promptTokens d.start "" {} items = some r) :
    ∃ moves, Move.arrivals moves = [] ∧
      FullyRead (.ofItems items native promptTokens buffer patience) moves
        ((Session.ofItems items native promptTokens buffer patience : Session d).run {}) := by
  obtain ⟨s, ⟨moves, hok, hplay⟩, ho, -, hend⟩ :=
    run_reader (Session.ofItems items native promptTokens buffer patience : Session d) rfl rfl
  have hnone : ∀ moves : List Move, (∀ m ∈ moves, Staying m) → Move.arrivals moves = [] := by
    intro moves hok
    rw [Move.arrivals, List.flatMap_eq_nil_iff]
    exact fun m hm => (hok m hm).2.2
  -- Either the courier is over, and one more turn of the caller empties the mailbox, or all items
  -- are gone and it still reads, which a verdict excludes.
  rcases hend with ⟨⟨r, hended⟩, hrun⟩ | ⟨hstage, hin⟩
  · obtain ⟨more, hok', hplay'⟩ := reaches_callerTurn_reader s
    have hall : ∀ m ∈ moves ++ more, Staying m := by
      intro m hm
      rcases List.mem_append.mp hm with hm | hm
      · exact hok m hm
      · exact hok' m hm
    refine ⟨moves ++ more, hnone _ hall, ?_, fun hm => (hall _ hm).1 rfl,
      fun hm => (hall _ hm).2.1 rfl, ⟨r, ?_⟩, ?_⟩
    · rw [play_append, hplay, hrun]
      exact hplay'
    · rw [hrun, callerTurn_reader]
      exact hended
    · rw [hrun, callerTurn_reader]
  · have hverdict' :
        d.verdict promptTokens d.start "" {} (items ++ Move.arrivals moves) = some r := by
      rw [hnone moves hok, List.append_nil]
      exact hverdict
    exact absurd hin (incoming_of_verdict hplay (fun hm => (hok _ hm).1 rfl)
      (fun hm => (hok _ hm).2.1 rfl) hstage hverdict')

/-- Running a session whose provider comes to an end is one way to read it all. -/
theorem fullyRead_run (items : List Item) (native : Bool) (promptTokens : UInt32)
    (buffer patience : Nat) :
    ∃ moves, FullyRead (.ofItems (items ++ [.finished]) native promptTokens buffer patience) moves
      ((Session.ofItems (items ++ [.finished]) native promptTokens buffer patience :
        Session d).run {}) := by
  obtain ⟨r, hverdict⟩ := exists_verdict d items [] promptTokens
  rw [List.append_nil] at hverdict
  obtain ⟨moves, -, hread⟩ := fullyRead_run_of_verdict native buffer patience hverdict
  exact ⟨moves, hread⟩

/-- **A caller who keeps reading gets all of a stream, up to the first item that ends it.** `told`
is what the items before that one mean.

It holds because a full reading leaves nothing in the mailbox and ends with a verdict on the items,
and the verdict is settled by the items alone: `exists_decisive` finds the one that decides. That
there is such a reading is shown by running one, and by a stuck session, where no move can be made
unless the reading is full. -/
theorem reading_caller_gets_all (d : EventDecoder) (route : Route) (items : List Item)
    (buffer patience : Nat) :
    let start : Session d :=
      .ofItems (items ++ [.finished]) route.isNative route.promptTokens buffer patience
    (∃ moves, FullyRead start moves (start.run {})) ∧
    (∀ moves s, start.play moves = some s → .leave ∉ moves → .expire ∉ moves →
      (∀ m ∈ [Move.read, .accept, .receive], s.move? m = none) → FullyRead start moves s) ∧
    ∃ before item after told s,
      items ++ [.finished] = before ++ item :: after ∧ d.Hears d.start before told s ∧
      ∀ moves fin, FullyRead start moves fin →
        (∃ e s' last, item = .event e ∧ d.decode s e = .ok (s', last) ∧ last.finished = true ∧
          fin.courier.phase = .done ∧
          fin.received = (told ++ [last]).flatMap (·.frames) ++ d.closing s' ∧
          ∃ outcome, fin.courier.result? = some (.ok outcome) ∧ outcome.body = none ∧
            outcome.text = toldText (told ++ [last]) ∧
            outcome.usage.prompt
              = (lastReported (·.prompt) (told ++ [last])).getD route.promptTokens ∧
            outcome.usage.completion
              = (lastReported (·.completion) (told ++ [last])).getD
                  (Chat.Tokens.ofText outcome.text) ∧
            outcome.usage.total.toNat
              = min (outcome.usage.prompt.toNat + outcome.usage.completion.toNat)
                  (UInt32.size - 1)) ∨
        ∃ fault, d.failure? s item = some fault ∧
          fin.courier.phase = .failed ∧ fin.courier.result? = some (.error fault) ∧
          fin.received = told.flatMap (·.frames) ++ [Frame.ofError route.isNative fault] := by
  intro start
  refine ⟨fullyRead_run items route.isNative route.promptTokens buffer patience,
    fun moves s => fullyRead_of_stuck, ?_⟩
  obtain ⟨before, item, after, told, s, heq, hears, hdec⟩ :=
    EventDecoder.exists_decisive d.start items
  refine ⟨before, item, after, told, s, heq, hears, fun moves fin hfin => ?_⟩
  obtain ⟨more, hreceived, hresult, hcoh⟩ := hfin.outcome
  rw [heq, List.append_assoc, List.cons_append] at hreceived hresult
  rw [EventDecoder.script_of_hears hears] at hreceived
  rw [EventDecoder.verdict_of_hears hears] at hresult
  -- What decides the stream is one item: an event that ends it, or whatever fails first.
  rcases hdec with ⟨e, s', last, rfl, hok, hlast⟩ | ⟨fault, hfail⟩
  · left
    rw [EventDecoder.script_of_end hok hlast] at hreceived
    rw [EventDecoder.verdict_of_end hok hlast] at hresult
    refine ⟨e, s', last, rfl, hok, hlast, ?_, ?_, _, hresult, rfl, ?_, ?_, ?_, ?_⟩
    · exact hcoh.phase_of_ok hresult
    · rw [hreceived, List.flatMap_append, List.flatMap_singleton, List.append_assoc]
    · rw [toldText_concat, String.empty_append]
    · show Option.getD ((toldUsage {} told).merge last.usage).prompt _ = _
      rw [← toldUsage_concat, count_toldUsage (·.prompt) (fun _ _ => rfl), Option.or_none]
    · show Option.getD ((toldUsage {} told).merge last.usage).completion _ = _
      rw [← toldUsage_concat, count_toldUsage (·.completion) (fun _ _ => rfl), Option.or_none]
    · exact Chat.toNat_addSaturating _ _
  · right
    rw [EventDecoder.script_of_failure? hfail] at hreceived
    rw [EventDecoder.verdict_of_failure? hfail] at hresult
    exact ⟨fault, hfail, hcoh.phase_of_error hresult, hresult, hreceived⟩

/-- A provider that says one word and ends: the caller gets the word, and the call comes to it. -/
theorem reading_caller_gets_word :
    let start : Session .echo := .ofItems ([.event ⟨"word", "hello"⟩, .event ⟨"end", ""⟩] ++
      [.finished]) false 7 1 1000
    ∃ fin told last outcome,
      FullyRead start [.read, .accept, .read, .receive, .accept, .receive] fin ∧
        fin.received = (told ++ [last]).flatMap (·.frames) ∧
        fin.received = [.data "hello", .done] ∧
        fin.courier.result? = some (.ok outcome) ∧ outcome.text = toldText (told ++ [last]) := by
  have hread : FullyRead
      (.ofItems ([.event ⟨"word", "hello"⟩, .event ⟨"end", ""⟩] ++ [.finished]) false 7 1 1000 :
        Session .echo)
      [.read, .accept, .read, .receive, .accept, .receive] _ :=
    ⟨rfl, by decide, by decide, ⟨_, rfl⟩, rfl⟩
  obtain ⟨-, -, before, item, after, told, s, -, -, hall⟩ :=
    reading_caller_gets_all .echo
      { channel := { id := "c", family := .openai, baseUrl := "", apiKey := "" }, model := "m",
        protocol := .completions, stream := true, promptTokens := 7 }
      [.event ⟨"word", "hello"⟩, .event ⟨"end", ""⟩] 1 1000
  rcases hall _ _ hread with
    ⟨e, s', last, -, -, -, -, hframes, outcome, hresult, -, htext, -⟩ | ⟨fault, -, -, hresult, -⟩
  · rw [show EventDecoder.echo.closing s' = [] from rfl, List.append_nil] at hframes
    exact ⟨_, told, last, outcome, hread, hframes, rfl, hresult, htext⟩
  · have hok : (Except.ok _ : Except RelayError Outcome) = .error fault := Option.some.inj hresult
    exact absurd hok (by simp)

end Session

end Delivery

end ModelRelay
