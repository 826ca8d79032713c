import ModelRelay.Proofs.Chat.Settling
import ModelRelay.Proofs.Relay.Alone
import ModelRelay.Relay.Shared

/-!
# What calls make of a shared body

**Whatever the order of their turns, calls over one body store at most one thing in its place**: the
text of its request, settled (`SharedBody.stored_once`). No lock is needed for that, because a call
that comes late finds a request that is settled already (`StoredBody.settle_settled`), and one that
looked early stores what the others do. What becomes of a call after that leaves the body alone.

The invariant is `Within`: the stored body is the first one or the settled one, every call holds one
of the two, and what a call has still to store is the settled one. A turn can do five things to the
body and to those who hold it (`Turned`), and each keeps the invariant; a run keeps it by induction
on its turns. The turns themselves are unfolded once, in `turned_of_turn?`.

That settling is idempotent goes across the printer and the reader: the text of a settled request is
read as that request, which is settled (`StoredBody.exists_settled`). It rests on what is shown of
printing in `Chat.Settling`.

Two calls that store at the same time are two turns, one after the other: a body is stored as a
whole.
-/

set_option autoImplicit false

namespace ModelRelay

open Chat

namespace StoredBody

/-- What is stored once the request in a body is settled. -/
def settled (b : StoredBody) : StoredBody :=
  match b.settle with
  | .ok (_, some replacement) => replacement
  | _ => b

variable {b : StoredBody} {r : Request}

theorem bytes_ofText (s : String) : (ofText s).bytes.data.toList = s.toUTF8.data.toList := rfl

/-- Where there is no request to settle, the failure is that of reading it. -/
theorem settle_of_error {e : RelayError} (h : Request.ofBytes b.bytes.data.toList = .error e) :
    b.settle = .error e := by
  rw [settle, h]
  rfl

theorem settle_of_ok (h : Request.ofBytes b.bytes.data.toList = .ok r) :
    b.settle = .ok (r.settle.1, if r.settle.2 then some (ofText r.settle.1.print) else none) := by
  rw [settle, h]
  rfl

/-- What a call stores for a body is the same whoever stores it. -/
theorem replacement_eq {request : Request} {replacement : StoredBody}
    (h : b.settle = .ok (request, some replacement)) : replacement = b.settled := by
  rw [settled, h]

/-- A body for which nothing is to be stored stays. -/
theorem settled_of_kept (h : ∀ request replacement, b.settle ≠ .ok (request, some replacement)) :
    b.settled = b := by
  rw [settled]
  split
  · rename_i request replacement hsettle
    exact absurd hsettle (h request replacement)
  · rfl

theorem settled_of_error {e : RelayError} (h : Request.ofBytes b.bytes.data.toList = .error e) :
    b.settled = b := by
  rw [settled, settle_of_error h]

theorem settled_of_eq (h : Request.ofBytes b.bytes.data.toList = .ok r) (hsame : r.settle.1 = r) :
    b.settled = b := by
  have hchanged : r.settle.2 = false := by
    rw [← Bool.not_eq_true, r.settle_spec.2.2]
    exact not_not.mpr hsame
  rw [settled, settle_of_ok h, hchanged]
  rfl

/-- A body with a request that is not settled is replaced by the text of the settled one. -/
theorem settled_of_ne (h : Request.ofBytes b.bytes.data.toList = .ok r) (hother : r.settle.1 ≠ r) :
    b.settled = ofText r.settle.1.print := by
  rw [settled, settle_of_ok h, r.settle_spec.2.2.mpr hother]
  rfl

/-- **A settled body holds a request that is settled.** -/
theorem exists_settled (h : Request.ofBytes b.bytes.data.toList = .ok r) :
    ∃ read, Request.ofBytes b.settled.bytes.data.toList = .ok read ∧
      read.settle = (read, false) := by
  by_cases hsame : r.settle.1 = r
  · rw [settled_of_eq h hsame]
    have hchanged : r.settle.2 = false := by
      rw [← Bool.not_eq_true, r.settle_spec.2.2]
      exact not_not.mpr hsame
    exact ⟨r, h, Prod.ext hsame hchanged⟩
  · have hmodel : isReasoningModel r.model = true := by
      by_contra hother
      exact hsame (r.settle_spec.2.1 (Bool.eq_false_of_not_eq_true hother))
    have hsettle : r.settle.1 = r.forReasoning := by rw [Request.settle, if_pos hmodel]
    obtain ⟨j, hj, hdecoded⟩ := Request.exists_spelledBy h
    have hwritable := Request.isWritable_of_decoder_ok hj.noSingle hj.fits (by decide) hdecoded
    rw [settled_of_ne h hsame, bytes_ofText, hsettle]
    exact Request.settle_reread hwritable hmodel

/-- Settling a settled body stores nothing. -/
theorem settle_settled : b.settled.settle = b.settle ∧ b.settled = b ∨
    ∃ read, b.settled.settle = .ok (read, none) := by
  cases h : Request.ofBytes b.bytes.data.toList with
  | error e => exact Or.inl ⟨by rw [settled_of_error h], settled_of_error h⟩
  | ok r =>
    obtain ⟨read, hread, hsettled⟩ := exists_settled h
    refine Or.inr ⟨read, ?_⟩
    rw [settle_of_ok hread, hsettled]
    rfl

theorem settled_settled (b : StoredBody) : b.settled.settled = b.settled := by
  rcases b.settle_settled with ⟨-, hsame⟩ | ⟨read, hread⟩
  · rw [hsame, hsame]
  · rw [settled, hread]

end StoredBody

namespace SharedBody

variable {d : Dispatcher} {b : StoredBody} {s s' : SharedBody} {holder : Holder} {i : ℕ}

/-- Calls that share a body hold what it was at first or what it is once it is settled, and have
nothing else to store. -/
structure Within (b : StoredBody) (s : SharedBody) : Prop where
  stored : s.stored = b ∨ s.stored = b.settled
  taken : ∀ holder ∈ s.holders, holder.taken = b ∨ holder.taken = b.settled
  replacement : ∀ holder ∈ s.holders, ∀ replacement, holder.stage = .replacing replacement →
    replacement = b.settled

/-! ## One turn

A turn of one call reads what is stored or writes it, and the rest of the traffic does neither. -/

/-- A call that is through with the body leaves it as it is, and goes on as a call that comes in. -/
theorem leave?_eq (h : s.leave? d i holder = some s') :
    s'.stored = s.stored ∧ s'.holders = s.holders.eraseIdx i ∧
      s.traffic.happen? d (.call holder.caller holder.taken holder.fresh) = some s'.traffic := by
  rw [leave?] at h
  obtain ⟨traffic, htraffic, h⟩ := Option.bind_eq_some_iff.mp h
  obtain rfl := Option.some.inj h
  exact ⟨rfl, rfl, htraffic⟩

/-- All that a turn may do to the stored body and to those who hold it. -/
inductive Turned (s s' : SharedBody) : Prop where
  | joined (caller : Caller) (fresh : Fresh) (stored : s'.stored = s.stored)
      (holders : s'.holders = s.holders ++ [{ caller, fresh, taken := s.stored }])
  | settled (holder : Holder) (mem : holder ∈ s.holders) (i : ℕ) (request : Request)
      (replacement : StoredBody) (settle : holder.taken.settle = .ok (request, some replacement))
      (stored : s'.stored = s.stored)
      (holders : s'.holders = s.holders.set i { holder with stage := .replacing replacement })
  | left (i : ℕ) (stored : s'.stored = s.stored) (holders : s'.holders = s.holders.eraseIdx i)
  | replaced (holder : Holder) (mem : holder ∈ s.holders) (i : ℕ) (replacement : StoredBody)
      (stage : holder.stage = .replacing replacement) (stored : s'.stored = replacement)
      (holders : s'.holders = s.holders.eraseIdx i)
  | beyond (stored : s'.stored = s.stored) (holders : s'.holders = s.holders)

/-- A call that settles what it holds has something to store, or leaves. -/
theorem turned_of_settle? (hmem : holder ∈ s.holders) (h : s.settle? d i holder = some s') :
    Turned s s' := by
  unfold settle? at h
  split at h
  · rename_i request replacement _ hsettle
    obtain rfl := Option.some.inj h
    exact .settled holder hmem i request replacement hsettle rfl rfl
  · obtain ⟨hstored, hholders, -⟩ := leave?_eq h
    exact .left i hstored hholders
  · nomatch h

theorem turned_of_replace? (hmem : holder ∈ s.holders) (h : s.replace? d i holder = some s') :
    Turned s s' := by
  unfold replace? at h
  split at h
  · rename_i replacement hstage
    obtain ⟨hstored, hholders, -⟩ := leave?_eq h
    exact .replaced holder hmem i replacement hstage hstored hholders
  · nomatch h

theorem turned_of_turn? {t : Turn} (h : s.turn? d t = some s') : Turned s s' := by
  cases t with
  | take caller fresh =>
    obtain rfl := Option.some.inj h
    exact .joined caller fresh rfl rfl
  | settle i =>
    obtain ⟨holder, hholder, h⟩ := Option.bind_eq_some_iff.mp h
    exact turned_of_settle? (List.mem_of_getElem? hholder) h
  | replace i =>
    obtain ⟨holder, hholder, h⟩ := Option.bind_eq_some_iff.mp h
    exact turned_of_replace? (List.mem_of_getElem? hholder) h
  | traffic happening =>
    obtain ⟨traffic, -, h⟩ := Option.bind_eq_some_iff.mp h
    obtain rfl := Option.some.inj h
    exact .beyond rfl rfl

/-- Whoever took the bytes, what is to be stored for them is the settled body. -/
theorem replacement_eq_settled {taken replacement : StoredBody} {request : Request}
    (htaken : taken = b ∨ taken = b.settled)
    (h : taken.settle = .ok (request, some replacement)) : replacement = b.settled := by
  rw [StoredBody.replacement_eq h]
  rcases htaken with rfl | rfl
  · rfl
  · exact b.settled_settled

/-- **A turn keeps the invariant.** Those who join hold what is stored, and those who store have the
settled body to store. -/
theorem Within.turned (hs : Within b s) (h : Turned s s') : Within b s' := by
  cases h with
  | joined caller fresh hstored hholders =>
    refine ⟨hstored ▸ hs.stored, fun holder hholder => ?_,
      fun holder hholder replacement hstage => ?_⟩
    all_goals
      rw [hholders, List.mem_append, List.mem_singleton] at hholder
      rcases hholder with hholder | rfl
    · exact hs.taken holder hholder
    · exact hs.stored
    · exact hs.replacement holder hholder replacement hstage
    · nomatch hstage
  | settled holder hmem i request replacement hsettle hstored hholders =>
    have htaken := hs.taken holder hmem
    refine ⟨hstored ▸ hs.stored, fun other hother => ?_, fun other hother stored hstage => ?_⟩
    all_goals
      rw [hholders] at hother
      rcases List.mem_or_eq_of_mem_set hother with hother | rfl
    · exact hs.taken other hother
    · exact htaken
    · exact hs.replacement other hother stored hstage
    · rw [← Stage.replacing.inj hstage]
      exact replacement_eq_settled htaken hsettle
  | left i hstored hholders =>
    refine ⟨hstored ▸ hs.stored, fun holder hholder => ?_, fun holder hholder => ?_⟩
    all_goals rw [hholders] at hholder
    · exact hs.taken holder (List.mem_of_mem_eraseIdx hholder)
    · exact hs.replacement holder (List.mem_of_mem_eraseIdx hholder)
  | replaced holder hmem i replacement hstage hstored hholders =>
    refine ⟨Or.inr (hstored.trans (hs.replacement holder hmem replacement hstage)),
      fun other hother => ?_, fun other hother => ?_⟩
    all_goals rw [hholders] at hother
    · exact hs.taken other (List.mem_of_mem_eraseIdx hother)
    · exact hs.replacement other (List.mem_of_mem_eraseIdx hother)
  | beyond hstored hholders =>
    exact ⟨hstored ▸ hs.stored, hholders ▸ hs.taken, hholders ▸ hs.replacement⟩

/-- No turn takes the settled body back. -/
theorem Within.stays_turned (hs : Within b s) (h : Turned s s') (hsettled : s.stored = b.settled) :
    s'.stored = b.settled := by
  cases h with
  | joined caller fresh hstored _ => exact hstored.trans hsettled
  | settled holder _ i request replacement _ hstored _ => exact hstored.trans hsettled
  | left i hstored _ => exact hstored.trans hsettled
  | replaced holder hmem i replacement hstage hstored _ =>
    exact hstored.trans (hs.replacement holder hmem replacement hstage)
  | beyond hstored _ => exact hstored.trans hsettled

/-! ## Any turns

By induction on the turns, the invariant and the last word of the settled body together: once it is
in place it stays. -/

theorem Within.after? {turns : List Turn} (hs : Within b s) (h : s.after? d turns = some s') :
    Within b s' ∧ (s.stored = b.settled → s'.stored = b.settled) := by
  induction turns generalizing s with
  | nil =>
    obtain rfl := Option.some.inj h
    exact ⟨hs, id⟩
  | cons t rest ih =>
    obtain ⟨mid, hmid, h⟩ := Option.bind_eq_some_iff.mp h
    have hturned := turned_of_turn? hmid
    obtain ⟨hwithin, hstays⟩ := ih (hs.turned hturned) h
    exact ⟨hwithin, fun hsettled => hstays (hs.stays_turned hturned hsettled)⟩

theorem within_start (b : StoredBody) : Within b { stored := b } :=
  ⟨Or.inl rfl, List.forall_mem_nil _, List.forall_mem_nil _⟩

/-- What becomes of those who are through with the body does not reach it any more. -/
theorem turn?_traffic {happening : Traffic.Happening}
    (h : s.turn? d (.traffic happening) = some s') :
    s'.stored = s.stored ∧ s'.holders = s.holders ∧
      s.traffic.happen? d happening = some s'.traffic := by
  obtain ⟨traffic, htraffic, h⟩ := Option.bind_eq_some_iff.mp h
  obtain rfl := Option.some.inj h
  exact ⟨rfl, rfl, htraffic⟩

/-- A call that is relayed from its start to its end leaves the settled body. -/
theorem relay_stored (d : Dispatcher) (caller : Caller) (b : StoredBody) (fresh : Fresh)
    (reader : Delivery.Session.Caller) : (d.relay caller b fresh reader).stored = b.settled := by
  rw [Dispatcher.relay, StoredBody.settled]
  split
  · rename_i e hsettle
    rw [hsettle]
  · rename_i request replacement hsettle
    rw [hsettle]
    cases replacement <;> rfl

/-! ## One call alone

`relay` is written as one function. Its turns are given here, so that what holds of any turns holds
of it. -/

section Alone

variable {caller : Caller} {fresh : Fresh} {traffic : Traffic}

theorem leave?_alone (stage : Stage) (stored : StoredBody)
    (h : ({} : Traffic).happen? d (.call caller b fresh) = some traffic) :
    ({ stored, holders := [⟨caller, fresh, b, stage⟩] } : SharedBody).leave? d 0
      ⟨caller, fresh, b, stage⟩ = some { stored, traffic } := by
  rw [leave?, h]
  rfl

theorem settle?_alone_of_replaced {request : Request} {replacement : StoredBody}
    (h : b.settle = .ok (request, some replacement)) :
    ({ stored := b, holders := [⟨caller, fresh, b, .reading⟩] } : SharedBody).settle? d 0
      ⟨caller, fresh, b, .reading⟩
      = some { stored := b, holders := [⟨caller, fresh, b, .replacing replacement⟩] } := by
  rw [settle?, h]
  rfl

theorem settle?_alone_of_kept
    (h : ({} : Traffic).happen? d (.call caller b fresh) = some traffic)
    (hkept : ∀ request replacement, b.settle ≠ .ok (request, some replacement)) :
    ({ stored := b, holders := [⟨caller, fresh, b, .reading⟩] } : SharedBody).settle? d 0
      ⟨caller, fresh, b, .reading⟩ = some { stored := b, traffic } := by
  rw [settle?]
  split
  · rename_i request replacement _ hsettle
    exact absurd hsettle (hkept request replacement)
  · exact leave?_alone .reading b h
  · rename_i hstage
    nomatch hstage

/-- Relaying a call from its start to its end is one of the ways things may go: it stores the same,
and the call goes on in the traffic. -/
theorem exists_turns_of_relay (d : Dispatcher) (caller : Caller) (b : StoredBody) (fresh : Fresh)
    (reader : Delivery.Session.Caller) : ∃ turns s,
      ({ stored := b } : SharedBody).after? d turns = some s ∧ s.holders = [] ∧
      s.stored = (d.relay caller b fresh reader).stored ∧
      ({} : Traffic).happen? d (.call caller b fresh) = some s.traffic := by
  rw [relay_stored]
  obtain ⟨traffic, htraffic⟩ : ∃ traffic,
      ({} : Traffic).happen? d (.call caller b fresh) = some traffic := ⟨_, rfl⟩
  by_cases hreplaced : ∃ request replacement, b.settle = .ok (request, some replacement)
  · obtain ⟨request, replacement, hsettle⟩ := hreplaced
    refine ⟨[.take caller fresh, .settle 0, .replace 0], { stored := replacement, traffic }, ?_,
      rfl, StoredBody.replacement_eq hsettle, htraffic⟩
    show (settle? d { stored := b, holders := [⟨caller, fresh, b, .reading⟩] } 0 _).bind _ = _
    rw [settle?_alone_of_replaced hsettle]
    exact congrArg (Option.bind · some) (leave?_alone (.replacing replacement) replacement htraffic)
  · have hkept : ∀ request replacement, b.settle ≠ .ok (request, some replacement) :=
      fun request replacement hsettle => hreplaced ⟨request, replacement, hsettle⟩
    refine ⟨[.take caller fresh, .settle 0], { stored := b, traffic }, ?_, rfl,
      (StoredBody.settled_of_kept hkept).symm, htraffic⟩
    exact congrArg (Option.bind · some) (settle?_alone_of_kept htraffic hkept)

end Alone

/-- **Calls over one body store its settled body in its place, or nothing**, in whatever order they
come to it and whatever becomes of them afterwards. Relaying a call from its start to its end is one
of the orders: alone with the body it stores what the relay does, and goes on in the traffic as the
call that came in.

It holds because settling is idempotent, across the printer and the reader too: a call that comes
when the settled body is in place has nothing to store, and one that took the bytes before has the
same to store as whoever was first. -/
theorem stored_once (b : StoredBody) :
    (∀ (d : Dispatcher) (turns : List Turn) (s : SharedBody),
      ({ stored := b } : SharedBody).after? d turns = some s →
      (s.stored = b ∨ s.stored = b.settled) ∧
      (∀ happening s', s.turn? d (.traffic happening) = some s' → s'.stored = s.stored) ∧
      ∀ more s', s.after? d more = some s' → s.stored = b.settled → s'.stored = b.settled) ∧
    (∀ (d : Dispatcher) (caller : Caller) (fresh : Fresh) (reader : Delivery.Session.Caller),
      (d.relay caller b fresh reader).stored = b.settled ∧
      ∃ turns s, ({ stored := b } : SharedBody).after? d turns = some s ∧ s.holders = [] ∧
        s.stored = (d.relay caller b fresh reader).stored ∧
        ({} : Traffic).happen? d (.call caller b fresh) = some s.traffic) ∧
    (∀ e, Request.ofBytes b.bytes.data.toList = .error e → b.settled = b) ∧
    ∀ r, Request.ofBytes b.bytes.data.toList = .ok r →
      (r.settle.1 = r → b.settled = b) ∧
      (r.settle.1 ≠ r → b.settled = .ofText r.settle.1.print) ∧
      (∃ read, Request.ofBytes b.settled.bytes.data.toList = .ok read ∧
        read.settle = (read, false)) ∧
      (isReasoningModel r.model = true → r.IsSettledFrom r.settle.1) ∧
      (isReasoningModel r.model = false → r.settle.1 = r) := by
  refine ⟨fun d turns s h => ?_, fun d caller fresh reader =>
    ⟨relay_stored d caller b fresh reader, exists_turns_of_relay d caller b fresh reader⟩,
    fun e h => StoredBody.settled_of_error h, fun r h => ?_⟩
  · obtain ⟨hwithin, -⟩ := (within_start b).after? h
    exact ⟨hwithin.stored, fun happening s' h => (turn?_traffic h).1,
      fun more s' hmore => (hwithin.after? hmore).2⟩
  · exact ⟨StoredBody.settled_of_eq h, StoredBody.settled_of_ne h, StoredBody.exists_settled h,
      r.settle_spec.1, r.settle_spec.2.1⟩

/-- Of two who took the bytes at once the second stores first, and then the first stores the same;
that no channel is found for it does not matter any more. -/
theorem two_calls_store_once :
    let d : Dispatcher := { services := .ofChannels [], send := fun _ => .failed "refused" }
    let caller : Caller := { id := "tests", protocol := .completions }
    let b := StoredBody.ofText <|
      "\x7b\"model\":\"o1-mini\",\"messages\":[\x7b\"role\":\"user\",\"content\":\"hi\"\x7d]," ++
        "\"max_tokens\":10,\"stream\":true\x7d"
    let settled :=
      "\x7b\"model\":\"o1-mini\",\"messages\":[\x7b\"role\":\"user\",\"content\":\"hi\"\x7d]," ++
        "\"temperature\":1.0,\"max_completion_tokens\":10,\"stream\":false\x7d"
    let turns : List Turn := [.take caller ⟨"1", 0, 0⟩, .take caller ⟨"2", 0, 0⟩, .settle 0,
      .settle 1, .replace 1, .replace 0, .traffic (.answered 1 (d.answerOf caller))]
    ∃ s, ({ stored := b } : SharedBody).after? d turns = some s ∧ s.stored.text = settled ∧
      s.traffic.calls.length = 2 ∧ s.stored = b.settled := by
  intro d caller b settled turns
  have hseen : (({ stored := b } : SharedBody).after? d turns).map
      (fun s => (s.stored.text, s.traffic.calls.length)) = some (settled, 2) := by
    decide +kernel
  obtain ⟨s, hs, heq⟩ := Option.map_eq_some_iff.mp hseen
  obtain ⟨htext, hcalls⟩ := Prod.mk.inj heq
  refine ⟨s, hs, htext, hcalls, ?_⟩
  rcases ((stored_once b).1 d turns s hs).1 with hsame | hsettled
  · have hother : b.text ≠ settled := by decide +kernel
    exact absurd (hsame ▸ htext) hother
  · exact hsettled

end SharedBody

end ModelRelay
