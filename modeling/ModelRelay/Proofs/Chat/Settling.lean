import ModelRelay.Chat.Reasoning
import ModelRelay.Proofs.Chat.RoundTrip

/-!
# Settled requests

Settling changes what a reasoning model refuses and nothing else (`Request.settle_spec`), and it
changes nothing twice. That holds across the text of a request too: what is written of a request is
accepted again, whatever becomes of the numbers in it (`Request.exists_ofBytes_print`), and **the
text of a request that is settled is read as one that is settled** (`Request.settle_reread`).

The body of a request is held as text between one attempt and the next, so that the second attempt
reads what the first one wrote. This is why it is not enough that settling a request twice is
settling it once. The request that is read may differ from the one that was written, in numbers that
do not come back and in blocks that are read as parts; but it is one, and the four members that
settling looks at are such as to come back: a one, a false, and two that are missing.
-/

set_option autoImplicit false

namespace ModelRelay.Chat

open Decoder Json

/-! ## What is written is accepted

For each field, something is read from what is written of it. What it is does not matter here,
except in the fields that settling looks at. -/

theorem exists_list {α : Type} {d : Decoder α} {items : List Json}
    (h : ∀ item ∈ items, ∃ a, d (.ofJson item) = .ok a) :
    ∃ as, list d (.ofJson (.array items)) = .ok as := by
  suffices hall : ∃ as, List.Forall₂ (fun item a => d (.ofJson item) = .ok a) items as by
    obtain ⟨as, hall⟩ := hall
    exact ⟨as, list_of hall⟩
  induction items with
  | nil => exact ⟨[], .nil⟩
  | cons item rest ih =>
    rw [List.forall_mem_cons] at h
    obtain ⟨a, ha⟩ := h.1
    obtain ⟨as, has⟩ := ih h.2
    exact ⟨a :: as, .cons ha has⟩

theorem exists_list_json (items : List Json) :
    ∃ held, list json (.ofJson (.array items)) = .ok held := by
  refine exists_list fun item _ => ?_
  obtain ⟨value, hvalue⟩ := Reading.exists_toJson?_ofJson item
  exact ⟨value, by rw [json, hvalue]⟩

/-- Every array is content: if it is no list of parts, it is one of blocks. -/
theorem Content.exists_decoder_array (items : List Json) :
    ∃ content, Content.decoder (.ofJson (.array items)) = .ok content := by
  obtain ⟨held, hheld⟩ := exists_list_json items
  cases hparts : list (ContentPart.decoder true) (.ofJson (.array items)) with
  | ok parts =>
    refine ⟨.parts parts, firstFit_of ?_⟩
    simp only [List.findSome?, hparts]
    rfl
  | error m =>
    refine ⟨.blocks held, firstFit_of ?_⟩
    simp only [List.findSome?, hparts, hheld]
    rfl

theorem Content.exists_decoder_reread (content : Content) :
    ∃ read, Content.decoder (.ofJson content.toJson.reread) = .ok read := by
  cases content with
  | text s => exact ⟨.text s, rfl⟩
  | null => exact ⟨.null, rfl⟩
  | parts parts => exact exists_decoder_array _
  | blocks held => exact exists_decoder_array _

theorem SystemPrompt.exists_holds_reread (prompt : SystemPrompt) :
    ∃ read, SystemPrompt.decoder.Holds (some prompt.toJson.reread) read := by
  cases prompt with
  | text s => exact ⟨some (.text s), _, rfl, rfl⟩
  | blocks held =>
    obtain ⟨items, hitems⟩ := exists_list_json (rereadItems held)
    have hread :
        SystemPrompt.decoder (.ofJson (.array (rereadItems held))) = .ok (.blocks items) := by
      apply firstFit_of
      simp only [List.findSome?, hitems]
      rfl
    exact ⟨some (.blocks items), .blocks items, hread, rfl⟩

/-- A number is read as a single, one beyond the singles as none. -/
theorem exists_holds_single {x : Binary} (hx : x.IsOf .single) :
    ∃ read, single.Holds (some (ofSingle x).reread) read := by
  cases x with
  | infinite negative => exact ⟨none, rfl⟩
  | finite negative m e =>
    obtain ⟨n, hwritten, -⟩ :=
      Number.exists_writtenAs (n := .single (.finite negative m e)) ⟨hx, rfl⟩
    rw [show (ofSingle (.finite negative m e)).reread = .number n from Number.reread_eq hwritten]
    cases n <;> exact ⟨some _, _, rfl, rfl⟩

theorem exists_holds_map {α : Type} {d : Decoder α} {write : α → Json} {x : Option α}
    (h : ∀ a, x = some a → ∃ read, d.Holds (some (write a).reread) read) :
    ∃ read, d.Holds ((x.map write).map reread) read := by
  cases x with
  | none => exact ⟨none, rfl⟩
  | some a => exact h a rfl

/-- What is kept without a field is kept again, found behind the members that have one. -/
theorem IsKept.exists_reread {fieldNames : List String} {room : ℕ} {extra : Extra}
    (h : IsKept fieldNames room extra) (fields : List (String × Option Json))
    (hfields : fields.map Prod.fst = fieldNames) :
    ∃ read : Extra, Sorted read ∧ ∀ name, read.lookup name = if name ∈ fieldNames then none
      else (((fields ++ extra.map fun ((name, value) : String × Json) =>
        (name, some value)).lookup name).join.map reread).map Json.canonical := by
  refine ⟨extra.map fun e => (e.1, e.2.reread.canonical), ?_, fun name => ?_⟩
  · rw [Sorted, List.pairwise_map]
    exact h.sorted
  · rw [lookup_map_values fun value => value.reread.canonical]
    split_ifs with hname
    · rw [h.lookup_eq hname]
      rfl
    · rw [lookup_behind (hfields ▸ hname), Option.map_map]
      rfl

theorem Message.exists_decoder_reread {room : ℕ} {m : Message} (h : m.IsWritable room) :
    ∃ read, Message.decoder (.ofJson m.toJson.reread) = .ok read := by
  obtain ⟨content, hcontent⟩ := m.content.exists_decoder_reread
  obtain ⟨extra, hsorted, hextra⟩ :=
    h.extra.exists_reread [("role", some (.string m.role.name)),
      ("content", some m.content.toJson), ("name", m.name.map .string)] rfl
  refine ⟨⟨m.role, content, m.name, extra⟩, ?_⟩
  rw [toJson_eq, reread_ofMembers, decoder_iff (nodup_rereadOf h.nodup)
    (noSingle_rereadOf h.fits_toJson)]
  have hlookup := lookup_rereadOf h.nodup
  refine ⟨?_, ?_, ?_, hsorted, fun name => ?_⟩
  all_goals rw [hlookup]
  · exact ⟨_, rfl, m.role.decoder_name⟩
  · exact Or.inr ⟨_, rfl, hcontent⟩
  · exact holds_text m.name
  · exact hextra name

namespace Request

variable {room : ℕ} {r : Request}

/-- What is found under each name of a request once it is written and read. -/
def found (r : Request) (name : String) : Option Json :=
  (r.members.lookup name).join.map reread

/-- **What is found of a request once it is written is what some request holds.** Its turns, its
instructions and its four fractions may differ from those that were written, and the other fields
are the same. -/
theorem exists_heldIn_found (h : r.IsWritable room) : ∃ read, HeldIn r.found read := by
  have hturns : ∃ read, list Message.decoder
      (.ofJson (.array (rereadItems (r.messages.map Message.toJson)))) = .ok read := by
    rw [rereadItems_eq_map, List.map_map]
    refine exists_list fun item hitem => ?_
    obtain ⟨m, hm, rfl⟩ := List.mem_map.mp hitem
    exact Message.exists_decoder_reread (h.messages m hm)
  -- A fraction may come back as another one, as what is printed of it is read as a double first.
  have hsingle : ∀ {x : Option Binary}, (∀ y, x = some y → y ∈ r.singles) →
      ∃ read, single.Holds ((x.map ofSingle).map reread) read :=
    fun hx => exists_holds_map fun y hy => exists_holds_single (h.singles y (hx y hy))
  obtain ⟨messages, hmessages⟩ := hturns
  obtain ⟨system, hsystem⟩ := exists_holds_map fun prompt (_ : r.system = some prompt) =>
    prompt.exists_holds_reread
  obtain ⟨temperature, htemperature⟩ := hsingle fun y hy => mem_singles.mpr (Or.inl hy)
  obtain ⟨topP, htopP⟩ := hsingle fun y hy => mem_singles.mpr (Or.inr (Or.inl hy))
  obtain ⟨frequency, hfrequency⟩ :=
    hsingle fun y hy => mem_singles.mpr (Or.inr (Or.inr (Or.inl hy)))
  obtain ⟨presence, hpresence⟩ :=
    hsingle fun y hy => mem_singles.mpr (Or.inr (Or.inr (Or.inr hy)))
  obtain ⟨extra, hsorted, hextra⟩ := h.extra.exists_reread (r.members.take 14) rfl
  -- What may have changed is taken from what was found, and the rest from the request.
  exact ⟨{
    r with
    messages, system, temperature, topP, extra
    frequencyPenalty := frequency
    presencePenalty := presence }, {
    model := ⟨_, rfl, rfl⟩
    messages := ⟨_, rfl, hmessages⟩
    system := hsystem
    temperature := htemperature
    maxTokens := holds_map fun n _ => decoder_word n
    maxCompletionTokens := holds_map fun n _ => decoder_word n
    topP := htopP
    topK := holds_map fun n _ => decoder_word n
    frequencyPenalty := hfrequency
    presencePenalty := hpresence
    stop := holds_map fun strings _ => decoder_stop strings
    stopSequences := holds_map fun strings _ => decoder_strings strings
    stream := Or.inr ⟨_, rfl, rfl⟩
    user := holds_text r.user
    sorted := hsorted
    extra := hextra }⟩

/-- **What is written of a request is accepted again.** -/
theorem exists_ofBytes_print (h : r.IsWritable (Draft.depth - 1)) :
    ∃ read, Request.ofBytes r.print.toUTF8.data.toList = .ok read ∧ HeldIn r.found read := by
  obtain ⟨read, hheld⟩ := exists_heldIn_found h
  have hspelled := spelledBy_print (h.fits_toJson (by decide))
  have hread : Request.decoder (.ofJson r.toJson.reread) = .ok read := by
    rw [toJson, reread_ofMembers, decoder_iff (nodup_rereadOf h.nodup)
      (noSingle_rereadOf (h.fits_toJson (by decide)))]
    have hlookup : (fun name => (rereadOf r.members).lookup name) = r.found :=
      funext (lookup_rereadOf h.nodup)
    rwa [hlookup]
  refine ⟨read, ?_, hheld⟩
  rw [Request.ofBytes, Request.print, hspelled.ofBytes, hread]
  rfl

/-! ## What settling does

Settling is one change, made if the model is a reasoning one and if there is anything to change; the
test is told as an outcome. -/

/-- What a reasoning model takes in place of a request. -/
structure IsSettledFrom (r settled : Request) : Prop where
  temperature : settled.temperature = some (Binary.ofNat .single false 1)
  presencePenalty : settled.presencePenalty = none
  maxTokens : settled.maxTokens = none
  stream : settled.stream = false
  extra : settled.extra = r.extra.filter fun e => e.1 ≠ "stream_options"
  outputLimit : settled.outputLimit = r.outputLimit
  others : settled = { r with
    temperature := settled.temperature
    presencePenalty := settled.presencePenalty
    maxTokens := settled.maxTokens
    maxCompletionTokens := settled.maxCompletionTokens
    stream := settled.stream
    extra := settled.extra }

theorem isSettledFrom_forReasoning (r : Request) : r.IsSettledFrom r.forReasoning where
  temperature := rfl
  presencePenalty := rfl
  maxTokens := rfl
  stream := rfl
  extra := List.filter_congr fun e _ => by simp [bne, Bool.beq_eq_decide_eq]
  outputLimit := by
    rw [outputLimit, outputLimit, forReasoning, Option.or_none]
  others := rfl

theorem isForReasoning_iff : r.isForReasoning = true ↔
    r.maxTokens = none ∧ r.presencePenalty = none ∧ r.temperature = some reasoningTemperature ∧
      r.stream = false ∧ "stream_options" ∉ r.extra.map Prod.fst := by
  have hextra : "stream_options" ∈ r.extra.map Prod.fst ↔
      ∃ member ∈ r.extra, member.1 = "stream_options" := List.mem_map
  rw [hextra, isForReasoning, Bool.and_eq_true, Bool.not_eq_true', ← Bool.not_eq_true,
    List.any_eq_true]
  simp only [Bool.and_eq_true, Option.isNone_iff_eq_none, beq_iff_eq, Bool.not_eq_true', and_assoc]

/-- A request that a reasoning model takes is not changed. -/
theorem isForReasoning_iff_eq : r.isForReasoning = true ↔ r.forReasoning = r := by
  rw [isForReasoning_iff]
  constructor
  · rintro ⟨hmax, hpresence, htemperature, hstream, hextra⟩
    rw [forReasoning, Json.eraseMember_of_notMem hextra, hmax, Option.or_none, ← hpresence,
      ← htemperature, ← hstream, ← hmax]
  · intro h
    have hextra : "stream_options" ∉ r.forReasoning.extra.map Prod.fst := by
      intro hmem
      obtain ⟨e, he, hname⟩ := List.mem_map.mp hmem
      exact bne_iff_ne.mp (List.mem_filter.mp he).2 hname
    rw [← h]
    exact ⟨rfl, rfl, rfl, rfl, hextra⟩

/-- **Settling changes what a reasoning model refuses, and says so.** -/
theorem settle_spec (r : Request) :
    (isReasoningModel r.model = true → r.IsSettledFrom r.settle.1) ∧
    (isReasoningModel r.model = false → r.settle.1 = r) ∧
    (r.settle.2 = true ↔ r.settle.1 ≠ r) := by
  rw [settle]
  split_ifs with hmodel
  · refine ⟨fun _ => r.isSettledFrom_forReasoning,
      fun h => absurd hmodel (ne_true_of_eq_false h), ?_⟩
    rw [Bool.not_eq_true', ne_eq, ← isForReasoning_iff_eq, Bool.not_eq_true]
  · exact ⟨fun h => absurd h hmodel, fun _ => rfl, by simp⟩

/-- The change leaves a request writable: the one that it puts in is a single. -/
theorem IsWritable.forReasoning (h : r.IsWritable room) : r.forReasoning.IsWritable room where
  messages := h.messages
  system := h.system
  singles x hx := by
    rcases mem_singles.mp hx with hx | hx | hx | hx
    · rw [← Option.some.inj hx]
      exact Binary.isOf_ofFraction .single Binary.isSound_single false 1 one_pos
    · exact h.singles x (mem_singles.mpr (Or.inr (Or.inl hx)))
    · exact h.singles x (mem_singles.mpr (Or.inr (Or.inr (Or.inl hx))))
    · nomatch hx
  extra := {
    sorted := h.extra.sorted.sublist List.filter_sublist
    apart := fun e he => h.extra.apart e (List.mem_of_mem_filter he)
    canonical := fun e he => h.extra.canonical e (List.mem_of_mem_filter he)
    fits := fun e he => h.extra.fits e (List.mem_of_mem_filter he) }

/-- **The text of a request that is settled is read as one that is settled.** -/
theorem settle_reread (h : r.IsWritable (Draft.depth - 1))
    (hmodel : isReasoningModel r.model = true) :
    ∃ read, Request.ofBytes r.forReasoning.print.toUTF8.data.toList = .ok read ∧
      read.settle = (read, false) := by
  obtain ⟨read, hread, hheld⟩ := exists_ofBytes_print h.forReasoning
  -- The members that settling looks at, one by one, as they are found in the text.
  have hsame : read.model = r.model := by
    obtain ⟨j, hj, htext⟩ := hheld.model
    obtain rfl := Option.some.inj (show some (Json.string r.model) = some j from hj)
    exact (Except.ok.inj (show Except.ok r.model = .ok read.model from htext)).symm
  have htemperature : read.temperature = some reasoningTemperature := by
    have hone : (ofSingle reasoningTemperature).reread
        = .number (.double (Binary.ofNat .double false 1)) :=
      Number.reread_eq (Number.print_one ▸ Number.writtenAs_one)
    have hholds : single.Holds (some (ofSingle reasoningTemperature).reread) read.temperature :=
      hheld.temperature
    rw [hone] at hholds
    obtain ⟨x, hx, heq⟩ := hholds
    rw [heq, ← Except.ok.inj hx]
    rfl
  have hstream : read.stream = false := by
    rcases hheld.stream with ⟨-, hstream⟩ | ⟨j, hj, hbool⟩
    · exact hstream
    · obtain rfl := Option.some.inj (show some (Json.bool false) = some j from hj)
      exact (Except.ok.inj (show Except.ok false = .ok read.stream from hbool)).symm
  have hextra : "stream_options" ∉ read.extra.map Prod.fst := by
    have hfree : "stream_options" ∉ fieldNames := by decide
    have hbehind : (r.forReasoning.members.lookup "stream_options").join
        = r.forReasoning.extra.lookup "stream_options" := lookup_behind hfree
    apply notMem_of_lookup
    rw [hheld.extra, if_neg hfree, found, hbehind,
      show r.forReasoning.extra = eraseMember "stream_options" r.extra from rfl,
      lookup_eraseMember, if_pos rfl]
    rfl
  have hsettled : read.isForReasoning = true :=
    isForReasoning_iff.mpr ⟨hheld.maxTokens, hheld.presencePenalty, htemperature, hstream, hextra⟩
  refine ⟨read, hread, ?_⟩
  rw [settle, if_pos (hsame ▸ hmodel), isForReasoning_iff_eq.mp hsettled, hsettled]
  rfl

end Request

end ModelRelay.Chat
