import ModelRelay.Claude.Stream
import ModelRelay.Proofs.Json.Written

/-!
# What messages and their events say

A message can be told in one piece or event by event. `Answer.IsWritten` says of a JSON value that
it is a whole message; `Opens`, `StartsBlock`, `AddsText`, `Changes`, `Stops` and `IsIdle` say of an
event what part of a message it tells. All of them are about the JSON that a provider sends and
leave it every freedom in writing it: the order of the members, further members, blanks between
them, a count as a word or as nothing, a field that is `null` or not there. **The decoders take each
of them to what it says** (`Answer.decoder_of_isWritten`, and one lemma `conveys` for each kind of
event).

The records of the two sides have fields of several kinds, and the decoders of all of them have one
shape: each member is put into the slot of its name, and the slots make the value. For each record
there is therefore the same list of lemmas. `put_kept` says which slot a name leaves alone,
`fills_*` that a name fills its slot, `put_of_notMem` that other names fill none. What a record is
read as is put together from them with the lemmas about `Decoder.members`.

An event is told by its type in the data, never by the name in front of it. Its type is read first,
wherever it stands among the members, and the fields are read from the record without it; this is
`Tells.conveys`, and the lemmas for the kinds of event supply the fields.

Records in which a name occurs twice and counts that are no words are left out of these statements:
a provider that sends them has not said one thing, and the decoders may refuse them.
-/

set_option autoImplicit false

namespace ModelRelay.Claude

open Decoder Sse

/-! ## Whole messages

A message is written as a record with an id and a list of blocks. Model, reason for the end and
counts may be left out. -/

/-- A record in which a member has the text, or has none where there is no text. -/
def HasText (name : String) (t : Option String) : Json → Prop :=
  Json.IsRecord fun get => Json.Gives Json.IsText t (get name)

/-- A record of the two counts, each of which may be left out. -/
def UsageReport.IsWritten (u : UsageReport) : Json → Prop :=
  Json.IsRecord fun get =>
    Json.Gives Json.IsWord u.input (get "input_tokens") ∧
      Json.Gives Json.IsWord u.output (get "output_tokens")

/-- A record of the message: the id as a text, and each block with the text it has. -/
def Answer.IsWritten (m : Answer) : Json → Prop :=
  Json.IsRecord fun get =>
    get "id" = some (.string m.id) ∧
      Json.Gives Json.IsText m.model (get "model") ∧
      (∃ blocks, get "content" = some (.array blocks) ∧
        List.Forall₂ (fun block t => HasText "text" t block) blocks m.blocks) ∧
      Json.Gives Json.IsText m.stopReason (get "stop_reason") ∧
      Json.Gives UsageReport.IsWritten m.usage (get "usage")

theorem hasText_isReadBy (name : String) : Json.IsReadBy (HasText name) (textDecoder name) := by
  rintro t j ⟨ms, rfl, hnodup, htext⟩
  refine ⟨nofun, ?_⟩
  have hfills : Fills (putText name) name (optional text) id := fills_single fun _ _ _ => rfl
  obtain ⟨slot, hslot⟩ : ∃ slot, members (putText name) none (Reading.ofMembers ms) = .ok slot :=
    members_single (fun _ _ _ => rfl) hnodup
      (hfills.awaits_of_gives rfl htext Json.isText_isReadBy)
  have hjoin : slot.join = t := hfills.join_eq hslot rfl htext Json.isText_isReadBy
  show Decoder.members (putText name) none (Reading.ofMembers ms) >>= _ = _
  rw [hslot, ← hjoin]
  rfl

namespace UsageReport

theorem put_kept {s s' : Slots} {name : String} {r : Reading} (h : put s name r = .ok s') :
    (name ≠ "input_tokens" → s'.input = s.input) ∧
      (name ≠ "output_tokens" → s'.output = s.output) := by
  unfold put at h
  split at h
  all_goals
    obtain ⟨_, -, h⟩ := exists_of_bind_ok h
    rw [← Except.ok.inj h]
    simp

theorem fills_input : Fills put "input_tokens" (optional word) (·.input) :=
  .of_set (fun _ _ => rfl) (fun _ _ => rfl) fun hne h => (put_kept h).1 hne

theorem fills_output : Fills put "output_tokens" (optional word) (·.output) :=
  .of_set (fun _ _ => rfl) (fun _ _ => rfl) fun hne h => (put_kept h).2 hne

theorem put_of_notMem (s : Slots) (name : String) (j : Json)
    (h : name ∉ ["input_tokens", "output_tokens"]) : put s name (.ofJson j) = .ok s := by
  unfold put
  split
  case h_3 =>
    rw [skip_ofJson]
    rfl
  all_goals simp at h

theorem isWritten_isReadBy : Json.IsReadBy IsWritten decoder := by
  rintro u j ⟨ms, rfl, hnodup, hinput, houtput⟩
  refine ⟨nofun, ?_⟩
  obtain ⟨s, hs⟩ : ∃ s, Decoder.members put {} (Reading.ofMembers ms) = .ok s := by
    refine exists_members _ put_of_notMem hnodup fun name hname => ?_
    simp only [List.mem_cons, List.not_mem_nil, or_false] at hname
    rcases hname with rfl | rfl
    · exact fills_input.awaits_of_gives rfl hinput Json.isWord_isReadBy
    · exact fills_output.awaits_of_gives rfl houtput Json.isWord_isReadBy
  show Decoder.members put {} (Reading.ofMembers ms) >>= _ = _
  rw [hs]
  have hin : s.input.join = u.input := fills_input.join_eq hs rfl hinput Json.isWord_isReadBy
  have hout : s.output.join = u.output := fills_output.join_eq hs rfl houtput Json.isWord_isReadBy
  show Except.ok (⟨s.input.join, s.output.join⟩ : UsageReport) = _
  rw [hin, hout]

end UsageReport

namespace Answer

theorem put_kept {s s' : Slots} {name : String} {r : Reading} (h : put s name r = .ok s') :
    (name ≠ "id" → s'.id = s.id) ∧
      (name ≠ "model" → s'.model = s.model) ∧
      (name ≠ "content" → s'.blocks = s.blocks) ∧
      (name ≠ "stop_reason" → s'.stopReason = s.stopReason) ∧
      (name ≠ "usage" → s'.usage = s.usage) := by
  unfold put at h
  split at h
  all_goals
    obtain ⟨_, -, h⟩ := exists_of_bind_ok h
    rw [← Except.ok.inj h]
    simp

theorem fills_id : Fills put "id" Decoder.text (·.id) :=
  .of_set (fun _ _ => rfl) (fun _ _ => rfl) fun hne h => (put_kept h).1 hne

theorem fills_model : Fills put "model" (optional Decoder.text) (·.model) :=
  .of_set (fun _ _ => rfl) (fun _ _ => rfl) fun hne h => (put_kept h).2.1 hne

theorem fills_blocks : Fills put "content" (list (textDecoder "text")) (·.blocks) :=
  .of_set (fun _ _ => rfl) (fun _ _ => rfl) fun hne h => (put_kept h).2.2.1 hne

theorem fills_stopReason : Fills put "stop_reason" (optional Decoder.text) (·.stopReason) :=
  .of_set (fun _ _ => rfl) (fun _ _ => rfl) fun hne h => (put_kept h).2.2.2.1 hne

theorem fills_usage : Fills put "usage" (optional UsageReport.decoder) (·.usage) :=
  .of_set (fun _ _ => rfl) (fun _ _ => rfl) fun hne h => (put_kept h).2.2.2.2 hne

theorem put_of_notMem (s : Slots) (name : String) (j : Json)
    (h : name ∉ ["id", "model", "content", "stop_reason", "usage"]) :
    put s name (.ofJson j) = .ok s := by
  unfold put
  split
  case h_6 =>
    rw [skip_ofJson]
    rfl
  all_goals simp at h

/-- A message that is written is read as the message. First the members are read, which could fail
at each of the five names, then each slot is looked up. -/
theorem decoder_of_isWritten {m : Answer} {j : Json} (h : m.IsWritten j) :
    Decoder.ofJson decoder j = .ok m := by
  obtain ⟨ms, rfl, hnodup, hid, hmodel, ⟨blocks, hblocks, hall⟩, hstop, husage⟩ := h
  have htexts : list (textDecoder "text") (.ofJson (.array blocks)) = .ok m.blocks :=
    list_of (hall.imp fun _ _ hblock => (hasText_isReadBy "text" hblock).2)
  have hidRead : Decoder.text (.ofJson (.string m.id)) = .ok m.id := rfl
  obtain ⟨s, hs⟩ : ∃ s, Decoder.members put {} (Reading.ofMembers ms) = .ok s := by
    refine exists_members _ put_of_notMem hnodup fun name hname => ?_
    simp only [List.mem_cons, List.not_mem_nil, or_false] at hname
    rcases hname with rfl | rfl | rfl | rfl | rfl
    · intro j hj
      rw [← Option.some.inj (hid.symm.trans hj)]
      exact fills_id.awaits rfl hidRead
    · exact fills_model.awaits_of_gives rfl hmodel Json.isText_isReadBy
    · intro j hj
      rw [← Option.some.inj (hblocks.symm.trans hj)]
      exact fills_blocks.awaits rfl htexts
    · exact fills_stopReason.awaits_of_gives rfl hstop Json.isText_isReadBy
    · exact fills_usage.awaits_of_gives rfl husage UsageReport.isWritten_isReadBy
  -- The members are read. What is left is what each slot holds.
  have hidSlot : s.id = some m.id := fills_id.slot_eq hs hid hidRead
  have hmodelSlot : s.model.join = m.model :=
    fills_model.join_eq hs rfl hmodel Json.isText_isReadBy
  have hblocksSlot : s.blocks = some m.blocks := fills_blocks.slot_eq hs hblocks htexts
  have hstopSlot : s.stopReason.join = m.stopReason :=
    fills_stopReason.join_eq hs rfl hstop Json.isText_isReadBy
  have husageSlot : s.usage.join = m.usage :=
    fills_usage.join_eq hs rfl husage UsageReport.isWritten_isReadBy
  have hrecord : decoder (.ofJson (.object ms)) = .ok m := by
    show Decoder.members put {} (Reading.ofMembers ms) >>= _ = _
    rw [hs]
    simp only [bind, Except.bind, hidSlot, hblocksSlot, need, hmodelSlot, hstopSlot, husageSlot]
    rfl
  rw [Decoder.ofJson, hrecord]
  rfl

end Answer

/-! ## Events

The data of an event may have blanks around it, as lines of a stream often have. Everything below is
about what is between them. -/

/-- The data of an event spells a record of a type, but for blanks around it. -/
def Tells (e : Event) (kind : String) (fields : (String → Option Json) → Prop) : Prop :=
  ∃ j : Json, j.SpelledBy (Text.trim e.data).toUTF8.data.toList ∧
    j.IsRecord fun get => get "type" = some (.string kind) ∧ fields get

/-- The beginning of a message, with the counts known so far. -/
def Opens (m : Answer) (usage : Option UsageReport) (e : Event) : Prop :=
  Tells e "message_start" fun get => ∃ j, get "message" = some j ∧ j.IsRecord fun get =>
    Json.Gives Json.IsText (some m.id) (get "id") ∧
      Json.Gives Json.IsText m.model (get "model") ∧
      Json.Gives UsageReport.IsWritten usage (get "usage")

/-- The beginning of a block, with the text that it has so far. -/
def StartsBlock (text : Option String) (e : Event) : Prop :=
  Tells e "content_block_start" fun get => ∃ j, get "content_block" = some j ∧ HasText "text" text j

/-- An addition to a block, which may be without text. -/
def AddsText (text : Option String) (e : Event) : Prop :=
  Tells e "content_block_delta" fun get => ∃ j, get "delta" = some j ∧ HasText "text" text j

/-- The end of the text, with the reason for it and the counts known by then. -/
def Changes (stopReason : Option String) (usage : Option UsageReport) (e : Event) : Prop :=
  Tells e "message_delta" fun get =>
    (∃ j, get "delta" = some j ∧ HasText "stop_reason" stopReason j) ∧
      Json.Gives UsageReport.IsWritten usage (get "usage")

/-- The end of the message, which says nothing else. -/
def Stops (e : Event) : Prop :=
  Tells e "message_stop" fun _ => True

/-- Nothing is told of the message: by a ping, by the end of a block, by an addition without text,
and by whatever is not known. -/
inductive IsIdle (e : Event) : Prop where
  | ping : Tells e "ping" (fun _ => True) → IsIdle e
  | blockStop : Tells e "content_block_stop" (fun _ => True) → IsIdle e
  | noText : AddsText none e → IsIdle e
  | unknown {kind : String} :
      kind ∉ StreamEvent.tags.names → Tells e kind (fun _ => True) → IsIdle e

/-- The event is understood, by whoever asks. -/
structure Conveys (e : Event) (told : StreamEvent) : Prop where
  notBlank : (Text.trim e.data).isEmpty = false
  read : ∀ provider, readEvent provider (Text.trim e.data) = .ok told

/-- Data without blanks around it that spells a record with its type tells what the record's fields
are. -/
theorem tells_of_spelledBy {data kind : String} {fields : (String → Option Json) → Prop}
    (ms : List (String × Json)) (name : String) (htrim : Text.trim data = data)
    (hspelled : (Json.object ms).SpelledBy data.toUTF8.data.toList)
    (hnodup : (ms.map Prod.fst).Nodup) (htype : ms.lookup "type" = some (.string kind))
    (hfields : fields fun name => ms.lookup name) : Tells ⟨name, data⟩ kind fields := by
  refine ⟨.object ms, ?_, ms, rfl, hnodup, htype, hfields⟩
  rw [htrim]
  exact hspelled

/-- No value is spelled by nothing. -/
theorem not_spelledBy_nil (j : Json) : ¬ j.SpelledBy [] := by
  intro h
  have hends : (Draft.ofBytes []).ends = true := by rw [h]
  nomatch hends

variable {e : Event} {kind tag : String} {fields : (String → Option Json) → Prop}
  {told : StreamEvent}

/-- The fields are read from what is left of the record once its type is known. -/
theorem Tells.conveys (h : Tells e kind fields)
    (hkind : StreamEvent.tags.read (.string (some kind)) = .ok tag)
    (hbody : ∀ {rest : List (String × Json)} {get : String → Option Json},
      (rest.map Prod.fst).Nodup → (∀ name, name ≠ "type" → rest.lookup name = get name) →
      fields get → StreamEvent.body tag (.ofJson (.object rest)) = .ok told) :
    Conveys e told := by
  obtain ⟨j, hspelled, ms, rfl, hnodup, htype, hfields⟩ := h
  refine ⟨?_, fun provider => ?_⟩
  · -- Blank data would spell nothing.
    rw [Bool.eq_false_iff]
    intro hempty
    rw [String.isEmpty_iff.mp hempty] at hspelled
    exact not_spelledBy_nil _ hspelled
  · -- The type is taken out of the record, and all other names keep what they have.
    have hrest : ∀ name, name ≠ "type" →
        (Json.eraseMember "type" ms).lookup name = ms.lookup name := by
      intro name hne
      rw [Json.lookup_eraseMember, if_neg hne]
    have hread : Decoder.ofText StreamEvent.decoder (Text.trim e.data) = .ok told := by
      show Decoder.ofBytes _ _ = _
      rw [hspelled.ofBytes, StreamEvent.decoder, tagged_object hnodup htype]
      show StreamEvent.tags.read (.string (some kind)) >>= _ = _
      rw [hkind]
      show Except.mapError _ _ = _
      rw [hbody (Json.nodup_eraseMember hnodup "type") hrest hfields]
      rfl
    rw [readEvent, hread]
    rfl

namespace StreamEvent

/-- A record that is read for one member alone is read as what the member is. -/
theorem putOne_of_lookup {α : Type} {name : String} {d : Decoder α} {ms : List (String × Json)}
    {j : Json} {a : α} (hnodup : (ms.map Prod.fst).Nodup) (hj : ms.lookup name = some j)
    (ha : d (.ofJson j) = .ok a) :
    Decoder.members (putOne name d) none (Reading.ofMembers ms) = .ok (some a) :=
  single_of_lookup (fun _ _ _ => rfl) hnodup hj ha

theorem Opening.put_kept {s s' : Opening} {name : String} {r : Reading}
    (h : Opening.put s name r = .ok s') :
    (name ≠ "id" → s'.id = s.id) ∧
      (name ≠ "model" → s'.model = s.model) ∧
      (name ≠ "usage" → s'.usage = s.usage) := by
  unfold Opening.put at h
  split at h
  all_goals
    obtain ⟨_, -, h⟩ := exists_of_bind_ok h
    rw [← Except.ok.inj h]
    simp

theorem Opening.put_of_notMem (s : Opening) (name : String) (j : Json)
    (h : name ∉ ["id", "model", "usage"]) : Opening.put s name (.ofJson j) = .ok s := by
  unfold Opening.put
  split
  case h_4 =>
    rw [skip_ofJson]
    rfl
  all_goals simp at h

theorem Opening.fills_id : Fills Opening.put "id" (optional text) (·.id) :=
  .of_set (fun _ _ => rfl) (fun _ _ => rfl) fun hne h => (put_kept h).1 hne

theorem Opening.fills_model : Fills Opening.put "model" (optional text) (·.model) :=
  .of_set (fun _ _ => rfl) (fun _ _ => rfl) fun hne h => (put_kept h).2.1 hne

theorem Opening.fills_usage : Fills Opening.put "usage" (optional UsageReport.decoder) (·.usage) :=
  .of_set (fun _ _ => rfl) (fun _ _ => rfl) fun hne h => (put_kept h).2.2 hne

theorem Change.put_kept {s s' : Change} {name : String} {r : Reading}
    (h : Change.put s name r = .ok s') :
    (name ≠ "delta" → s'.stopReason = s.stopReason) ∧ (name ≠ "usage" → s'.usage = s.usage) := by
  unfold Change.put at h
  split at h
  all_goals
    obtain ⟨_, -, h⟩ := exists_of_bind_ok h
    rw [← Except.ok.inj h]
    simp

theorem Change.put_of_notMem (s : Change) (name : String) (j : Json)
    (h : name ∉ ["delta", "usage"]) : Change.put s name (.ofJson j) = .ok s := by
  unfold Change.put
  split
  case h_3 =>
    rw [skip_ofJson]
    rfl
  all_goals simp at h

theorem Change.fills_stopReason :
    Fills Change.put "delta" (optional (textDecoder "stop_reason")) (·.stopReason) :=
  .of_set (fun _ _ => rfl) (fun _ _ => rfl) fun hne h => (put_kept h).1 hne

theorem Change.fills_usage : Fills Change.put "usage" (optional UsageReport.decoder) (·.usage) :=
  .of_set (fun _ _ => rfl) (fun _ _ => rfl) fun hne h => (put_kept h).2 hne

end StreamEvent

open StreamEvent

/-- A beginning is read with the id, the model and the counts that it tells. -/
theorem Opens.conveys {m : Answer} {usage : Option UsageReport} (h : Opens m usage e) :
    Conveys e (.messageStart (some m.id) m.model usage) := by
  refine Tells.conveys h rfl fun {rest get} hnodup hget hfields => ?_
  obtain ⟨_, hmessage, ms, rfl, hdistinct, hid, hmodel, husage⟩ := hfields
  rw [← hget _ (by decide)] at hmessage
  obtain ⟨s, hs⟩ : ∃ s, Opening.decoder (.ofJson (.object ms)) = .ok s := by
    refine exists_members _ Opening.put_of_notMem hdistinct fun name hname => ?_
    simp only [List.mem_cons, List.not_mem_nil, or_false] at hname
    rcases hname with rfl | rfl | rfl
    · exact Opening.fills_id.awaits_of_gives rfl hid Json.isText_isReadBy
    · exact Opening.fills_model.awaits_of_gives rfl hmodel Json.isText_isReadBy
    · exact Opening.fills_usage.awaits_of_gives rfl husage UsageReport.isWritten_isReadBy
  have hidSlot : s.id.join = some m.id :=
    Opening.fills_id.join_eq hs rfl hid Json.isText_isReadBy
  have hmodelSlot : s.model.join = m.model :=
    Opening.fills_model.join_eq hs rfl hmodel Json.isText_isReadBy
  have husageSlot : s.usage.join = usage :=
    Opening.fills_usage.join_eq hs rfl husage UsageReport.isWritten_isReadBy
  show Decoder.members (putOne "message" Opening.decoder) none (Reading.ofMembers rest) >>= _ = _
  rw [putOne_of_lookup hnodup hmessage hs, ← hidSlot, ← hmodelSlot, ← husageSlot]
  rfl

theorem StartsBlock.conveys {text : Option String} (h : StartsBlock text e) :
    Conveys e (.blockStart text) := by
  refine Tells.conveys h rfl fun {rest get} hnodup hget hfields => ?_
  obtain ⟨j, hblock, htext⟩ := hfields
  rw [← hget _ (by decide)] at hblock
  have hread : optional (textDecoder "text") (.ofJson j) = .ok (some text) :=
    optional_of_holds ((Json.Gives.given htext).holds (hasText_isReadBy "text"))
  show Decoder.members (putOne "content_block" (optional (textDecoder "text"))) none
    (Reading.ofMembers rest) >>= _ = _
  rw [putOne_of_lookup hnodup hblock hread]
  rfl

theorem AddsText.conveys {text : Option String} (h : AddsText text e) :
    Conveys e (.blockDelta text) := by
  refine Tells.conveys h rfl fun {rest get} hnodup hget hfields => ?_
  obtain ⟨j, hdelta, htext⟩ := hfields
  rw [← hget _ (by decide)] at hdelta
  show Decoder.members (putOne "delta" (textDecoder "text")) none (Reading.ofMembers rest) >>= _ = _
  rw [putOne_of_lookup hnodup hdelta (hasText_isReadBy "text" htext).2]
  rfl

/-- The end of the text is read with the reason for it and the counts. -/
theorem Changes.conveys {stopReason : Option String} {usage : Option UsageReport}
    (h : Changes stopReason usage e) : Conveys e (.messageDelta stopReason usage) := by
  refine Tells.conveys h rfl fun {rest get} hnodup hget hfields => ?_
  obtain ⟨⟨j, hdelta, hstop⟩, husage⟩ := hfields
  rw [← hget _ (by decide)] at hdelta husage
  have hread : optional (textDecoder "stop_reason") (.ofJson j) = .ok (some stopReason) :=
    optional_of_holds ((Json.Gives.given hstop).holds (hasText_isReadBy "stop_reason"))
  obtain ⟨s, hs⟩ : ∃ s, Decoder.members Change.put {} (Reading.ofMembers rest) = .ok s := by
    refine exists_members _ Change.put_of_notMem hnodup fun name hname => ?_
    simp only [List.mem_cons, List.not_mem_nil, or_false] at hname
    rcases hname with rfl | rfl
    · intro j' hj
      rw [← Option.some.inj (hdelta.symm.trans hj)]
      exact Change.fills_stopReason.awaits rfl hread
    · exact Change.fills_usage.awaits_of_gives rfl husage UsageReport.isWritten_isReadBy
  have hstopSlot : s.stopReason = some (some stopReason) :=
    Change.fills_stopReason.slot_eq hs hdelta hread
  have husageSlot : s.usage.join = usage :=
    Change.fills_usage.join_eq hs rfl husage UsageReport.isWritten_isReadBy
  show Decoder.members Change.put {} (Reading.ofMembers rest) >>= _ = _
  rw [hs]
  show Except.ok (messageDelta s.stopReason.join.join s.usage.join) = _
  rw [hstopSlot, husageSlot]
  rfl

theorem Stops.conveys (h : Stops e) : Conveys e .messageStop :=
  Tells.conveys h rfl fun _ _ _ => rfl

/-- What tells nothing: no text, no reason to end, no counts. -/
def StreamEvent.isIdle : StreamEvent → Bool
  | .blockDelta none | .blockStop | .ping | .unknown => true
  | _ => false

/-- What tells nothing of the message is read as an event that tells nothing of it. -/
theorem IsIdle.conveys (h : IsIdle e) :
    ∃ told : StreamEvent, told.isIdle = true ∧ Conveys e told := by
  cases h with
  | ping h => exact ⟨.ping, rfl, Tells.conveys h rfl fun _ _ _ => rfl⟩
  | blockStop h => exact ⟨.blockStop, rfl, Tells.conveys h rfl fun _ _ _ => rfl⟩
  | noText h => exact ⟨.blockDelta none, rfl, h.conveys⟩
  | @unknown kind hkind h =>
    have hread : StreamEvent.tags.read (.string (some kind)) = .ok "" := by
      show (if tags.names.contains kind then pure kind else pure "") = _
      rw [if_neg fun hmem => hkind (List.contains_iff_mem.mp hmem)]
      rfl
    exact ⟨.unknown, rfl, Tells.conveys h hread fun _ _ _ => rfl⟩

end ModelRelay.Claude
