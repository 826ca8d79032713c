import ModelRelay.Chat.Acceptance
import ModelRelay.Proofs.Chat.Parts
import ModelRelay.Proofs.Chat.Writing
import ModelRelay.Proofs.Json.Rereading

/-!
# Requests come back

**A request that was read from a body without repeated names is read again from its own text**
(`Request.comes_back`): every turn is still a text, parts, blocks or nothing, and no member without
a field is lost. A value written for one of these must not be taken for another, and the one place
where it could are blocks, which are tried as parts first. Numbers are the other thing that could be
lost on the way, so those that the request holds are asked to come back one by one
(`Number.ComesBack`).

The way goes through what is found under each name. The body says what the request holds, the
request says what is written of it, and what is written holds one request only, which is therefore
the same. For each field there is a lemma that what is written of it is read as itself.

A repeated name has to be ruled out in the body, since a block with one is kept as it is, and what
is written of it may read as a part. That it is ruled out in the text that is written is proved, and
so is that the body is JSON at all: a request keeps every member, so that its decoder sees all of a
body.
-/

set_option autoImplicit false

namespace ModelRelay.Chat

open Decoder Json

/-! ## All of a body is seen

Every field is read whole, and what has no field is kept; no member of a body is passed over. -/

/-- A slot is filled by a decoder that sees all. -/
theorem fill_seen {α : Type} {d : Decoder α} (hd : SeesAll d) {name : String}
    {slot filled : Option α} {r : Reading} (h : fill name slot d r = .ok filled) :
    ∃ j, r = .ofJson j := by
  obtain ⟨-, a, ha, -⟩ := fill_ok h
  exact hd ha

theorem seesAll_firstFit {α : Type} (choices : List (Decoder α)) : SeesAll (firstFit choices) := by
  intro r a h
  rw [firstFit] at h
  exact seesAll_held _ h

theorem Content.seesAll_decoder : SeesAll Content.decoder := by
  intro r a h
  rw [Content.decoder] at h
  exact seesAll_firstFit _ h

theorem SystemPrompt.seesAll_decoder : SeesAll SystemPrompt.decoder := by
  intro r a h
  rw [SystemPrompt.decoder] at h
  exact seesAll_firstFit _ h

theorem seesAll_stopDecoder : SeesAll stopDecoder := by
  intro r a h
  rw [stopDecoder] at h
  exact seesAll_firstFit _ h

theorem Message.seesAll_decoder : SeesAll Message.decoder := by
  intro r m h
  obtain ⟨s, hs, -⟩ := exists_of_bind_ok h
  refine seesAll_object (fun hput => ?_) _ hs
  unfold put at hput
  split at hput
  all_goals obtain ⟨_, hstep, -⟩ := exists_of_bind_ok hput
  · exact fill_seen (seesAll_oneOf _) hstep
  · exact fill_seen Content.seesAll_decoder hstep
  · exact fill_seen seesAll_text.optional hstep
  · exact seesAll_json hstep

/-- A request is read with all that is in it. The cases are its members, by name. -/
theorem Request.seesAll_decoder : SeesAll Request.decoder := by
  intro r m h
  obtain ⟨s, hs, -⟩ := exists_of_bind_ok h
  refine seesAll_object (fun hput => ?_) _ hs
  unfold put at hput
  split at hput
  all_goals obtain ⟨_, hstep, -⟩ := exists_of_bind_ok hput
  · exact fill_seen seesAll_text hstep
  · exact fill_seen (SeesAll.list Message.seesAll_decoder) hstep
  · exact fill_seen (SeesAll.optional SystemPrompt.seesAll_decoder) hstep
  · exact fill_seen seesAll_single.optional hstep
  · exact fill_seen seesAll_word.optional hstep
  · exact fill_seen seesAll_word.optional hstep
  · exact fill_seen seesAll_single.optional hstep
  · exact fill_seen seesAll_word.optional hstep
  · exact fill_seen seesAll_single.optional hstep
  · exact fill_seen seesAll_single.optional hstep
  · exact fill_seen (SeesAll.optional seesAll_stopDecoder) hstep
  · exact fill_seen (SeesAll.optional (SeesAll.list seesAll_text)) hstep
  · exact fill_seen seesAll_bool hstep
  · exact fill_seen seesAll_text.optional hstep
  · exact seesAll_json hstep

/-- **A body that is accepted spells a value**, and the request is read from it. -/
theorem Request.exists_spelledBy {body : List UInt8} {r : Request}
    (h : Request.ofBytes body = .ok r) :
    ∃ j : Json, j.SpelledBy body ∧ Request.decoder (.ofJson j) = .ok r := by
  have hdecoded := of_mapError_ok h
  obtain ⟨j, hj⟩ := seesAll_decoder.exists_spelledBy hdecoded
  exact ⟨j, hj, hj.ofBytes Request.decoder ▸ hdecoded⟩

/-! ## Content

Each kind of content is read back as itself. For blocks this needs one of them that is no part,
which there was when they were read. -/

/-- Content that is not taken for other content: one of its blocks, if it has any, is no part. -/
def Content.IsSettled : Content → Prop
  | .blocks held => ∃ block ∈ held, ¬ IsPart block
  | .text _ | .parts _ | .null => True

/-- Blocks that were read have one among them that is no part, in canonical form too. -/
theorem Content.isSettled_of_decoder_ok {j : Json} {content : Content}
    (hsingle : (Reading.ofJson j).noSingle = true) (hdistinct : j.isDistinct = true)
    (h : Content.decoder (.ofJson j) = .ok content) : content.IsSettled := by
  cases content with
  | text s => trivial
  | parts parts => trivial
  | null => trivial
  | blocks held =>
    obtain ⟨items, rfl, rfl, item, hitem, hnot⟩ := exists_of_blocks hsingle h
    refine ⟨item.canonical, List.mem_map_of_mem hitem, fun hpart => hnot ?_⟩
    exact isPart_of_canonical (isDistinct_of_mem hdistinct hitem) hpart

theorem ContentPart.reread_toJson (part : ContentPart) : part.toJson.reread = part.toJson := by
  cases part with
  | text s => rfl
  | image image =>
    obtain ⟨url, detail⟩ := image
    cases detail <;> rfl

theorem ContentPart.decoder_toJson (part : ContentPart) :
    ContentPart.decoder true (.ofJson part.toJson) = .ok part := by
  cases part with
  | text s => rfl
  | image image =>
    obtain ⟨url, detail⟩ := image
    cases detail <;> rfl

/-- Blocks are read from an array that is no list of parts. -/
theorem Content.decoder_blocks {items : List Json}
    (hsingle : (Reading.ofJson (.array items)).noSingle = true)
    (hother : ∃ item ∈ items, ¬ IsPart item) :
    Content.decoder (.ofJson (.array items)) = .ok (.blocks (items.map canonical)) := by
  apply firstFit_of
  have hlist : ∃ m, list (ContentPart.decoder true) (.ofJson (.array items)) = .error m := by
    cases hread : list (ContentPart.decoder true) (.ofJson (.array items)) with
    | error m => exact ⟨m, rfl⟩
    | ok parts =>
      obtain ⟨item, hitem, hno⟩ := hother
      obtain ⟨_, hitems, hall⟩ := list_ok hread
      rw [← Json.array.inj hitems] at hall
      obtain ⟨part, -, hpart⟩ := exists_of_forall₂_of_mem hall hitem
      exact absurd ⟨part, hpart⟩ hno
  obtain ⟨m, hm⟩ := hlist
  simp only [List.findSome?, hm, list_json hsingle]
  rfl

theorem Content.decoder_parts (parts : List ContentPart) :
    Content.decoder (.ofJson (.array (parts.map ContentPart.toJson))) = .ok (.parts parts) := by
  apply firstFit_of
  have hlist : list (ContentPart.decoder true) (.ofJson (.array (parts.map ContentPart.toJson)))
      = .ok parts := by
    refine list_of (List.forall₂_map_left_iff.mpr ?_)
    exact List.forall₂_same.mpr fun part _ => part.decoder_toJson
  simp only [List.findSome?, hlist]
  rfl

theorem map_eq_self {α : Type} {f : α → α} {l : List α} (h : ∀ a ∈ l, f a = a) : l.map f = l := by
  rw [List.map_congr_left h, List.map_id']

/-- **Content is read back as content of its own kind.** -/
theorem Content.decoder_reread {content : Content} (hcanonical : content.IsCanonical)
    (hsettled : content.IsSettled) (hback : ∀ n ∈ content.toJson.numbers, n.ComesBack) :
    Content.decoder (.ofJson content.toJson.reread) = .ok content := by
  cases content with
  | text s => rfl
  | null => rfl
  | parts parts =>
    have hsame : (Content.parts parts).toJson.reread = .array (parts.map ContentPart.toJson) := by
      rw [Content.toJson, reread, rereadItems_eq_map, List.map_map]
      exact congrArg Json.array (List.map_congr_left fun part _ => part.reread_toJson)
    rw [hsame]
    exact decoder_parts parts
  | blocks held =>
    have hsame : (Json.array held).canonical = .array held := by
      rw [canonical_array, map_eq_self hcanonical]
    have hsingle : (Reading.ofJson (.array held)).noSingle = true := by
      rw [← hsame]
      exact noSingle_canonical _
    rw [Content.toJson, reread_eq_self hsingle hback, decoder_blocks hsingle hsettled,
      map_eq_self hcanonical]

theorem SystemPrompt.decoder_reread {prompt : SystemPrompt} (hcanonical : prompt.IsCanonical)
    (hback : ∀ n ∈ prompt.toJson.numbers, n.ComesBack) :
    prompt.toJson.reread ≠ .null ∧
      SystemPrompt.decoder (.ofJson prompt.toJson.reread) = .ok prompt := by
  cases prompt with
  | text s => exact ⟨nofun, rfl⟩
  | blocks held =>
    have hsame : (Json.array held).canonical = .array held := by
      rw [canonical_array, map_eq_self hcanonical]
    have hsingle : (Reading.ofJson (.array held)).noSingle = true := by
      rw [← hsame]
      exact noSingle_canonical _
    rw [SystemPrompt.toJson, reread_eq_self hsingle hback]
    refine ⟨nofun, firstFit_of ?_⟩
    simp only [List.findSome?, list_json hsingle, map_eq_self hcanonical]
    rfl

/-! ## Turns

What a turn keeps without a field is looked up behind the members that have one. -/

/-- What is kept without a field, looked up behind the members that have one. -/
theorem lookup_behind {fields : List (String × Option Json)} {extra : Extra} {name : String}
    (h : name ∉ fields.map Prod.fst) :
    ((fields ++ extra.map fun ((name, value) : String × Json) => (name, some value)).lookup
      name).join
      = extra.lookup name := by
  rw [List.lookup_append, lookup_eq_none h, Option.none_or]
  induction extra with
  | nil => rfl
  | cons e rest ih =>
    obtain ⟨other, value⟩ := e
    rw [List.map_cons, lookup_cons_eq, lookup_cons_eq, ← ih]
    by_cases hname : name = other
    · rw [if_pos hname, if_pos hname]
      rfl
    · rw [if_neg hname, if_neg hname]

/-- What comes back of members without a field, once their numbers do. -/
theorem IsKept.lookup_reread {fieldNames : List String} {room : ℕ} {extra : Extra}
    (h : IsKept fieldNames room extra) (hback : ∀ e ∈ extra, ∀ n ∈ e.2.numbers, n.ComesBack)
    (name : String) :
    ((extra.lookup name).map reread).map Json.canonical = extra.lookup name := by
  cases hfound : extra.lookup name with
  | none => rfl
  | some value =>
    have hmem := mem_of_lookup hfound
    have hcanonical : value.canonical = value := h.canonical _ hmem
    have hsingle : (Reading.ofJson value).noSingle = true := by
      rw [← hcanonical]
      exact noSingle_canonical _
    rw [Option.map_some, Option.map_some, reread_eq_self hsingle (hback _ hmem), hcanonical]

theorem IsKept.lookup_eq {fieldNames : List String} {room : ℕ} {extra : Extra}
    (h : IsKept fieldNames room extra) {name : String} (hname : name ∈ fieldNames) :
    extra.lookup name = none := by
  refine lookup_eq_none fun hmem => ?_
  obtain ⟨e, he, rfl⟩ := List.mem_map.mp hmem
  exact h.apart e he hname

theorem Role.decoder_name (role : Role) :
    Role.decoder (.ofJson (.string role.name)) = .ok role := by
  cases role <;> rfl

/-- A text that may be left out is read back, and so is that there is none. -/
theorem holds_text (s : Option String) : text.Holds ((s.map Json.string).map reread) s := by
  cases s with
  | none => rfl
  | some s => exact ⟨s, rfl, rfl⟩

namespace Message

variable {room : ℕ} {m : Message}

/-- **A turn is read back from what is written of it.** -/
theorem decoder_reread (h : m.IsWritable room) (hsettled : m.content.IsSettled)
    (hback : ∀ n ∈ m.toJson.numbers, n.ComesBack) :
    Message.decoder (.ofJson m.toJson.reread) = .ok m := by
  rw [toJson_eq, reread_ofMembers, decoder_iff (nodup_rereadOf h.nodup)
    (noSingle_rereadOf h.fits_toJson)]
  have hfield : ∀ {name : String} {value : Json}, (name, some value) ∈ m.members →
      ∀ n ∈ value.numbers, n.ComesBack := fun hmem n hn => hback n (numbers_of_mem_members hmem hn)
  have hcontent : ("content", some m.content.toJson) ∈ m.members := by simp [members]
  have hlookup := lookup_rereadOf h.nodup
  refine ⟨?_, ?_, ?_, h.extra.sorted, fun name => ?_⟩
  · rw [hlookup]
    exact ⟨_, rfl, m.role.decoder_name⟩
  · rw [hlookup]
    exact Or.inr ⟨_, rfl, Content.decoder_reread h.blocks hsettled (hfield hcontent)⟩
  · rw [hlookup]
    exact holds_text m.name
  · rw [hlookup]
    split_ifs with hname
    · exact h.extra.lookup_eq hname
    · have hbehind : (m.members.lookup name).join = m.extra.lookup name := lookup_behind hname
      rw [hbehind, h.extra.lookup_reread fun e he =>
        hfield (List.mem_append_right _ (List.mem_map_of_mem he))]

end Message

/-! ## Requests

A field that may be left out is read back if what is written of its value is, and is not null. -/

namespace Request

/-- Turns whose blocks, if they have any, are not taken for parts. -/
def IsSettled (r : Request) : Prop :=
  ∀ m ∈ r.messages, m.content.IsSettled

variable {room : ℕ} {r : Request}

theorem holds_map {α : Type} {d : Decoder α} {write : α → Json} {x : Option α}
    (h : ∀ a, x = some a → (write a).reread ≠ .null ∧ d (.ofJson (write a).reread) = .ok a) :
    d.Holds ((x.map write).map reread) x := by
  cases x with
  | none => rfl
  | some a =>
    obtain ⟨hnull, hread⟩ := h a rfl
    cases hvalue : (write a).reread with
    | null => exact absurd hvalue hnull
    | bool _ | number n | string s | array _ | object _ =>
      rw [hvalue] at hread
      rw [Option.map_some, Option.map_some, hvalue]
      exact ⟨a, hread, rfl⟩

theorem decoder_word (n : UInt32) :
    (Json.ofNat n.toNat).reread ≠ .null ∧ word (.ofJson (Json.ofNat n.toNat).reread) = .ok n := by
  rw [reread_ofNat (lt_trans n.toNat_lt (by decide))]
  exact isWord_isReadBy rfl

theorem decoder_single {x : Binary} (hof : x.IsOf .single) (hfinite : x.isInfinite = false)
    (hback : ∀ n ∈ (ofSingle x).numbers, n.ComesBack) :
    (ofSingle x).reread ≠ .null ∧ single (.ofJson (ofSingle x).reread) = .ok x := by
  cases x with
  | infinite negative => cases hfinite
  | finite negative m e =>
    have hsound : (Number.single (.finite negative m e)).IsSound := ⟨hof, rfl⟩
    have hsingle := hback _ (List.mem_singleton_self _)
    rw [Number.ComesBack, Number.ofText_print hsound] at hsingle
    refine ⟨fun hnull => ?_, hsingle⟩
    rw [show Number.reread _ = .null from hnull] at hsingle
    cases hsingle

theorem decoder_strings (strings : List String) :
    (ofStrings strings).reread ≠ .null ∧
      list text (.ofJson (ofStrings strings).reread) = .ok strings := by
  have hsame : (ofStrings strings).reread = ofStrings strings := by
    rw [ofStrings, reread, rereadItems_eq_map, List.map_map]
    rfl
  rw [hsame]
  refine ⟨nofun, list_of (List.forall₂_map_left_iff.mpr ?_)⟩
  exact List.forall₂_same.mpr fun s _ => rfl

/-- Stop sequences are read back as a list, even if they were given as one string. -/
theorem decoder_stop (strings : List String) :
    (ofStrings strings).reread ≠ .null ∧
      stopDecoder (.ofJson (ofStrings strings).reread) = .ok strings := by
  obtain ⟨hnull, hlist⟩ := decoder_strings strings
  refine ⟨hnull, firstFit_of ?_⟩
  have hsame : (ofStrings strings).reread = .array ((strings.map Json.string).map reread) := by
    rw [ofStrings, reread, rereadItems_eq_map]
  rw [hsame] at hlist ⊢
  simp only [List.findSome?, hlist]
  rfl

/-- **A request is read back from what is written of it.** -/
theorem decoder_reread (h : r.IsWritable room) (hroom : 3 ≤ room) (hsettled : r.IsSettled)
    (hfinite : ∀ x ∈ r.singles, x.isInfinite = false)
    (hback : ∀ n ∈ r.toJson.numbers, n.ComesBack) :
    Request.decoder (.ofJson r.toJson.reread) = .ok r := by
  -- By `decoder_iff` nothing has to be read: it is enough that each field is held.
  rw [toJson, reread_ofMembers, decoder_iff (nodup_rereadOf h.nodup)
    (noSingle_rereadOf (h.fits_toJson hroom))]
  have hfield : ∀ {name : String} {value : Json}, (name, some value) ∈ r.members →
      ∀ n ∈ value.numbers, n.ComesBack := fun hmem n hn => hback n (numbers_of_mem_members hmem hn)
  have hturns : ("messages", some (.array (r.messages.map Message.toJson))) ∈ r.members := by
    simp [members]
  have hsingle : ∀ {name : String} {x : Binary}, x ∈ r.singles →
      (name, some (ofSingle x)) ∈ r.members →
      (ofSingle x).reread ≠ .null ∧ single (.ofJson (ofSingle x).reread) = .ok x :=
    fun hx hmem => decoder_single (h.singles _ hx) (hfinite _ hx) (hfield hmem)
  have hlookup := lookup_rereadOf h.nodup
  refine ⟨?_, ?_, ?_, ?_, ?_, ?_, ?_, ?_, ?_, ?_, ?_, ?_, ?_, ?_, h.extra.sorted, fun name => ?_⟩
  all_goals rw [hlookup]
  · exact ⟨_, rfl, rfl⟩
  · refine ⟨_, rfl, ?_⟩
    rw [reread, rereadItems_eq_map, List.map_map]
    refine list_of (List.forall₂_map_left_iff.mpr (List.forall₂_same.mpr fun m hm => ?_))
    refine Message.decoder_reread (h.messages m hm) (hsettled m hm) fun n hn => ?_
    exact hfield hturns n (numbers_of_mem (List.mem_map_of_mem hm) hn)
  · exact holds_map fun prompt hprompt => SystemPrompt.decoder_reread (h.system prompt hprompt).2
      (hfield (show ("system", some prompt.toJson) ∈ r.members by simp [members, hprompt]))
  · exact holds_map fun x hx => hsingle (mem_singles.mpr (Or.inl hx))
      (show ("temperature", some (ofSingle x)) ∈ r.members by simp [members, hx])
  · exact holds_map fun n _ => decoder_word n
  · exact holds_map fun n _ => decoder_word n
  · exact holds_map fun x hx => hsingle (mem_singles.mpr (Or.inr (Or.inl hx)))
      (show ("top_p", some (ofSingle x)) ∈ r.members by simp [members, hx])
  · exact holds_map fun n _ => decoder_word n
  · exact holds_map fun x hx => hsingle (mem_singles.mpr (Or.inr (Or.inr (Or.inl hx))))
      (show ("frequency_penalty", some (ofSingle x)) ∈ r.members by simp [members, hx])
  · exact holds_map fun x hx => hsingle (mem_singles.mpr (Or.inr (Or.inr (Or.inr hx))))
      (show ("presence_penalty", some (ofSingle x)) ∈ r.members by simp [members, hx])
  · exact holds_map fun strings _ => decoder_stop strings
  · exact holds_map fun strings _ => decoder_strings strings
  · exact Or.inr ⟨_, rfl, rfl⟩
  · exact holds_text r.user
  · -- A member without a field comes back as it is, and no field has its name.
    split_ifs with hname
    · exact h.extra.lookup_eq hname
    · have hbehind : (r.members.lookup name).join = r.extra.lookup name := lookup_behind hname
      rw [hbehind, h.extra.lookup_reread fun e he =>
        hfield (List.mem_append_right _ (List.mem_map_of_mem he))]

end Request

/-! ## Names

Nothing that the relay writes repeats a name: what it makes itself has fixed names, and what it was
given is canonical. -/

theorem isDistinct_ofMembers {members : List (String × Option Json)}
    (hnodup : (members.map Prod.fst).Nodup)
    (h : ∀ name value, (name, some value) ∈ members → value.isDistinct = true) :
    (ofMembers members).isDistinct = true := by
  rw [ofMembers, isDistinct, Bool.and_eq_true, allMembersDistinct_eq_all]
  refine ⟨decide_eq_true (hnodup.sublist (names_ofMembers_sublist members)),
    List.all_eq_true.mpr fun m hm => ?_⟩
  obtain ⟨⟨name, value⟩, hmem, heq⟩ := List.mem_filterMap.mp hm
  obtain ⟨held, rfl, rfl⟩ := Option.map_eq_some_iff.mp heq
  exact h name held hmem

theorem isDistinct_array {items : List Json} (h : ∀ item ∈ items, item.isDistinct = true) :
    (Json.array items).isDistinct = true := by
  rw [isDistinct, allDistinct_eq_all]
  exact List.all_eq_true.mpr h

theorem isDistinct_of_canonical {j : Json} (h : j.canonical = j) : j.isDistinct = true := by
  rw [← h]
  exact isDistinct_canonical j

theorem ContentPart.isDistinct_toJson (part : ContentPart) : part.toJson.isDistinct = true := by
  cases part with
  | text s => rfl
  | image image =>
    obtain ⟨url, detail⟩ := image
    cases detail <;> rfl

theorem Content.isDistinct_toJson {content : Content} (h : content.IsCanonical) :
    content.toJson.isDistinct = true := by
  cases content with
  | text s => rfl
  | null => rfl
  | parts parts =>
    refine isDistinct_array fun item hitem => ?_
    obtain ⟨part, -, rfl⟩ := List.mem_map.mp hitem
    exact part.isDistinct_toJson
  | blocks held =>
    exact isDistinct_array fun block hblock => isDistinct_of_canonical (h block hblock)

theorem SystemPrompt.isDistinct_toJson {prompt : SystemPrompt} (h : prompt.IsCanonical) :
    prompt.toJson.isDistinct = true := by
  cases prompt with
  | text s => rfl
  | blocks held =>
    exact isDistinct_array fun block hblock => isDistinct_of_canonical (h block hblock)

theorem Message.isDistinct_toJson {room : ℕ} {m : Message} (h : m.IsWritable room) :
    m.toJson.isDistinct = true := by
  refine isDistinct_ofMembers h.nodup fun name value hvalue => ?_
  rcases List.mem_append.mp hvalue with hfield | hextra
  · simp only [List.mem_cons, Prod.mk.injEq, List.not_mem_nil, or_false] at hfield
    rcases hfield with ⟨-, hv⟩ | ⟨-, hv⟩ | ⟨-, hv⟩
    · rw [Option.some.inj hv]
      rfl
    · rw [Option.some.inj hv]
      exact Content.isDistinct_toJson h.blocks
    · obtain ⟨s, -, rfl⟩ := Option.map_eq_some_iff.mp hv.symm
      rfl
  · obtain ⟨e, he, heq⟩ := List.mem_map.mp hextra
    rw [← Option.some.inj (Prod.mk.inj heq).2]
    exact isDistinct_of_canonical (h.extra.canonical e he)

theorem isDistinct_ofStrings (strings : List String) : (ofStrings strings).isDistinct = true := by
  refine isDistinct_array fun item hitem => ?_
  obtain ⟨s, -, rfl⟩ := List.mem_map.mp hitem
  rfl

theorem isDistinct_ofSingle (x : Binary) : (ofSingle x).isDistinct = true := by
  cases x <;> rfl

/-- **A request is written without repeated names**, at any depth. -/
theorem Request.isDistinct_toJson {room : ℕ} {r : Request} (h : r.IsWritable room) :
    r.toJson.isDistinct = true := by
  refine isDistinct_ofMembers h.nodup (forall_members (fun _ => rfl) (fun _ => rfl) (fun _ => rfl)
    isDistinct_ofStrings (fun x _ => isDistinct_ofSingle x)
    (fun prompt hprompt => SystemPrompt.isDistinct_toJson (h.system prompt hprompt).2) ?_
    fun e he => isDistinct_of_canonical (h.extra.canonical e he))
  refine isDistinct_array fun item hitem => ?_
  obtain ⟨m, hm, rfl⟩ := List.mem_map.mp hitem
  exact Message.isDistinct_toJson (h.messages m hm)

/-! ## The whole way

From the body to the request, and from the text of the request back to it. -/

/-- Members that have no field are written as they were sent, in canonical form. -/
def KeepsRest (fieldNames : List String) (sent written : Json) : Prop :=
  ∀ name ∉ fieldNames, written.get? name = (sent.get? name).map Json.canonical

/-- What a turn keeps is what was sent, and its content is not taken for other content. -/
theorem Message.keepsRest {turn : Json} {m : Message} {room : ℕ}
    (hdistinct : turn.isDistinct = true) (hsingle : (Reading.ofJson turn).noSingle = true)
    (hfits : turn.Fits room) (hroom : 4 ≤ room)
    (h : Message.decoder (.ofJson turn) = .ok m) :
    KeepsRest fieldNames turn m.toJson ∧ m.content.IsSettled := by
  have hwritable := isWritable_of_decoder_ok hsingle hfits hroom h
  obtain ⟨members, rfl, -, hcontent⟩ := decoder_ok h
  have hheld := heldIn_of_decoder_ok (nodup_of_isDistinct hdistinct) hsingle h
  refine ⟨fun name hname => ?_, ?_⟩
  · have hextra := hheld.extra name
    rw [if_neg hname] at hextra
    rw [toJson_eq, get?_ofMembers hwritable.nodup]
    exact (lookup_behind hname).trans hextra
  · rcases hheld.content with ⟨-, hnull⟩ | ⟨j, hj, hread⟩
    · rw [hnull]
      trivial
    · exact Content.isSettled_of_decoder_ok (Reading.noSingle_of_lookup hsingle hj)
        (isDistinct_of_lookup hdistinct hj) hread

namespace Request

/-- **A request comes back from its own text**, whatever body it was read from.

What is printed spells the JSON of the request, and so reads as the canonical form of it. There each
field is held under its own name (`decoder_iff`), so no two members can be mixed up, and a member
without a field stands where it stood. -/
theorem comes_back {body : List UInt8} {r : Request} (h : Request.ofBytes body = .ok r) :
    (∃ j : Json, j.SpelledBy body) ∧
    ∀ j : Json, j.SpelledBy body → j.isDistinct = true →
      (∀ x ∈ r.singles, x.isInfinite = false) → (∀ n ∈ r.toJson.numbers, n.ComesBack) →
      (∃ members, r.toJson = .object members) ∧ r.toJson.isDistinct = true ∧
      Request.ofBytes r.print.toUTF8.data.toList = .ok r ∧
      KeepsRest fieldNames j r.toJson ∧
      (∃ turns, j.get? "messages" = some (.array turns) ∧
        List.Forall₂ (fun turn m => KeepsRest Message.fieldNames turn m.toJson) turns r.messages) ∧
      ∀ s, j.get? "stop" = some (.string s) → r.stop = some [s] := by
  obtain ⟨j, hj, -⟩ := exists_spelledBy h
  refine ⟨⟨j, hj⟩, fun j hj hdistinct hfinite hback => ?_⟩
  have hdecoded : Request.decoder (.ofJson j) = .ok r :=
    hj.ofBytes Request.decoder ▸ of_mapError_ok h
  have hwritable : r.IsWritable (Draft.depth - 1) :=
    isWritable_of_decoder_ok hj.noSingle hj.fits (by decide) hdecoded
  obtain ⟨members, rfl, ⟨turns, hfound, hturns⟩, -⟩ := decoder_ok hj.noSingle hdecoded
  have hheld := heldIn_of_decoder_ok (nodup_of_isDistinct hdistinct) hj.noSingle hdecoded
  -- What a turn keeps is shown on the value that was sent, turn by turn.
  have hkept : ∀ {turn m}, turn ∈ turns → Message.decoder (.ofJson turn) = .ok m →
      KeepsRest Message.fieldNames turn m.toJson ∧ m.content.IsSettled := fun hturn hread =>
    Message.keepsRest (isDistinct_of_mem (isDistinct_of_lookup hdistinct hfound) hturn)
      (Reading.noSingle_of_mem (Reading.noSingle_of_lookup hj.noSingle hfound) hturn)
      (fits_of_mem (fits_of_mem_members hj.fits (mem_of_lookup hfound)) hturn) (by decide) hread
  refine ⟨⟨_, rfl⟩, isDistinct_toJson hwritable, ?_, fun name hname => ?_,
    ⟨turns, hfound, ?_⟩, fun s hs => ?_⟩
  · -- The request itself: printing spells its JSON, and the decoder reads that as the request.
    have hsettled : r.IsSettled := by
      intro m hm
      obtain ⟨turn, hturn, hread⟩ := exists_of_forall₂_of_mem hturns.flip hm
      exact (hkept hturn hread).2
    have hspelled := spelledBy_print (hwritable.fits_toJson (by decide))
    rw [Request.ofBytes, Request.print, hspelled.ofBytes,
      decoder_reread hwritable (by decide) hsettled hfinite hback]
    rfl
  · have hextra := hheld.extra name
    rw [if_neg hname] at hextra
    rw [toJson, get?_ofMembers hwritable.nodup]
    exact (lookup_behind hname).trans hextra
  · have hall := (List.forall₂_and_left turns r.messages).mpr ⟨fun _ => id, hturns⟩
    exact hall.imp fun _ _ ⟨hturn, hread⟩ => (hkept hturn hread).1
  · have hstop := hheld.stop
    rw [show members.lookup "stop" = some (.string s) from hs] at hstop
    obtain ⟨strings, hread, heq⟩ := hstop
    rw [heq, ← Except.ok.inj ((show Except.ok [s] = _ from hread))]

set_option maxRecDepth 4000 in
/-- A body with one stop sequence, a block that is no part, and a turn without content. -/
theorem settings_come_back :
    let document : Json := .object [("type", .string "document"), ("title", .string "notes")]
    let text :=
      ("\x7b\"model\":\"gpt-4o\",\"temperature\":1,\"stop\":\"END\",\"seed\":7,\"messages\":[" ++
        "\x7b\"role\":\"user\",\"content\":[\x7b\"type\":\"document\",\"title\":\"notes\"\x7d]," ++
        "\"id\":\"a\"\x7d,\x7b\"role\":\"assistant\"\x7d]\x7d").toUTF8.data.toList
    let r : Request :=
      { model := "gpt-4o"
        temperature := some (Binary.ofNat .single false 1)
        stop := some ["END"]
        messages := [⟨.user, .blocks [document.canonical], none, [("id", .string "a")]⟩,
          ⟨.assistant, .null, none, []⟩]
        extra := [("seed", .ofNat 7)] }
    Request.ofBytes text = .ok r ∧ Request.ofBytes r.print.toUTF8.data.toList = .ok r ∧
      r.toJson.get? "seed" = some (.ofNat 7) ∧ r.toJson.isDistinct = true := by
  intro document text r
  let sent : Json :=
    .object [("model", .string "gpt-4o"), ("temperature", .ofNat 1), ("stop", .string "END"),
      ("seed", .ofNat 7), ("messages", .array [.object [("role", .string "user"),
        ("content", .array [document]), ("id", .string "a")],
        .object [("role", .string "assistant")]])]
  have hspelled : sent.SpelledBy text := rfl
  have haccepted : Request.ofBytes text = .ok r := by
    rw [Request.ofBytes, hspelled.ofBytes]
    rfl
  -- Only two numbers are written, the temperature and the seed.
  have hback : ∀ n ∈ r.toJson.numbers, n.ComesBack := by
    intro n hn
    have hnumbers : r.toJson.numbers = [.single (Binary.ofNat .single false 1), .natural 7] := rfl
    rw [hnumbers, List.mem_cons, List.mem_singleton] at hn
    rcases hn with rfl | rfl
    · exact Number.comesBack_one
    · exact Number.comesBack_natural (by decide)
  obtain ⟨-, hdistinct, hread, hrest, -, hstop⟩ :=
    (comes_back haccepted).2 sent hspelled rfl (by decide) hback
  exact ⟨haccepted, hread, hrest "seed" (by decide), hdistinct⟩

end Request

end ModelRelay.Chat
