import ModelRelay.Proofs.Chat.Fields
import ModelRelay.Proofs.Json.Scanned
import ModelRelay.Proofs.Json.Whole

/-!
# Requests that can be written

**A request that was read can be written again** (`Request.isWritable_of_decoder_ok`): what it keeps
without a field stands under names that no field has, in canonical form, and nothing in it is nested
deeper than it was in the body (`Request.IsWritable`). So it is written as an object without
repeated names (`Request.IsWritable.nodup`) that a reader has room for
(`Request.IsWritable.fits_toJson`).

The bounds on nesting are counted from the outside. A request takes one level for itself, its turns
two more, and the content of a turn what is left. The reader's own limit leaves more than enough, so
the bounds that are asked for are small numbers, and nothing is said of how close one can come.

Whether the text is read as the same request is another matter, and depends on its numbers;
`RoundTrip` and `Settling` say what can be said with them and without them.
-/

set_option autoImplicit false

namespace ModelRelay

namespace Json

theorem fits_ofMembers {members : List (String × Option Json)} {room : ℕ}
    (h : ∀ name value, (name, some value) ∈ members → value.Fits room) :
    (ofMembers members).Fits (room + 1) := by
  refine ⟨Nat.succ_pos room, allMembersFit_iff.mpr fun m hm => ?_⟩
  obtain ⟨⟨name, value⟩, hmem, heq⟩ := List.mem_filterMap.mp hm
  obtain ⟨held, rfl, rfl⟩ := Option.map_eq_some_iff.mp heq
  exact h name held hmem

theorem fits_of_mem {items : List Json} {room : ℕ} (h : (array items).Fits room) {item : Json}
    (hitem : item ∈ items) : item.Fits (room - 1) :=
  allFit_iff.mp h.2 item hitem

theorem fits_of_mem_members {members : List (String × Json)} {room : ℕ}
    (h : (object members).Fits room) {m : String × Json} (hm : m ∈ members) :
    m.2.Fits (room - 1) :=
  allMembersFit_iff.mp h.2 m hm

/-- The canonical form of items that were read. -/
theorem fits_canonical_items {items : List Json} {room : ℕ} (h : (array items).Fits room) :
    (array (items.map canonical)).Fits room := by
  have hfits := Fits.canonical h
  rwa [canonical_array] at hfits

theorem fits_ofNat {n : ℕ} (hn : n < 0x10000000000000000) (room : ℕ) : (ofNat n).Fits room :=
  hn

theorem fits_ofStrings (strings : List String) {room : ℕ} (hroom : 0 < room) :
    (ofStrings strings).Fits room := by
  refine ⟨hroom, allFit_iff.mpr fun item hitem => ?_⟩
  obtain ⟨s, -, rfl⟩ := List.mem_map.mp hitem
  trivial

theorem fits_ofSingle {x : Binary} (hx : x.IsOf .single) (room : ℕ) : (ofSingle x).Fits room := by
  cases x with
  | infinite negative => trivial
  | finite negative m e => exact ⟨hx, rfl⟩

end Json

namespace Decoder

/-- **A single that is read is one of the format**, whatever number it was narrowed from. -/
theorem isOf_of_single {j : Json} {x : Binary} (hsingle : (Reading.ofJson j).noSingle = true)
    (h : single (.ofJson j) = .ok x) : x.IsOf .single := by
  have hof : ∀ negative n, (Binary.ofNat .single negative n).IsOf .single := fun negative n =>
    Binary.isOf_ofFraction .single Binary.isSound_single negative n one_pos
  cases j with
  | number n =>
    cases n with
    | natural n =>
      rw [← Except.ok.inj h]
      exact hof _ _
    | negative n =>
      rw [← Except.ok.inj h]
      exact hof _ _
    | double x =>
      rw [← Except.ok.inj h]
      cases x with
      | infinite negative => trivial
      | finite negative m e =>
        exact Binary.isOf_ofFraction .single Binary.isSound_single _ _ (Binary.fraction_pos m e)
    | single x => exact absurd hsingle (by simp [Reading.ofJson, Reading.noSingle])
  | null | bool _ | string s | array _ | object _ => nomatch h

end Decoder

namespace Chat

open Decoder

/-! ## Content

What is read as content is written as something that needs no more room. Parts are rebuilt from what
is held of them; blocks are written as they were, in canonical form. -/

/-- What a union of types is read as. -/
theorem firstFit_of {α : Type} {choices : List (Decoder α)} {j : Json} {a : α}
    (h : (choices.findSome? fun d => (d (.ofJson j)).toOption) = some a) :
    firstFit choices (.ofJson j) = .ok a := by
  rw [firstFit, held, Reading.isNone_toJson?_ofJson, if_neg Bool.false_ne_true]
  show Except.mapError _ (Option.elim (choices.findSome? fun d => (d (.ofJson j)).toOption) _ _) = _
  rw [h]
  rfl

namespace Content

/-- Content whose blocks, if it has any, are canonical. -/
def IsCanonical : Content → Prop
  | .blocks held => ∀ block ∈ held, block.canonical = block
  | .text _ | .parts _ | .null => True

/-- Blocks are read from an array, and one of its items is no part. -/
theorem exists_of_blocks {j : Json} {held : List Json}
    (hsingle : (Reading.ofJson j).noSingle = true)
    (h : Content.decoder (.ofJson j) = .ok (.blocks held)) :
    ∃ items, j = .array items ∧ held = items.map Json.canonical ∧
      ∃ item ∈ items, ¬ IsPart item := by
  cases j with
  | array items =>
    by_cases hparts : ∀ item ∈ items, IsPart item
    · obtain ⟨parts, hread, -⟩ := parts_of_decoder_ok hparts h
      nomatch hread
    · have hother : ∃ item ∈ items, ¬ IsPart item := by simpa using hparts
      exact ⟨items, rfl, Content.blocks.inj (blocks_of_decoder_ok hsingle hother h), hother⟩
  | string s => exact absurd (show Except.ok (Content.text s) = _ from h) nofun
  | null => exact absurd (show Except.ok Content.null = _ from h) nofun
  | bool _ | number n | object _ =>
    have hfit := firstFit_ok h
    exact absurd (show none = some (Content.blocks held) from hfit) nofun

/-- Content that was read has room where it was, and its blocks are canonical. -/
theorem fits_of_decoder_ok {j : Json} {content : Content} {room : ℕ}
    (hsingle : (Reading.ofJson j).noSingle = true) (hfits : j.Fits room) (hroom : 3 ≤ room)
    (h : Content.decoder (.ofJson j) = .ok content) :
    content.toJson.Fits room ∧ content.IsCanonical := by
  cases content with
  | text s => exact ⟨trivial, trivial⟩
  | null => exact ⟨trivial, trivial⟩
  | parts parts =>
    refine ⟨⟨by omega, Json.allFit_iff.mpr fun item hitem => ?_⟩, trivial⟩
    obtain ⟨part, -, rfl⟩ := List.mem_map.mp hitem
    cases part with
    | text s => exact ⟨by omega, trivial, trivial, trivial⟩
    | image image =>
      obtain ⟨url, detail⟩ := image
      cases detail with
      | none => exact ⟨by omega, trivial, ⟨by omega, trivial, trivial⟩, trivial⟩
      | some detail => exact ⟨by omega, trivial, ⟨by omega, trivial, trivial, trivial⟩, trivial⟩
  | blocks held =>
    obtain ⟨items, rfl, rfl, -⟩ := exists_of_blocks hsingle h
    refine ⟨Json.fits_canonical_items hfits, fun block hblock => ?_⟩
    obtain ⟨item, -, rfl⟩ := List.mem_map.mp hblock
    exact item.canonical_canonical

end Content

namespace SystemPrompt

/-- Instructions whose blocks, if they have any, are canonical. -/
def IsCanonical : SystemPrompt → Prop
  | .blocks held => ∀ block ∈ held, block.canonical = block
  | .text _ => True

/-- Instructions that were read have room where they were. -/
theorem fits_of_decoder_ok {j : Json} {prompt : SystemPrompt} {room : ℕ}
    (hsingle : (Reading.ofJson j).noSingle = true) (hfits : j.Fits room)
    (h : SystemPrompt.decoder (.ofJson j) = .ok prompt) :
    prompt.toJson.Fits room ∧ prompt.IsCanonical := by
  cases prompt with
  | text s => exact ⟨trivial, trivial⟩
  | blocks held =>
    cases j with
    | array items =>
      obtain rfl := SystemPrompt.blocks.inj (blocks_of_decoder_ok hsingle h)
      refine ⟨Json.fits_canonical_items hfits, fun block hblock => ?_⟩
      obtain ⟨item, -, rfl⟩ := List.mem_map.mp hblock
      exact item.canonical_canonical
    | string s => exact absurd (show Except.ok (SystemPrompt.text s) = _ from h) nofun
    | null | bool _ | number n | object _ =>
      have hfit := firstFit_ok h
      exact absurd (show none = some (SystemPrompt.blocks held) from hfit) nofun

end SystemPrompt

/-! ## What is kept without a field

The same holds for turns and for requests: what has no slot is gathered, and what is gathered was
read. -/

/-- Members that have no field, as they are kept: sorted, under names that no field has, canonical,
and nested no deeper than `room`. -/
structure IsKept (fieldNames : List String) (room : ℕ) (extra : Extra) : Prop where
  sorted : Json.Sorted extra
  apart : ∀ e ∈ extra, e.1 ∉ fieldNames
  canonical : ∀ e ∈ extra, e.2.canonical = e.2
  fits : ∀ e ∈ extra, e.2.Fits room

theorem isKept_of_gathers {β : Type} {put : β → String → Reading → Except Mismatch β}
    {known : List String} {extra : β → Extra} (h : Gathers put known extra) {s s' : β}
    {ms : List (String × Json)} {room : ℕ}
    (hok : Decoder.members put s (Reading.ofMembers ms) = .ok s') (hempty : extra s = [])
    (hsingle : (Reading.ofJson (.object ms)).noSingle = true) (hfits : (Json.object ms).Fits room) :
    IsKept known (room - 1) (extra s') := by
  have hmem : ∀ e ∈ extra s', e.1 ∉ known ∧ ∃ value, (e.1, value) ∈ ms ∧ e.2 = value.canonical := by
    intro e he
    rcases h.mem hok hsingle he with hstart | hfound
    · rw [hempty] at hstart
      exact absurd hstart List.not_mem_nil
    · exact hfound
  refine ⟨h.sorted hok (by rw [hempty]; exact List.Pairwise.nil), fun e he => (hmem e he).1,
    fun e he => ?_, fun e he => ?_⟩
  · obtain ⟨-, value, -, heq⟩ := hmem e he
    rw [heq, Json.canonical_canonical]
  · obtain ⟨-, value, hvalue, heq⟩ := hmem e he
    rw [heq]
    exact Json.Fits.canonical (Json.fits_of_mem_members hfits hvalue)

theorem IsKept.nodup {fieldNames : List String} {room : ℕ} {extra : Extra}
    (h : IsKept fieldNames room extra) (hfields : fieldNames.Nodup) :
    (fieldNames ++ extra.map Prod.fst).Nodup := by
  refine List.nodup_append.mpr ⟨hfields, h.sorted.nodup, ?_⟩
  rintro name hname other hother rfl
  obtain ⟨e, he, rfl⟩ := List.mem_map.mp hother
  exact h.apart e he hname

/-! ## Turns and requests

What is read is writable. Each level of the body takes one from the room. -/

/-- A turn whose members can be written at a depth that leaves `room`. -/
structure Message.IsWritable (room : ℕ) (m : Message) : Prop where
  content : m.content.toJson.Fits room
  blocks : m.content.IsCanonical
  extra : IsKept Message.fieldNames room m.extra

theorem Message.isWritable_of_decoder_ok {j : Json} {m : Message} {room : ℕ}
    (hsingle : (Reading.ofJson j).noSingle = true) (hfits : j.Fits room) (hroom : 4 ≤ room)
    (hdecoded : Message.decoder (.ofJson j) = .ok m) : m.IsWritable (room - 1) := by
  obtain ⟨s, hobject, h⟩ := exists_of_bind_ok hdecoded
  obtain ⟨role, -, h⟩ := exists_of_bind_ok h
  cases j with
  | object ms =>
    have hmembers : Decoder.members put {} (Reading.ofMembers ms) = .ok s := hobject
    rw [← Except.ok.inj h]
    have hcontent : (s.content.getD .null).toJson.Fits (room - 1) ∧
        (s.content.getD .null).IsCanonical := by
      rcases fills_content.defaults hmembers rfl .null with ⟨-, hnull⟩ | ⟨j, hj, hread⟩
      · rw [hnull]
        exact ⟨trivial, trivial⟩
      · exact Content.fits_of_decoder_ok (Reading.noSingle_of_lookup hsingle hj)
          (Json.fits_of_mem_members hfits (Json.mem_of_lookup hj)) (by omega) hread
    exact ⟨hcontent.1, hcontent.2, isKept_of_gathers gathers_extra hmembers rfl hsingle hfits⟩
  | null | bool _ | number n | string _ | array _ => nomatch hobject

namespace Request

/-- The parameters of a request that are singles. -/
def singles (r : Request) : List Binary :=
  [r.temperature, r.topP, r.frequencyPenalty, r.presencePenalty].filterMap id

theorem mem_singles {r : Request} {x : Binary} : x ∈ r.singles ↔
    r.temperature = some x ∨ r.topP = some x ∨ r.frequencyPenalty = some x ∨
      r.presencePenalty = some x := by
  simp [singles, List.mem_filterMap, eq_comm]

/-- A request whose members can be written at a depth that leaves `room`. -/
structure IsWritable (room : ℕ) (r : Request) : Prop where
  messages : ∀ m ∈ r.messages, m.IsWritable (room - 2)
  system : ∀ prompt, r.system = some prompt → prompt.toJson.Fits room ∧ prompt.IsCanonical
  singles : ∀ x ∈ r.singles, x.IsOf .single
  extra : IsKept fieldNames room r.extra

theorem isOf_of_holds {found : Option Json} {x : Binary} {a : Option Binary}
    (hsingle : ∀ j, found = some j → (Reading.ofJson j).noSingle = true)
    (h : single.Holds found a) (ha : a = some x) : x.IsOf .single := by
  subst ha
  match found, h with
  | none, h => nomatch h
  | some .null, h => nomatch h
  | some (.number n), ⟨_, hread, heq⟩ =>
    rw [Option.some.inj heq]
    exact isOf_of_single (hsingle _ rfl) hread
  | some (.bool _), ⟨_, hread, _⟩ => nomatch hread
  | some (.string _), ⟨_, hread, _⟩ => nomatch hread
  | some (.array _), ⟨_, hread, _⟩ => nomatch hread
  | some (.object _), ⟨_, hread, _⟩ => nomatch hread

/-- **A request that was read is writable.** -/
theorem isWritable_of_decoder_ok {j : Json} {r : Request} {room : ℕ}
    (hsingle : (Reading.ofJson j).noSingle = true) (hfits : j.Fits room) (hroom : 7 ≤ room)
    (hdecoded : Request.decoder (.ofJson j) = .ok r) : r.IsWritable (room - 1) := by
  obtain ⟨s, hobject, h⟩ := exists_of_bind_ok hdecoded
  obtain ⟨model, -, h⟩ := exists_of_bind_ok h
  obtain ⟨messages, hmessages, h⟩ := exists_of_bind_ok h
  cases j with
  | object ms =>
    have hmembers : Decoder.members put {} (Reading.ofMembers ms) = .ok s := hobject
    have hlookup : ∀ name j, ms.lookup name = some j →
        (Reading.ofJson j).noSingle = true ∧ j.Fits (room - 1) := fun name j hj =>
      ⟨Reading.noSingle_of_lookup hsingle hj,
        Json.fits_of_mem_members hfits (Json.mem_of_lookup hj)⟩
    rw [← Except.ok.inj h]
    refine ⟨fun m hm => ?_, fun prompt hprompt => ?_, fun x hx => ?_,
      isKept_of_gathers gathers_extra hmembers rfl hsingle hfits⟩
    · -- Turns stand two levels further in: in an array, which is in the request.
      obtain ⟨found, hfound, hlist⟩ := fills_messages.lookup hmembers rfl (need_ok hmessages)
      obtain ⟨turns, rfl, hturns⟩ := list_ok hlist
      obtain ⟨hturnsSingle, hturnsFit⟩ := hlookup _ _ hfound
      obtain ⟨turn, hturn, hread⟩ := exists_of_forall₂_of_mem hturns.flip hm
      have hmessage := Message.isWritable_of_decoder_ok
        (Reading.noSingle_of_mem hturnsSingle hturn) (Json.fits_of_mem hturnsFit hturn)
        (by omega) hread
      rwa [show room - 1 - 1 - 1 = room - 1 - 2 by omega] at hmessage
    · have hprompt : s.system.join = some prompt := hprompt
      have hholds := fills_system.holds hmembers rfl
      rw [hprompt] at hholds
      cases hfound : ms.lookup "system" with
      | none =>
        rw [hfound] at hholds
        nomatch hholds
      | some j =>
        rw [hfound] at hholds
        obtain ⟨hjSingle, hjFits⟩ := hlookup _ _ hfound
        cases j with
        | null => nomatch hholds
        | bool _ | number n | string _ | array _ | object _ =>
          obtain ⟨read, hread, heq⟩ := hholds
          rw [Option.some.inj heq]
          exact SystemPrompt.fits_of_decoder_ok hjSingle hjFits hread
    · have hfound : ∀ name j, ms.lookup name = some j → (Reading.ofJson j).noSingle = true :=
        fun name j hj => (hlookup name j hj).1
      rcases mem_singles.mp hx with hx | hx | hx | hx
      · exact isOf_of_holds (hfound _) (fills_temperature.holds hmembers rfl) hx
      · exact isOf_of_holds (hfound _) (fills_topP.holds hmembers rfl) hx
      · exact isOf_of_holds (hfound _) (fills_frequencyPenalty.holds hmembers rfl) hx
      · exact isOf_of_holds (hfound _) (fills_presencePenalty.holds hmembers rfl) hx
  | null | bool _ | number n | string _ | array _ => nomatch hobject

/-! ### Writing -/

theorem names_members (r : Request) :
    r.members.map Prod.fst = fieldNames ++ r.extra.map Prod.fst := by
  simp [members, fieldNames, Function.comp_def]

end Request

namespace Message

/-- The members of a turn in their order. -/
def members (m : Message) : List (String × Option Json) :=
  [("role", some (.string m.role.name)), ("content", some m.content.toJson),
   ("name", m.name.map .string)] ++ m.extra.map fun (name, value) => (name, some value)

theorem toJson_eq (m : Message) : m.toJson = .ofMembers m.members := rfl

theorem names_members (m : Message) :
    m.members.map Prod.fst = fieldNames ++ m.extra.map Prod.fst := by
  simp [members, fieldNames, Function.comp_def]

variable {room : ℕ} {m : Message}

/-- A writable turn is written without repeated names. -/
theorem IsWritable.nodup (h : m.IsWritable room) : (m.members.map Prod.fst).Nodup := by
  rw [names_members]
  exact h.extra.nodup (by decide)

/-- A turn needs one level more than its members. -/
theorem IsWritable.fits_toJson (h : m.IsWritable room) : m.toJson.Fits (room + 1) := by
  refine Json.fits_ofMembers fun name value hvalue => ?_
  rcases List.mem_append.mp hvalue with hfield | hextra
  · simp only [List.mem_cons, Prod.mk.injEq, List.not_mem_nil, or_false] at hfield
    rcases hfield with ⟨-, hfield⟩ | ⟨-, hfield⟩ | ⟨-, hfield⟩
    · obtain rfl := Option.some.inj hfield
      trivial
    · obtain rfl := Option.some.inj hfield
      exact h.content
    · obtain ⟨s, -, rfl⟩ := Option.map_eq_some_iff.mp hfield.symm
      trivial
  · obtain ⟨e, he, heq⟩ := List.mem_map.mp hextra
    rw [← Option.some.inj (Prod.mk.inj heq).2]
    exact h.extra.fits e he

end Message

namespace Request

variable {room : ℕ} {r : Request}

/-- A writable request is written without repeated names. -/
theorem IsWritable.nodup (h : r.IsWritable room) : (r.members.map Prod.fst).Nodup := by
  rw [names_members]
  exact h.extra.nodup (by decide)

/-- What is written of a request, kind by kind. -/
theorem forall_members {P : Json → Prop} (hstring : ∀ s, P (.string s)) (hbool : ∀ b, P (.bool b))
    (hword : ∀ n : UInt32, P (.ofNat n.toNat)) (hstrings : ∀ strings, P (.ofStrings strings))
    (hsingle : ∀ x ∈ r.singles, P (.ofSingle x))
    (hsystem : ∀ prompt, r.system = some prompt → P prompt.toJson)
    (hturns : P (.array (r.messages.map Message.toJson))) (hextra : ∀ e ∈ r.extra, P e.2) :
    ∀ name value, (name, some value) ∈ r.members → P value := by
  -- The fields are of two kinds, those that may be left out and those that may not.
  have hmap : ∀ {α : Type} {x : Option α} {w : α → Json} {value : Json},
      (∀ a, x = some a → P (w a)) → some value = x.map w → P value := by
    intro α x w value hall heq
    obtain ⟨a, ha, rfl⟩ := Option.map_eq_some_iff.mp heq.symm
    exact hall a ha
  have hone : ∀ {held value : Json}, P held → some value = some held → P value := by
    intro held value hheld heq
    rwa [Option.some.inj heq]
  intro name value hvalue
  rcases List.mem_append.mp hvalue with hfield | hbehind
  · simp only [List.mem_cons, Prod.mk.injEq, List.not_mem_nil, or_false] at hfield
    rcases hfield with ⟨-, hv⟩ | ⟨-, hv⟩ | ⟨-, hv⟩ | ⟨-, hv⟩ | ⟨-, hv⟩ | ⟨-, hv⟩ | ⟨-, hv⟩ |
      ⟨-, hv⟩ | ⟨-, hv⟩ | ⟨-, hv⟩ | ⟨-, hv⟩ | ⟨-, hv⟩ | ⟨-, hv⟩ | ⟨-, hv⟩
    · exact hone (hstring _) hv
    · exact hone hturns hv
    · exact hmap hsystem hv
    · exact hmap (fun x hx => hsingle x (mem_singles.mpr (Or.inl hx))) hv
    · exact hmap (fun n _ => hword n) hv
    · exact hmap (fun n _ => hword n) hv
    · exact hmap (fun x hx => hsingle x (mem_singles.mpr (Or.inr (Or.inl hx)))) hv
    · exact hmap (fun n _ => hword n) hv
    · exact hmap (fun x hx => hsingle x (mem_singles.mpr (Or.inr (Or.inr (Or.inl hx))))) hv
    · exact hmap (fun x hx => hsingle x (mem_singles.mpr (Or.inr (Or.inr (Or.inr hx))))) hv
    · exact hmap (fun strings _ => hstrings strings) hv
    · exact hmap (fun strings _ => hstrings strings) hv
    · exact hone (hbool _) hv
    · exact hmap (fun s _ => hstring s) hv
  · obtain ⟨e, he, heq⟩ := List.mem_map.mp hbehind
    rw [← Option.some.inj (Prod.mk.inj heq).2]
    exact hextra e he

/-- A request needs one level more than its members. -/
theorem IsWritable.fits_toJson (h : r.IsWritable room) (hroom : 3 ≤ room) :
    r.toJson.Fits (room + 1) := by
  refine Json.fits_ofMembers (forall_members (fun _ => trivial) (fun _ => trivial)
    (fun n => Json.fits_ofNat (lt_trans n.toNat_lt (by decide)) room)
    (fun strings => Json.fits_ofStrings strings (by omega))
    (fun x hx => Json.fits_ofSingle (h.singles x hx) room)
    (fun prompt hprompt => (h.system prompt hprompt).1) ?_ h.extra.fits)
  refine ⟨by omega, Json.allFit_iff.mpr fun item hitem => ?_⟩
  obtain ⟨m, hm, rfl⟩ := List.mem_map.mp hitem
  have hfits := (h.messages m hm).fits_toJson
  rwa [show room - 2 + 1 = room - 1 by omega] at hfits

end Request

end Chat

end ModelRelay
