import ModelRelay.Proofs.Chat.Fields
import ModelRelay.Proofs.Json.Written

/-!
# Blocks stay blocks

Whether a block reads as a typed part does not depend on the order of its members: **a block whose
canonical form is a part is one itself** (`isPart_of_canonical`), as long as no name is repeated in
it. So blocks that were kept because one of them was no part are not taken for parts when they are
read again in canonical form.

The property of a decoder behind it is `ReadsAlike`, from the canonical form back to the value. The
other way around is never needed. A record may be written as an object or, field by field, as an
array. In an array the places count, and canonical forms keep them; in an object the names count,
and the argument goes through what is looked up. Records of one field are done once for all, links
to images have two fields and are done by hand.

A repeated name would break this: such an object is no part, and its canonical form may be one.
-/

set_option autoImplicit false

namespace ModelRelay

namespace Json

theorem isDistinct_eraseMember {members : List (String × Json)}
    (h : (object members).isDistinct = true) (name : String) :
    (object (eraseMember name members)).isDistinct = true := by
  have hnodup := nodup_eraseMember (nodup_of_isDistinct h) name
  rw [isDistinct, Bool.and_eq_true, allMembersDistinct_eq_all] at h ⊢
  refine ⟨decide_eq_true hnodup, List.all_eq_true.mpr fun m hm => ?_⟩
  exact List.all_eq_true.mp h.2 m (List.mem_of_mem_filter hm)

/-- A member may be erased before the others are sorted, or after. -/
theorem canonical_eraseMember {members : List (String × Json)}
    (h : (members.map Prod.fst).Nodup) (name : String) :
    (object (eraseMember name members)).canonical
      = object (eraseMember name (sortMembers (members.map fun m => (m.1, m.2.canonical)))) := by
  have hmap : ∀ {ms : List (String × Json)}, (ms.map Prod.fst).Nodup →
      ((ms.map fun m => (m.1, m.2.canonical)).map Prod.fst).Nodup := by
    intro ms hms
    rwa [List.map_map]
  rw [canonical_object]
  congr 1
  refine (sorted_sortMembers _).ext ((sorted_sortMembers _).sublist List.filter_sublist) ?_
  intro other
  rw [lookup_sortMembers_of_nodup (hmap (nodup_eraseMember h name)), lookup_map_values,
    lookup_eraseMember, lookup_eraseMember, lookup_sortMembers_of_nodup (hmap h),
    lookup_map_values]
  split <;> rfl

end Json

namespace Decoder

variable {α β : Type} {d : Decoder α} {put : β → String → Reading → Except Mismatch β}

/-- What is read from the canonical form of a value is read from the value as well. -/
def ReadsAlike (d : Decoder α) : Prop :=
  ∀ {j : Json} {a : α}, j.isDistinct = true → d (.ofJson j.canonical) = .ok a →
    d (.ofJson j) = .ok a

theorem readsAlike_text : ReadsAlike text := by
  intro j s _ h
  rw [Json.eq_string_of_canonical (text_ok h)]
  rfl

theorem ReadsAlike.optional (h : ReadsAlike d) : ReadsAlike (optional d) := by
  intro j a hdistinct hread
  cases j with
  | null => exact hread
  | bool _ | number n | string s | array _ | object _ =>
    obtain ⟨b, hb, hread⟩ := exists_of_map_ok hread
    show Except.map some (d _) = _
    rw [h hdistinct hb, ← hread]
    rfl

/-- A field that may be left out is the same when it is looked up in the canonical form. -/
theorem Holds.of_canonical (h : ReadsAlike d) {found : Option Json} {a : Option α}
    (hdistinct : ∀ j, found = some j → j.isDistinct = true)
    (hholds : d.Holds (found.map Json.canonical) a) : d.Holds found a := by
  cases found with
  | none => exact hholds
  | some j =>
    have hread : Decoder.optional d (.ofJson j.canonical) = .ok a := optional_of_holds hholds
    exact holds_of_optional_ok (h.optional (hdistinct j rfl) hread)

/-- A step of a record does alike on a value and on its canonical form. -/
def StepsAlike (put : β → String → Reading → Except Mismatch β) : Prop :=
  ∀ {s : β} {name : String} {j : Json} {s' : β}, j.isDistinct = true →
    put s name (.ofJson j.canonical) = .ok s' → put s name (.ofJson j) = .ok s'

theorem fill_alike (h : ReadsAlike d) {name : String} {slot filled : Option α} {j : Json}
    (hdistinct : j.isDistinct = true)
    (hfill : fill name slot d (.ofJson j.canonical) = .ok filled) :
    fill name slot d (.ofJson j) = .ok filled := by
  obtain ⟨rfl, a, ha, rfl⟩ := fill_ok hfill
  exact fill_free (h hdistinct ha)

/-- Fields that are told by their places are read alike, one after the other. -/
theorem positions_alike (h : StepsAlike put) (names : List (String × Bool)) {items : List Json}
    (hdistinct : ∀ item ∈ items, item.isDistinct = true) {s s' : β}
    (hread : positions put s names (Reading.ofItems (items.map Json.canonical)) = .ok s') :
    positions put s names (Reading.ofItems items) = .ok s' := by
  induction names generalizing items s with
  | nil =>
    cases items with
    | nil => exact hread
    | cons item rest => nomatch hread
  | cons field names ih =>
    obtain ⟨name, optional⟩ := field
    cases items with
    | nil =>
      cases optional with
      | true => exact ih hdistinct hread
      | false => nomatch hread
    | cons item rest =>
      obtain ⟨hitem, hrest⟩ := List.forall_mem_cons.mp hdistinct
      obtain ⟨mid, hmid, hread⟩ := exists_of_bind_ok hread
      show put s name (.ofJson item) >>= _ = _
      rw [h hitem hmid]
      exact ih hrest hread

theorem tagged_array (t : Tags) (body : String → Decoder α) (first : Json) (rest : List Json) :
    tagged t body (.ofJson (.array (first :: rest)))
      = t.read (.ofJson first) >>= fun tag =>
          (body tag (.ofJson (.array rest))).mapError Mismatch.settled := by
  have hwhole : (Reading.array (Reading.ofItems rest)).toJson?.isNone = false :=
    Reading.isNone_toJson?_ofJson (.array rest)
  simp only [tagged, Reading.ofJson, Reading.ofItems, hwhole]
  cases t.read (.ofJson first) <;> rfl

section Single

variable {single : Option α → String → Reading → Except Mismatch (Option α)} {name : String}

theorem stepsAlike_single
    (hput : ∀ s field r, single s field r = if field = name then fill field s d r else do
      skip r
      return s)
    (h : ReadsAlike d) : StepsAlike single := by
  intro s field j s' hdistinct hread
  rw [hput] at hread ⊢
  split_ifs at hread ⊢ with hfield
  · exact fill_alike h hdistinct hread
  · rw [skip_ofJson] at hread ⊢
    exact hread

/-- A record of one field, which must be there. -/
theorem record_single_alike
    (hput : ∀ s field r, single s field r = if field = name then fill field s d r else do
      skip r
      return s)
    (h : ReadsAlike d) (fields : List (String × Bool)) {j : Json} {a : α}
    (hdistinct : j.isDistinct = true)
    (hread : record fields single none (.ofJson j.canonical) = .ok (some a)) :
    record fields single none (.ofJson j) = .ok (some a) := by
  cases j with
  | object ms =>
    have hnodup := Json.nodup_of_isDistinct hdistinct
    rw [Json.canonical_object] at hread
    have hfills : Fills single name d id := fills_single hput
    obtain ⟨found, hfound, ha⟩ := hfills.lookup hread rfl rfl
    rw [Json.lookup_sortMembers_of_nodup (by rwa [List.map_map]), Json.lookup_map_values] at hfound
    obtain ⟨value, hvalue, rfl⟩ := Option.map_eq_some_iff.mp hfound
    exact single_of_lookup hput hnodup hvalue
      (h (Json.isDistinct_of_lookup hdistinct hvalue) ha)
  | array items =>
    rw [Json.canonical_array] at hread
    exact positions_alike (stepsAlike_single hput h) fields
      (fun item hitem => Json.isDistinct_of_mem hdistinct hitem) hread
  | null | bool _ | number n | string s => nomatch hread

end Single

end Decoder

namespace Chat

open Decoder

/-! ## Links to images

A link has an address, and may have a detail. The members of an object come back sorted, which
changes neither. -/

namespace ImageUrl

theorem put_kept {s s' : Slots} {name : String} {r : Reading} (h : put s name r = .ok s') :
    (name ≠ "url" → s'.url = s.url) ∧ (name ≠ "detail" → s'.detail = s.detail) := by
  unfold put at h
  split at h
  all_goals
    obtain ⟨_, -, h⟩ := exists_of_bind_ok h
    rw [← Except.ok.inj h]
    simp

theorem fills_url : Fills put "url" text (·.url) :=
  .of_set (fun _ _ => rfl) (fun _ _ => rfl) fun hne h => (put_kept h).1 hne

theorem fills_detail : Fills put "detail" (optional text) (·.detail) :=
  .of_set (fun _ _ => rfl) (fun _ _ => rfl) fun hne h => (put_kept h).2 hne

theorem put_of_notMem (s : Slots) (name : String) (j : Json) (h : name ∉ ["url", "detail"]) :
    put s name (.ofJson j) = .ok s := by
  simp only [List.mem_cons, List.not_mem_nil, or_false, not_or] at h
  unfold put
  split
  · exact absurd rfl h.1
  · exact absurd rfl h.2
  · rw [skip_ofJson]
    rfl

/-- Both fields of a link are texts, which are read alike. -/
theorem stepsAlike_put : StepsAlike put := by
  intro s name j s' hdistinct h
  by_cases hname : name ∈ ["url", "detail"]
  · simp only [List.mem_cons, List.not_mem_nil, or_false] at hname
    rcases hname with rfl | rfl
    · obtain ⟨filled, hfill, h⟩ := exists_of_bind_ok h
      show fill "url" s.url text (.ofJson j) >>= _ = _
      rw [fill_alike readsAlike_text hdistinct hfill, ← h]
      rfl
    · obtain ⟨filled, hfill, h⟩ := exists_of_bind_ok h
      show fill "detail" s.detail (optional text) (.ofJson j) >>= _ = _
      rw [fill_alike readsAlike_text.optional hdistinct hfill, ← h]
      rfl
  · rw [put_of_notMem s name _ hname] at h ⊢
    exact h

/-- **A link is read from a value if it is read from its canonical form.** -/
theorem readsAlike_decoder : ReadsAlike ImageUrl.decoder := by
  intro j image hdistinct hread
  obtain ⟨s, hrecord, h⟩ := exists_of_bind_ok hread
  obtain ⟨url, hurl, h⟩ := exists_of_bind_ok h
  cases j with
  | object ms =>
    have hnodup := Json.nodup_of_isDistinct hdistinct
    rw [Json.canonical_object] at hrecord
    have hlookup : ∀ name, (Json.sortMembers (ms.map fun m => (m.1, m.2.canonical))).lookup name
        = (ms.lookup name).map Json.canonical := by
      intro name
      rw [Json.lookup_sortMembers_of_nodup (by rwa [List.map_map]), Json.lookup_map_values]
    -- The address and the detail are found in the object as in its canonical form, so that the
    -- object can be read, and to the same link.
    obtain ⟨found, hfound, ha⟩ := fills_url.lookup hrecord rfl (need_ok hurl)
    rw [hlookup] at hfound
    obtain ⟨value, hvalue, rfl⟩ := Option.map_eq_some_iff.mp hfound
    have hvalueRead := readsAlike_text (Json.isDistinct_of_lookup hdistinct hvalue) ha
    have hdetail := fills_detail.holds hrecord rfl
    rw [hlookup] at hdetail
    have hdetail := Holds.of_canonical readsAlike_text
      (fun j hj => Json.isDistinct_of_lookup hdistinct hj) hdetail
    obtain ⟨s', hs'⟩ : ∃ s', Decoder.members put {} (Reading.ofMembers ms) = .ok s' := by
      refine exists_members ["url", "detail"] put_of_notMem hnodup fun name hname j hj => ?_
      simp only [List.mem_cons, List.not_mem_nil, or_false] at hname
      rcases hname with rfl | rfl
      · exact fills_url.awaits_of_needs rfl ⟨value, hvalue, hvalueRead⟩ hj
      · exact fills_detail.awaits_of_holds rfl hdetail hj
    show (Decoder.members put {} (Reading.ofMembers ms) >>= fun s => need "url" s.url >>= _) = _
    rw [hs']
    show need "url" s'.url >>= _ = _
    rw [fills_url.slot_eq hs' hvalue hvalueRead]
    show Except.ok (ImageUrl.mk url s'.detail.join) = _
    rw [(fills_detail.holds hs' rfl).unique hdetail]
    exact h
  | array items =>
    rw [Json.canonical_array] at hrecord
    have hsame :
        record [("url", false), ("detail", true)] put {} (.ofJson (.array items)) = .ok s :=
      positions_alike stepsAlike_put _ (fun item hitem => Json.isDistinct_of_mem hdistinct hitem)
        hrecord
    show (record [("url", false), ("detail", true)] put {} (.ofJson (.array items)) >>= _) = _
    rw [hsame]
    show need "url" s.url >>= _ = _
    rw [hurl]
    exact h
  | null | bool _ | number n | string s => nomatch hrecord

end ImageUrl

/-! ## Parts

A part names its type by a tag, and the rest of it is a record of one field. Both ways to write a
tagged value come down to the same two steps. -/

namespace ContentPart

theorem putText_eq (s : Option String) (field : String) (r : Reading) :
    putText s field r = if field = "text" then fill field s Decoder.text r else do
      skip r
      return s := by
  unfold putText
  split
  · rfl
  · rename_i hne
    rw [if_neg hne]

theorem putImage_eq (s : Option ImageUrl) (field : String) (r : Reading) :
    putImage s field r = if field = "image_url" then fill field s ImageUrl.decoder r else do
      skip r
      return s := by
  unfold putImage
  split
  · rfl
  · rename_i hne
    rw [if_neg hne]

theorem readsAlike_body (tag : String) : ReadsAlike (body tag) := by
  intro j part hdistinct hread
  unfold body at hread ⊢
  split
  · obtain ⟨slot, hrecord, h⟩ := exists_of_bind_ok hread
    obtain ⟨s, hs, h⟩ := exists_of_bind_ok h
    rw [need_ok hs] at hrecord
    show (record [("text", false)] putText none (.ofJson j) >>= _) = _
    rw [record_single_alike putText_eq readsAlike_text _ hdistinct hrecord]
    exact h
  · rename_i hne
    split at hread
    · exact absurd rfl hne
    · obtain ⟨slot, hrecord, h⟩ := exists_of_bind_ok hread
      obtain ⟨image, himage, h⟩ := exists_of_bind_ok h
      rw [need_ok himage] at hrecord
      show (record [("image_url", false)] putImage none (.ofJson j) >>= _) = _
      rw [record_single_alike putImage_eq ImageUrl.readsAlike_decoder _ hdistinct hrecord]
      exact h

/-- The tag of a part is read off a name or a number, which canonical forms leave as they are. -/
theorem read_tag_canonical (byPlace : Bool) (j : Json) :
    (tags byPlace).read (.ofJson j.canonical) = (tags byPlace).read (.ofJson j) := by
  cases j with
  | number n => cases n <;> rfl
  | null | bool _ | string s | array _ | object _ => rfl

end ContentPart

/-- **A block whose canonical form is a part is one itself.** -/
theorem isPart_of_canonical {block : Json} (hdistinct : block.isDistinct = true)
    (h : IsPart block.canonical) : IsPart block := by
  obtain ⟨part, hpart⟩ := h
  rw [ContentPart.decoder] at hpart
  -- Either way the tag is read first, and the rest once it is known.
  have hrest : ∀ {first rest : Json}, rest.isDistinct = true →
      ((ContentPart.tags true).read (.ofJson first.canonical) >>= fun tag =>
        (ContentPart.body tag (.ofJson rest.canonical)).mapError Mismatch.settled) = .ok part →
      ((ContentPart.tags true).read (.ofJson first) >>= fun tag =>
        (ContentPart.body tag (.ofJson rest)).mapError Mismatch.settled) = .ok part := by
    intro first rest hrest h
    rw [ContentPart.read_tag_canonical] at h
    obtain ⟨tag, htag, hbody⟩ := exists_of_bind_ok h
    rw [htag]
    show (ContentPart.body tag (.ofJson rest)).mapError Mismatch.settled = _
    rw [ContentPart.readsAlike_body tag hrest (of_mapError_ok hbody)]
    rfl
  cases block with
  | object ms =>
    have hnodup := Json.nodup_of_isDistinct hdistinct
    have hsorted := Json.sorted_sortMembers (ms.map fun m => (m.1, m.2.canonical))
    have hlookup : (Json.sortMembers (ms.map fun m => (m.1, m.2.canonical))).lookup "type"
        = (ms.lookup "type").map Json.canonical := by
      rw [Json.lookup_sortMembers_of_nodup (by rwa [List.map_map]), Json.lookup_map_values]
    rw [Json.canonical_object] at hpart
    cases hfound : ms.lookup "type" with
    | none =>
      rw [hfound] at hlookup
      have hnone := tagMembers_of_notMem (ContentPart.tags true) none []
        (Json.notMem_of_lookup hlookup)
      obtain ⟨_, hread, -⟩ := exists_of_bind_ok hpart
      rw [show tagMembers (ContentPart.tags true) none [] (Reading.ofMembers _) = _ from hnone]
        at hread
      cases hread
    | some found =>
      rw [hfound] at hlookup
      rw [tagged_object hsorted.nodup hlookup, ← Json.canonical_eraseMember hnodup] at hpart
      refine ⟨part, ?_⟩
      rw [ContentPart.decoder, tagged_object hnodup hfound]
      exact hrest (Json.isDistinct_eraseMember hdistinct "type") hpart
  | array items =>
    rw [Json.canonical_array] at hpart
    cases items with
    | nil => cases hpart
    | cons first rest =>
      rw [List.map_cons, tagged_array, ← Json.canonical_array] at hpart
      refine ⟨part, ?_⟩
      rw [ContentPart.decoder, tagged_array]
      refine hrest ?_ hpart
      rw [Json.isDistinct, Json.allDistinct, Bool.and_eq_true] at hdistinct
      exact hdistinct.2
  | null | bool _ | number n | string s => cases hpart

end Chat

end ModelRelay
