import ModelRelay.Proofs.Fallible
import ModelRelay.Proofs.Json.Reading

/-!
# Records that are read in order

A record is read member by member, in whatever order they were written, and each member is put into
its slot or passed over. What a record *holds* in the end does not depend on that order: it is what
can be looked up under the name of each field. `Fills` says what one step does to one slot, and from
it `Fills.members` says, by one induction for all records, what a whole object does to it. `Gathers`
is the same for the members that have no slot, which some records keep: **every one of them is kept
and nothing else** (`Gathers.members`).

The other direction, that an object is read to its end at all, needs more than that each slot takes
its member, for the members before it must leave the slot open. `Awaits` is the property that is
kept on the way, and `exists_members` is the induction. Both ask for distinct names, since a second
member of one name is refused.

Each record of the relay has its `Fills` proved beside it, one for each field, and cites the
theorems here for the rest.
-/

set_option autoImplicit false

namespace ModelRelay.Decoder

variable {α β γ : Type}

/-! ## One field

What a slot, a list or a field that may be left out does with one value, in both directions: what
was read if it succeeded, and that it succeeds. -/

/-- A slot is filled only while it is empty. -/
theorem fill_ok {name : String} {slot filled : Option α} {d : Decoder α} {r : Reading}
    (h : fill name slot d r = .ok filled) :
    slot = none ∧ ∃ a, d r = .ok a ∧ filled = some a := by
  cases slot with
  | some held => nomatch h
  | none =>
    obtain ⟨a, ha, h⟩ := exists_of_map_ok h
    exact ⟨rfl, a, ha, h.symm⟩

theorem fill_free {name : String} {d : Decoder α} {r : Reading} {a : α} (h : d r = .ok a) :
    fill name none d r = .ok (some a) := by
  show Except.map some (d r) = _
  rw [h]
  rfl

theorem need_ok {name : String} {slot : Option α} {a : α} (h : need name slot = .ok a) :
    slot = some a := by
  cases slot with
  | none => nomatch h
  | some held => rw [Except.ok.inj h]

theorem skip_ofJson (j : Json) : skip (.ofJson j) = .ok () := by
  rw [skip, Reading.isCut_ofJson]
  rfl

theorem text_ok {j : Json} {s : String} (h : text (.ofJson j) = .ok s) : j = .string s := by
  cases j with
  | string held => rw [Except.ok.inj h]
  | null | bool _ | number n | array _ | object _ => nomatch h

/-- A list is read from an array, item by item. -/
theorem list_ok {d : Decoder α} {j : Json} {as : List α} (h : list d (.ofJson j) = .ok as) :
    ∃ items, j = .array items ∧ List.Forall₂ (fun item a => d (.ofJson item) = .ok a) items as := by
  cases j with
  | array items =>
    have hall : (Reading.ofItems items).mapM d = .ok as := h
    rw [Reading.ofItems_eq_map, mapM_ok_iff, List.forall₂_map_left_iff] at hall
    exact ⟨items, rfl, hall⟩
  | null | bool _ | number n | string s | object _ => nomatch h

theorem list_of {d : Decoder α} {items : List Json} {as : List α}
    (h : List.Forall₂ (fun item a => d (.ofJson item) = .ok a) items as) :
    list d (.ofJson (.array items)) = .ok as := by
  show (Reading.ofItems items).mapM d = _
  rw [Reading.ofItems_eq_map, mapM_ok_iff, List.forall₂_map_left_iff]
  exact h

/-- An array whose items may be anything is read as the canonical forms of them. -/
theorem list_json {items : List Json} (h : (Reading.ofJson (.array items)).noSingle = true) :
    list json (.ofJson (.array items)) = .ok (items.map Json.canonical) := by
  apply list_of
  change Reading.noSingles (Reading.ofItems items) = true at h
  induction items with
  | nil => exact .nil
  | cons item rest ih =>
    rw [Reading.ofItems, Reading.noSingles, Bool.and_eq_true] at h
    refine .cons ?_ (ih h.2)
    rw [json, Reading.toJson?_ofJson item h.1]

/-- A name is given as a string, or as the one member of an object, with null. -/
theorem oneOf_ok {names : List (String × α)} {j : Json} {a : α}
    (h : oneOf names (.ofJson j) = .ok a) :
    ∃ name, names.lookup name = some a ∧ (j = .string name ∨ j = .object [(name, .null)]) := by
  have hvariant : ∀ {name : String}, variant names name = .ok a → names.lookup name = some a := by
    intro name h
    rw [variant] at h
    split at h
    · rename_i found hfound
      rw [hfound, Except.ok.inj h]
    · nomatch h
  cases j with
  | string name => exact ⟨name, hvariant h, Or.inl rfl⟩
  | object members =>
    match members with
    | [] => nomatch h
    | (name, value) :: rest =>
      obtain ⟨found, hfound, h⟩ := exists_of_bind_ok h
      cases value with
      | null =>
        cases rest with
        | nil =>
          exact ⟨name, hvariant (Except.ok.inj h ▸ hfound), Or.inr rfl⟩
        | cons _ _ => nomatch h
      | bool _ | number n | string _ | array _ | object _ => nomatch h
  | null | bool _ | number n | array _ => nomatch h

/-- `d.Holds found a`: what is found under the name of a field that may be left out comes to `a`.
Null counts as left out. -/
def Holds (d : Decoder α) : Option Json → Option α → Prop
  | none, a | some .null, a => a = none
  | some j, a => ∃ b, d (.ofJson j) = .ok b ∧ a = some b

/-- What is read of a field that may be left out is what its value comes to. -/
theorem holds_of_optional_ok {d : Decoder α} {j : Json} {a : Option α}
    (h : optional d (.ofJson j) = .ok a) : d.Holds (some j) a := by
  cases j with
  | null => exact (Except.ok.inj h).symm
  | bool _ | number n | string s | array _ | object _ =>
    obtain ⟨b, hb, h⟩ := exists_of_map_ok h
    exact ⟨b, hb, h.symm⟩

theorem optional_of_holds {d : Decoder α} {j : Json} {a : Option α} (h : d.Holds (some j) a) :
    optional d (.ofJson j) = .ok a := by
  cases j with
  | null => exact congrArg Except.ok h.symm
  | bool _ | number n | string s | array _ | object _ =>
    obtain ⟨b, hb, rfl⟩ := h
    exact congrArg (Except.map some) hb

theorem string?_of_holds {found : Option Json} {t : Option String} (h : text.Holds found t) :
    t = found.bind Json.string? := by
  match found, h with
  | none, h => exact h
  | some .null, h => exact h
  | some (.string _), ⟨_, hs, ht⟩ => rw [ht, ← Except.ok.inj hs]; rfl
  | some (.number _), ⟨_, hs, _⟩ => nomatch text_ok hs
  | some (.bool _), ⟨_, hs, _⟩ => nomatch hs
  | some (.array _), ⟨_, hs, _⟩ => nomatch hs
  | some (.object _), ⟨_, hs, _⟩ => nomatch hs

/-! ## One slot of a record

The step of a record is a function of what it holds, the name of a member and its value. A slot is a
projection of what it holds. -/

section Slots

variable {put : β → String → Reading → Except Mismatch β} {name : String} {d : Decoder α}
  {slot : β → Option α}

/-- A step of a record fills a slot from members of one name, once, and leaves it alone at members
of another name. -/
structure Fills (put : β → String → Reading → Except Mismatch β) (name : String) (d : Decoder α)
    (slot : β → Option α) : Prop where
  filled : ∀ {s : β} {r : Reading} {s' : β}, put s name r = .ok s' →
    slot s = none ∧ ∃ a, d r = .ok a ∧ slot s' = some a
  accepted : ∀ {s : β} {r : Reading} {a : α}, slot s = none → d r = .ok a →
    ∃ s', put s name r = .ok s'
  kept : ∀ {s : β} {other : String} {r : Reading} {s' : β}, other ≠ name →
    put s other r = .ok s' → slot s' = slot s

/-- A step that sets a slot to what `fill` makes of it. -/
theorem Fills.of_set {set : β → Option α → β}
    (hput : ∀ s r, put s name r = fill name (slot s) d r >>= fun filled => pure (set s filled))
    (hset : ∀ s filled, slot (set s filled) = filled)
    (hkept : ∀ {s : β} {other : String} {r : Reading} {s' : β}, other ≠ name →
      put s other r = .ok s' → slot s' = slot s) : Fills put name d slot where
  filled h := by
    rw [hput] at h
    obtain ⟨filled, hfill, h⟩ := exists_of_bind_ok h
    rw [← Except.ok.inj h, hset]
    exact fill_ok hfill
  accepted hfree ha := by
    rw [hput, hfree, fill_free ha]
    exact ⟨_, rfl⟩
  kept := hkept

/-- A record of one field is its slot. -/
theorem fills_single {put : Option α → String → Reading → Except Mismatch (Option α)}
    (hput : ∀ s field r, put s field r = if field = name then fill field s d r else do
      skip r
      return s) : Fills put name d id where
  filled h := by
    rw [hput, if_pos rfl] at h
    exact fill_ok h
  accepted {s r a} hfree ha := by
    have hs : s = none := hfree
    rw [hput, if_pos rfl, hs, fill_free ha]
    exact ⟨_, rfl⟩
  kept hne h := by
    rw [hput, if_neg hne] at h
    obtain ⟨_, -, h⟩ := exists_of_bind_ok h
    rw [← Except.ok.inj h]

theorem members_cons_ok {s s' : β} {m : String × Json} {ms : List (String × Json)}
    (h : members put s (Reading.ofMembers (m :: ms)) = .ok s') :
    ∃ mid, put s m.1 (.ofJson m.2) = .ok mid ∧ members put mid (Reading.ofMembers ms) = .ok s' :=
  exists_of_bind_ok h

/-- **A slot holds what can be looked up under its name.** Were there a second member of the name,
the object would have been refused. -/
theorem Fills.members (h : Fills put name d slot) {ms : List (String × Json)} {s s' : β}
    (hok : members put s (Reading.ofMembers ms) = .ok s') :
    (ms.lookup name = none ∧ slot s' = slot s) ∨ slot s = none ∧
      ∃ j a, ms.lookup name = some j ∧ d (.ofJson j) = .ok a ∧ slot s' = some a := by
  induction ms generalizing s with
  | nil =>
    rw [← Except.ok.inj hok]
    exact Or.inl ⟨rfl, rfl⟩
  | cons m rest ih =>
    obtain ⟨mid, hput, hrest⟩ := members_cons_ok hok
    rw [Json.lookup_cons_eq]
    by_cases hname : name = m.1
    · rw [if_pos hname]
      rw [← hname] at hput
      obtain ⟨hfree, a, ha, hmid⟩ := h.filled hput
      refine Or.inr ⟨hfree, m.2, a, rfl, ha, ?_⟩
      rcases ih hrest with ⟨-, hslot⟩ | ⟨hnone, -⟩
      · rw [hslot, hmid]
      · exact absurd (hmid.symm.trans hnone) (by simp)
    · rw [if_neg hname]
      rw [← h.kept (Ne.symm hname) hput]
      exact ih hrest

theorem Fills.lookup (h : Fills put name d slot) {ms : List (String × Json)} {s s' : β} {a : α}
    (hok : Decoder.members put s (Reading.ofMembers ms) = .ok s') (hfree : slot s = none)
    (ha : slot s' = some a) : ∃ j, ms.lookup name = some j ∧ d (.ofJson j) = .ok a := by
  rcases h.members hok with ⟨-, hslot⟩ | ⟨-, j, b, hj, hb, hslot⟩
  · exact absurd (ha.symm.trans (hslot.trans hfree)) (by simp)
  · rw [Option.some.inj (ha.symm.trans hslot)]
    exact ⟨j, hj, hb⟩

/-- A slot of a field that may be left out. -/
theorem Fills.holds {slot : β → Option (Option α)} (h : Fills put name (optional d) slot)
    {ms : List (String × Json)} {s s' : β}
    (hok : Decoder.members put s (Reading.ofMembers ms) = .ok s') (hfree : slot s = none) :
    d.Holds (ms.lookup name) (slot s').join := by
  rcases h.members hok with ⟨hnone, hslot⟩ | ⟨-, j, a, hj, ha, hslot⟩
  · rw [hnone, hslot, hfree]
    rfl
  · rw [hj, hslot]
    exact holds_of_optional_ok ha

/-- The record can take a member: whatever members of other names come before. -/
def Awaits (put : β → String → Reading → Except Mismatch β) (name : String) (r : Reading)
    (s : β) : Prop :=
  ∃ ready : β → Prop, ready s ∧ (∀ s, ready s → ∃ s', put s name r = .ok s') ∧
    ∀ s other r' s', other ≠ name → ready s → put s other r' = .ok s' → ready s'

/-- An empty slot waits for what its decoder reads: no member of another name fills it. -/
theorem Fills.awaits (h : Fills put name d slot) {s : β} {r : Reading} {a : α}
    (hfree : slot s = none) (ha : d r = .ok a) : Awaits put name r s :=
  ⟨fun s => slot s = none, hfree, fun _ hs => h.accepted hs ha,
    fun _ _ _ _ hne hs hput => (h.kept hne hput).trans hs⟩

/-- An object is read to its end if the record can take each member that has a field, and any member
that has none. -/
theorem exists_members_of_takes (names : List String) {ms : List (String × Json)}
    (hother : ∀ s other j, other ∉ names → ∃ s', put s other (.ofJson j) = .ok s')
    (hnodup : (ms.map Prod.fst).Nodup) {s : β}
    (htake : ∀ name ∈ names, ∀ j, ms.lookup name = some j → Awaits put name (.ofJson j) s) :
    ∃ s', Decoder.members put s (Reading.ofMembers ms) = .ok s' := by
  induction ms generalizing s with
  | nil => exact ⟨s, rfl⟩
  | cons m rest ih =>
    rw [List.map_cons, List.nodup_cons] at hnodup
    have hrest : ∀ {name j}, rest.lookup name = some j →
        name ≠ m.1 ∧ (m :: rest).lookup name = some j := by
      intro name j hj
      have hne : name ≠ m.1 := by
        intro heq
        rw [heq] at hj
        exact hnodup.1 (List.mem_map.mpr ⟨_, Json.mem_of_lookup hj, rfl⟩)
      rw [Json.lookup_cons_eq, if_neg hne]
      exact ⟨hne, hj⟩
    obtain ⟨mid, hmid⟩ : ∃ mid, put s m.1 (.ofJson m.2) = .ok mid := by
      by_cases hname : m.1 ∈ names
      · have hfirst : (m :: rest).lookup m.1 = some m.2 := by
          rw [Json.lookup_cons_eq, if_pos rfl]
        obtain ⟨ready, hready, htaken, -⟩ := htake m.1 hname m.2 hfirst
        exact htaken s hready
      · exact hother s m.1 m.2 hname
    -- No name comes twice, so the first member leaves open what the others need.
    have hawaits : ∀ name ∈ names, ∀ j, rest.lookup name = some j →
        Awaits put name (.ofJson j) mid := by
      intro name hname j hj
      obtain ⟨hne, hj⟩ := hrest hj
      obtain ⟨ready, hready, htaken, hstays⟩ := htake name hname j hj
      exact ⟨ready, hstays s m.1 _ mid (Ne.symm hne) hready hmid, htaken, hstays⟩
    obtain ⟨s', hs'⟩ := ih hnodup.2 hawaits
    refine ⟨s', ?_⟩
    show put s m.1 (.ofJson m.2) >>= _ = _
    rw [hmid]
    exact hs'

/-- **An object is read to its end if the record can take each member that has a field.** -/
theorem exists_members (names : List String) {ms : List (String × Json)}
    (hskip : ∀ s other j, other ∉ names → put s other (.ofJson j) = .ok s)
    (hnodup : (ms.map Prod.fst).Nodup) {s : β}
    (htake : ∀ name ∈ names, ∀ j, ms.lookup name = some j → Awaits put name (.ofJson j) s) :
    ∃ s', Decoder.members put s (Reading.ofMembers ms) = .ok s' :=
  exists_members_of_takes names (fun s other j h => ⟨s, hskip s other j h⟩) hnodup htake

theorem Fills.slot_eq (h : Fills put name d slot) {ms : List (String × Json)} {s s' : β}
    (hok : Decoder.members put s (Reading.ofMembers ms) = .ok s') {j : Json} {a : α}
    (hj : ms.lookup name = some j) (ha : d (.ofJson j) = .ok a) : slot s' = some a := by
  rcases h.members hok with ⟨hnone, -⟩ | ⟨-, j', b, hj', hb, hslot⟩
  · nomatch hj.symm.trans hnone
  · obtain rfl := Option.some.inj (hj.symm.trans hj')
    rw [hslot, Except.ok.inj (ha.symm.trans hb)]

end Slots

/-! ## What has no slot

Members that have no slot are inserted where their names belong, so that what is kept is sorted. A
name that comes twice is kept once, as its later value. -/

section Extras

variable {put : β → String → Reading → Except Mismatch β} {known : List String}
  {extra : β → List (String × Json)}

/-- A step of a record keeps, sorted by name, every member that has no slot. -/
structure Gathers (put : β → String → Reading → Except Mismatch β) (known : List String)
    (extra : β → List (String × Json)) : Prop where
  kept : ∀ {s : β} {name : String} {r : Reading} {s' : β}, name ∈ known →
    put s name r = .ok s' → extra s' = extra s
  gathered : ∀ {s : β} {name : String} {r : Reading} {s' : β}, name ∉ known →
    put s name r = .ok s' →
    ∃ value, json r = .ok value ∧ extra s' = Json.insertSorted name value (extra s)

theorem Gathers.sorted (h : Gathers put known extra) {ms : List (String × Json)} {s s' : β}
    (hok : members put s (Reading.ofMembers ms) = .ok s') (hs : Json.Sorted (extra s)) :
    Json.Sorted (extra s') := by
  induction ms generalizing s with
  | nil =>
    rw [← Except.ok.inj hok]
    exact hs
  | cons m rest ih =>
    obtain ⟨mid, hput, hrest⟩ := members_cons_ok hok
    apply ih hrest
    by_cases hknown : m.1 ∈ known
    · rw [h.kept hknown hput]
      exact hs
    · obtain ⟨value, -, hextra⟩ := h.gathered hknown hput
      rw [hextra]
      exact hs.insertSorted _ _

/-- What is kept is the canonical form of a member, however often names are repeated. -/
theorem Gathers.mem (h : Gathers put known extra) {ms : List (String × Json)} {s s' : β}
    (hok : Decoder.members put s (Reading.ofMembers ms) = .ok s')
    (hsingle : Reading.noSingleMembers (Reading.ofMembers ms) = true) {e : String × Json}
    (he : e ∈ extra s') :
    e ∈ extra s ∨ e.1 ∉ known ∧ ∃ value, (e.1, value) ∈ ms ∧ e.2 = value.canonical := by
  induction ms generalizing s with
  | nil =>
    rw [← Except.ok.inj hok] at he
    exact Or.inl he
  | cons m rest ih =>
    obtain ⟨mid, hput, hrest⟩ := members_cons_ok hok
    rw [Reading.ofMembers, Reading.noSingleMembers, Bool.and_eq_true] at hsingle
    rcases ih hrest hsingle.2 with hmid | ⟨hknown, value, hvalue, heq⟩
    · by_cases hknown : m.1 ∈ known
      · rw [h.kept hknown hput] at hmid
        exact Or.inl hmid
      · obtain ⟨value, hvalue, hextra⟩ := h.gathered hknown hput
        rw [json, Reading.toJson?_ofJson m.2 hsingle.1] at hvalue
        rw [hextra] at hmid
        rcases Json.mem_insertSorted hmid with rfl | hmid
        · exact Or.inr ⟨hknown, m.2, List.mem_cons_self, (Except.ok.inj hvalue).symm⟩
        · exact Or.inl hmid
    · exact Or.inr ⟨hknown, value, List.mem_cons_of_mem _ hvalue, heq⟩

/-- **Every member without a slot is kept**, and no other. -/
theorem Gathers.members (h : Gathers put known extra) {ms : List (String × Json)} {s s' : β}
    (hok : Decoder.members put s (Reading.ofMembers ms) = .ok s')
    (hsingle : Reading.noSingleMembers (Reading.ofMembers ms) = true)
    (hnodup : (ms.map Prod.fst).Nodup) (name : String) :
    (extra s').lookup name
      = if name ∈ known then (extra s).lookup name
        else ((ms.lookup name).map Json.canonical).or ((extra s).lookup name) := by
  induction ms generalizing s with
  | nil =>
    rw [← Except.ok.inj hok]
    split <;> rfl
  | cons m rest ih =>
    obtain ⟨mid, hput, hrest⟩ := members_cons_ok hok
    rw [List.map_cons, List.nodup_cons] at hnodup
    rw [Reading.ofMembers, Reading.noSingleMembers, Bool.and_eq_true] at hsingle
    rw [ih hrest hsingle.2 hnodup.2, Json.lookup_cons_eq]
    by_cases hknown : m.1 ∈ known
    · rw [h.kept hknown hput]
      by_cases hname : name ∈ known
      · rw [if_pos hname, if_pos hname]
      · rw [if_neg hname, if_neg hname, if_neg fun heq : name = m.1 => hname (heq ▸ hknown)]
    · obtain ⟨value, hvalue, hextra⟩ := h.gathered hknown hput
      rw [json, Reading.toJson?_ofJson m.2 hsingle.1] at hvalue
      -- The member is found under its own name. No later one has this name, so that it stays.
      rw [hextra, Json.lookup_insertSorted, ← Except.ok.inj hvalue]
      by_cases heq : name = m.1
      · subst heq
        rw [if_neg hknown, if_neg hknown, if_pos rfl, if_pos rfl,
          Json.lookup_eq_none hnodup.1]
        rfl
      · rw [if_neg heq, if_neg heq]

end Extras

/-! ## Tagged records

A tagged record says by its `type` which record it is. The tag is looked for first and the other
members are put by, and then the record is read from them as if the tag had never been there. -/

/-- Behind the tag, the other members are put by in their order. -/
theorem tagMembers_of_notMem (t : Tags) (tag : Option String)
    (others : List (Option String × Reading)) {ms : List (String × Json)}
    (h : "type" ∉ ms.map Prod.fst) :
    tagMembers t tag others (Reading.ofMembers ms)
      = (need "type" tag).map fun tag =>
          (tag, .object (others.reverse ++ Reading.ofMembers ms)) := by
  induction ms generalizing others with
  | nil => rw [Reading.ofMembers, List.append_nil]; rfl
  | cons m rest ih =>
    obtain ⟨name, value⟩ := m
    rw [List.map_cons, List.mem_cons, not_or] at h
    rw [Reading.ofMembers, tagMembers]
    · rw [Reading.isNone_toJson?_ofJson, if_neg Bool.false_ne_true, ih _ h.2]
      simp
    · intro heq
      exact h.1 heq.symm

/-- **The tag may stand anywhere.** What is left once it is read is the object without it. -/
theorem tagMembers_ofMembers (t : Tags) (others : List (Option String × Reading))
    {ms : List (String × Json)} {found : Json} (hnodup : (ms.map Prod.fst).Nodup)
    (h : ms.lookup "type" = some found) :
    tagMembers t none others (Reading.ofMembers ms)
      = (t.read (.ofJson found)).map fun tag =>
          (tag, .object (others.reverse ++ Reading.ofMembers (Json.eraseMember "type" ms))) := by
  induction ms generalizing others with
  | nil => nomatch h
  | cons m rest ih =>
    obtain ⟨name, value⟩ := m
    rw [List.map_cons, List.nodup_cons] at hnodup
    rw [Json.lookup_cons_eq] at h
    by_cases hname : "type" = name
    · subst hname
      rw [if_pos rfl] at h
      rw [Json.eraseMember_cons_self hnodup.1, Reading.ofMembers, tagMembers, ← Option.some.inj h]
      cases t.read (.ofJson value) with
      | error m => rfl
      | ok tag => exact tagMembers_of_notMem t (some tag) others hnodup.1
    · rw [if_neg hname] at h
      rw [Json.eraseMember_cons_of_ne (Ne.symm hname), Reading.ofMembers, tagMembers]
      · rw [Reading.isNone_toJson?_ofJson, if_neg Bool.false_ne_true, ih _ hnodup.2 h]
        simp [Reading.ofMembers]
      · intro heq
        exact hname heq.symm

variable {t : Tags} {body : String → Decoder α} {ms : List (String × Json)}

/-- **A tagged object is read by the record that its tag names**, from the object without the
tag. -/
theorem tagged_object {found : Json} (hnodup : (ms.map Prod.fst).Nodup)
    (h : ms.lookup "type" = some found) :
    tagged t body (.ofJson (.object ms))
      = t.read (.ofJson found) >>= fun tag =>
          (body tag (.ofJson (.object (Json.eraseMember "type" ms)))).mapError
            Mismatch.settled := by
  show tagMembers t none [] (Reading.ofMembers ms) >>= _ = _
  rw [tagMembers_ofMembers t [] hnodup h]
  cases t.read (.ofJson found) <;> rfl

end ModelRelay.Decoder
