import ModelRelay.Json.Basic
import Mathlib.Data.List.Induction
import Mathlib.Data.List.Nodup
import Mathlib.Data.String.Basic

/-!
# Canonical values

A canonical value holds the members of every object sorted by name, each name once. Sorting keeps
what can be looked up, the last of several members of one name standing for all of them, and **a
canonical value is its own canonical form** (`canonical_canonical`), however deep its objects are
nested. So a value may be read, kept, and written into a larger value that is made canonical again,
and still be the value that was read.

Sorting is by insertion, one member at a time and from the front. It is looked at through two facts
only: what is found under a name after an insertion (`lookup_insertSorted`), and that sorted members
are determined by what is found under each name (`Sorted.ext`). Nothing else is proved about where a
member comes to stand.

The last part is about values that repeat no name at any depth. For them it does not matter which of
two members is searched first, and what is found in a value is found in its canonical form too.
-/

set_option autoImplicit false

namespace ModelRelay.Json

variable {α : Type}

/-! ## Sorted members

Lists of members are searched from the front. What is proved of sorting and of inserting holds for
values of any type. -/

/-- Sorted by name, and so each name once. -/
def Sorted (members : List (String × α)) : Prop :=
  members.Pairwise fun a b => a.1 < b.1

theorem Sorted.nodup {members : List (String × α)} (h : Sorted members) :
    (members.map Prod.fst).Nodup := by
  rw [List.Nodup, List.pairwise_map]
  exact h.imp fun hlt => ne_of_lt hlt

theorem mem_insertSorted {name : String} {value : α} {m : String × α}
    {members : List (String × α)} (h : m ∈ insertSorted name value members) :
    m = (name, value) ∨ m ∈ members := by
  induction members with
  | nil => simpa [insertSorted] using h
  | cons head rest ih =>
    obtain ⟨other, held⟩ := head
    rw [insertSorted] at h
    split_ifs at h with hlt heq
    · exact List.mem_cons.mp h
    · rcases List.mem_cons.mp h with h | h
      · exact Or.inl h
      · exact Or.inr (List.mem_cons_of_mem _ h)
    · rcases List.mem_cons.mp h with h | h
      · exact Or.inr (h ▸ List.mem_cons_self)
      · exact (ih h).imp_right (List.mem_cons_of_mem _)

theorem lookup_cons_eq (name : String) (m : String × α) (members : List (String × α)) :
    (m :: members).lookup name = if name = m.1 then some m.2 else members.lookup name := by
  rw [List.lookup_cons]
  by_cases h : name = m.1
  · rw [if_pos h, h, beq_self_eq_true]
  · rw [if_neg h, beq_false_of_ne h]

theorem lookup_eq_none {name : String} {members : List (String × α)}
    (h : name ∉ members.map Prod.fst) : members.lookup name = none := by
  rw [List.lookup_eq_none_iff]
  intro m hm
  refine bne_iff_ne.mpr fun heq => h ?_
  rw [heq]
  exact List.mem_map.mpr ⟨m, hm, rfl⟩

theorem notMem_of_lookup {name : String} {members : List (String × α)}
    (h : members.lookup name = none) : name ∉ members.map Prod.fst := by
  intro hmem
  obtain ⟨m, hm, hname⟩ := List.mem_map.mp hmem
  rw [List.lookup_eq_none_iff] at h
  exact bne_iff_ne.mp (h m hm) hname.symm

theorem mem_of_lookup {name : String} {value : α} {members : List (String × α)}
    (h : members.lookup name = some value) : (name, value) ∈ members := by
  obtain ⟨before, after, rfl, -⟩ := List.lookup_eq_some_iff.mp h
  exact List.mem_append_right _ List.mem_cons_self

/-- No order is asked of the members: where the name is found it is replaced, and where it is put
it comes before any other of its name. -/
theorem lookup_insertSorted (name other : String) (value : α) (members : List (String × α)) :
    (insertSorted name value members).lookup other
      = if other = name then some value else members.lookup other := by
  induction members with
  | nil => exact lookup_cons_eq other (name, value) []
  | cons head rest ih =>
    obtain ⟨first, held⟩ := head
    rw [insertSorted]
    by_cases hlt : name < first
    · rw [if_pos hlt, lookup_cons_eq]
    · by_cases heq : name = first
      · subst heq
        rw [if_neg hlt, if_pos rfl, lookup_cons_eq, lookup_cons_eq]
        by_cases h : other = name <;> simp [h]
      · rw [if_neg hlt, if_neg heq, lookup_cons_eq, lookup_cons_eq, ih]
        by_cases h : other = name
        · subst h
          simp [heq]
        · simp [h]

theorem Sorted.insertSorted {members : List (String × α)} (h : Sorted members) (name : String)
    (value : α) : Sorted (insertSorted name value members) := by
  induction members with
  | nil => exact List.pairwise_singleton _ _
  | cons head rest ih =>
    obtain ⟨other, held⟩ := head
    obtain ⟨hhead, hrest⟩ := List.pairwise_cons.mp h
    rw [Json.insertSorted]
    split_ifs with hlt heq
    · refine List.pairwise_cons.mpr ⟨fun m hm => ?_, h⟩
      rcases List.mem_cons.mp hm with rfl | hm
      · exact hlt
      · exact lt_trans hlt (hhead m hm)
    · subst heq
      exact List.pairwise_cons.mpr ⟨hhead, hrest⟩
    · refine List.pairwise_cons.mpr ⟨fun m hm => ?_, ih hrest⟩
      rcases mem_insertSorted hm with rfl | hm
      · exact lt_of_le_of_ne (not_lt.mp hlt) (Ne.symm heq)
      · exact hhead m hm

/-- A name behind all others is put at the end. -/
theorem insertSorted_of_lt {name : String} {value : α} {members : List (String × α)}
    (h : ∀ m ∈ members, m.1 < name) :
    insertSorted name value members = members ++ [(name, value)] := by
  induction members with
  | nil => rfl
  | cons head rest ih =>
    obtain ⟨other, held⟩ := head
    have hlt : other < name := h _ List.mem_cons_self
    rw [insertSorted, if_neg (not_lt.mpr (le_of_lt hlt)), if_neg (ne_of_gt hlt),
      ih fun m hm => h m (List.mem_cons_of_mem _ hm)]
    rfl

/-! ## Sorting

Members are inserted in their order, so that a later one replaces an earlier one of its name. -/

theorem sortMembers_concat (members : List (String × α)) (m : String × α) :
    sortMembers (members ++ [m]) = insertSorted m.1 m.2 (sortMembers members) := by
  rw [sortMembers, List.foldl_append]
  rfl

theorem mem_sortMembers {m : String × α} {members : List (String × α)}
    (h : m ∈ sortMembers members) : m ∈ members := by
  induction members using List.reverseRecOn with
  | nil => exact h
  | append_singleton members last ih =>
    rw [sortMembers_concat] at h
    rcases mem_insertSorted h with rfl | h
    · exact List.mem_append_right _ (List.mem_singleton_self _)
    · exact List.mem_append_left _ (ih h)

theorem sorted_sortMembers (members : List (String × α)) : Sorted (sortMembers members) := by
  induction members using List.reverseRecOn with
  | nil => exact List.Pairwise.nil
  | append_singleton members last ih =>
    rw [sortMembers_concat]
    exact ih.insertSorted _ _

/-- Of several members with one name the last one stays. -/
theorem lookup_sortMembers (name : String) (members : List (String × α)) :
    (sortMembers members).lookup name = members.reverse.lookup name := by
  induction members using List.reverseRecOn with
  | nil => rfl
  | append_singleton members last ih =>
    obtain ⟨other, value⟩ := last
    rw [sortMembers_concat, lookup_insertSorted, List.reverse_append, List.reverse_singleton,
      List.singleton_append, lookup_cons_eq, ih]

/-- Where no name is repeated, either end of the list may be searched first. -/
theorem lookup_reverse {members : List (String × α)} (h : (members.map Prod.fst).Nodup)
    (name : String) : members.reverse.lookup name = members.lookup name := by
  induction members with
  | nil => rfl
  | cons head rest ih =>
    obtain ⟨other, value⟩ := head
    rw [List.map_cons, List.nodup_cons] at h
    rw [List.reverse_cons, List.lookup_append, ih h.2, lookup_cons_eq, lookup_cons_eq]
    by_cases hname : name = other
    · rw [lookup_eq_none (hname ▸ h.1), if_pos hname, if_pos hname, Option.none_or]
    · rw [if_neg hname, if_neg hname, List.lookup_nil, Option.or_none]

theorem lookup_sortMembers_of_nodup {members : List (String × α)}
    (h : (members.map Prod.fst).Nodup) (name : String) :
    (sortMembers members).lookup name = members.lookup name := by
  rw [lookup_sortMembers, lookup_reverse h]

/-- What is sorted already stays as it is. -/
theorem Sorted.sortMembers {members : List (String × α)} (h : Sorted members) :
    sortMembers members = members := by
  induction members using List.reverseRecOn with
  | nil => rfl
  | append_singleton members last ih =>
    obtain ⟨hmembers, -, hlast⟩ := List.pairwise_append.mp h
    rw [sortMembers_concat, ih hmembers]
    exact insertSorted_of_lt fun m hm => hlast m hm last (List.mem_singleton_self _)

/-- Sorted members are known by what can be looked up in them. The first members of two such lists
must agree, for the smaller of their names would be found in one list only. -/
theorem Sorted.ext {members others : List (String × α)} (h : Sorted members) (ho : Sorted others)
    (hlookup : ∀ name, members.lookup name = others.lookup name) : members = others := by
  -- Behind the first of two lists, no name is as small as its own.
  have hnone : ∀ {name : String} {rest : List (String × α)}, (∀ m ∈ rest, name < m.1) →
      rest.lookup name = none := by
    intro name rest hlt
    refine lookup_eq_none fun hmem => ?_
    obtain ⟨m, hm, heq⟩ := List.mem_map.mp hmem
    exact absurd heq (ne_of_gt (hlt m hm))
  induction members generalizing others with
  | nil =>
    cases others with
    | nil => rfl
    | cons o rest =>
      have hhead := hlookup o.1
      rw [lookup_cons_eq, if_pos rfl] at hhead
      nomatch hhead
  | cons m rest ih =>
    obtain ⟨hm, hrest⟩ := List.pairwise_cons.mp h
    cases others with
    | nil =>
      have hhead := hlookup m.1
      rw [lookup_cons_eq, if_pos rfl] at hhead
      nomatch hhead
    | cons o others =>
      obtain ⟨ho, hothers⟩ := List.pairwise_cons.mp ho
      have hname : m.1 = o.1 := by
        rcases lt_trichotomy m.1 o.1 with hlt | heq | hlt
        · have hhead := hlookup m.1
          rw [lookup_cons_eq, if_pos rfl, lookup_cons_eq, if_neg (ne_of_lt hlt),
            hnone fun x hx => lt_trans hlt (ho x hx)] at hhead
          nomatch hhead
        · exact heq
        · have hhead := hlookup o.1
          rw [lookup_cons_eq, if_neg (ne_of_lt hlt), hnone fun x hx => lt_trans hlt (hm x hx),
            lookup_cons_eq, if_pos rfl] at hhead
          nomatch hhead
      have hvalue : m.2 = o.2 := by
        have hhead := hlookup m.1
        rw [lookup_cons_eq, if_pos rfl, lookup_cons_eq, if_pos hname] at hhead
        exact Option.some.inj hhead
      have htail : rest = others := by
        refine ih hrest hothers fun name => ?_
        by_cases heq : name = m.1
        · rw [heq, hnone hm, hname, hnone ho]
        · have hother := hlookup name
          rwa [lookup_cons_eq, if_neg heq, lookup_cons_eq, if_neg (hname ▸ heq)] at hother
      rw [htail, Prod.ext hname hvalue]
/-! ## Canonical values

The canonical form is taken from the inside out, and it widens singles. Then come the changes that
the relay makes to an object before it is sent: a member is erased, replaced, or left out as
missing. -/

theorem canonicalItems_eq_map (items : List Json) : canonicalItems items = items.map canonical := by
  induction items with
  | nil => rfl
  | cons item rest ih => rw [canonicalItems, ih, List.map_cons]

theorem canonicalMembers_eq_map (members : List (String × Json)) :
    canonicalMembers members = members.map fun m => (m.1, m.2.canonical) := by
  induction members with
  | nil => rfl
  | cons m rest ih => rw [canonicalMembers, ih, List.map_cons]

theorem eq_string_of_canonical {j : Json} {s : String} (h : j.canonical = .string s) :
    j = .string s := by
  cases j with
  | string t => exact h
  | null | bool _ | number n | array _ | object _ => nomatch h

theorem canonical_array (items : List Json) :
    (array items).canonical = array (items.map canonical) := by
  rw [canonical, canonicalItems_eq_map]

theorem canonical_object (members : List (String × Json)) :
    (object members).canonical
      = object (sortMembers (members.map fun m => (m.1, m.2.canonical))) := by
  rw [canonical, canonicalMembers_eq_map]

/-- Where values are changed one by one, the changed value is found. -/
theorem lookup_map_values (f : Json → Json) (name : String) (members : List (String × Json)) :
    (members.map fun m => (m.1, f m.2)).lookup name = (members.lookup name).map f := by
  induction members with
  | nil => rfl
  | cons m rest ih =>
    rw [List.map_cons, List.lookup_cons, List.lookup_cons, ih]
    cases name == m.1 <;> rfl

/-- Erasing leaves every other name alone. -/
theorem lookup_eraseMember (name other : String) (members : List (String × α)) :
    (eraseMember name members).lookup other
      = if other = name then none else members.lookup other := by
  induction members with
  | nil => simp [eraseMember]
  | cons m rest ih =>
    rw [eraseMember] at ih ⊢
    rw [lookup_cons_eq, List.filter_cons]
    by_cases hm : m.1 = name
    · rw [if_neg (by simp [hm]), ih]
      by_cases h : other = name
      · rw [if_pos h, if_pos h]
      · rw [if_neg h, if_neg h, if_neg fun heq => h (heq.trans hm)]
    · rw [if_pos (bne_iff_ne.mpr hm), lookup_cons_eq, ih]
      by_cases h : other = name
      · rw [if_pos h, if_pos h, if_neg fun heq => hm (heq.symm.trans h)]
      · rw [if_neg h, if_neg h]

theorem eraseMember_of_notMem {name : String} {members : List (String × α)}
    (h : name ∉ members.map Prod.fst) : eraseMember name members = members := by
  refine List.filter_eq_self.mpr fun m hm => bne_iff_ne.mpr fun heq => h ?_
  exact List.mem_map.mpr ⟨m, hm, heq⟩

theorem eraseMember_cons_self {name : String} {members : List (String × α)}
    (h : name ∉ members.map Prod.fst) (value : α) :
    eraseMember name ((name, value) :: members) = members := by
  rw [eraseMember, List.filter_cons, if_neg (by simp)]
  exact eraseMember_of_notMem h

theorem eraseMember_cons_of_ne {name other : String} (h : other ≠ name) (value : α)
    (members : List (String × α)) :
    eraseMember name ((other, value) :: members) = (other, value) :: eraseMember name members := by
  rw [eraseMember, List.filter_cons, if_pos (bne_iff_ne.mpr h)]
  rfl

theorem nodup_eraseMember {members : List (String × α)} (h : (members.map Prod.fst).Nodup)
    (name : String) : ((eraseMember name members).map Prod.fst).Nodup :=
  h.sublist (List.filter_sublist.map _)

/-- Replacing leaves every other name alone. -/
theorem lookup_setMember (name other : String) (value : α) (members : List (String × α)) :
    (setMember name value members).lookup other
      = if other = name then some value else members.lookup other := by
  induction members with
  | nil => rw [setMember, lookup_cons_eq]
  | cons m rest ih =>
    obtain ⟨first, held⟩ := m
    rw [setMember]
    by_cases hfirst : first = name
    · rw [if_pos hfirst, lookup_cons_eq, lookup_cons_eq, hfirst]
      by_cases h : other = name
      · rw [if_pos h, if_pos h]
      · rw [if_neg h, if_neg h, if_neg h]
    · rw [if_neg hfirst, lookup_cons_eq, lookup_cons_eq, ih]
      by_cases h : other = name
      · rw [if_pos h, if_pos h, if_neg fun heq => hfirst (heq.symm.trans h)]
      · rw [if_neg h, if_neg h]

theorem mem_names_setMember {name other : String} {value : α} {members : List (String × α)}
    (h : other ∈ (setMember name value members).map Prod.fst) :
    other = name ∨ other ∈ members.map Prod.fst := by
  by_contra hnot
  rw [not_or] at hnot
  refine notMem_of_lookup ?_ h
  rw [lookup_setMember, if_neg hnot.1, lookup_eq_none hnot.2]

/-- Replacing repeats no name: only the first member of the name is kept, with its new value. -/
theorem nodup_setMember {members : List (String × α)} (h : (members.map Prod.fst).Nodup)
    (name : String) (value : α) : ((setMember name value members).map Prod.fst).Nodup := by
  induction members with
  | nil => exact List.nodup_singleton name
  | cons m rest ih =>
    obtain ⟨first, held⟩ := m
    rw [List.map_cons, List.nodup_cons] at h
    rw [setMember]
    by_cases hfirst : first = name
    · rw [if_pos hfirst]
      exact List.nodup_cons.mpr ⟨hfirst ▸ h.1, h.2⟩
    · rw [if_neg hfirst]
      refine List.nodup_cons.mpr ⟨fun hmem => ?_, ih h.2⟩
      rcases mem_names_setMember hmem with hname | hrest
      · exact hfirst hname
      · exact h.1 hrest

/-- A member that may be missing is found if it is there, where no name is listed twice. -/
theorem get?_ofMembers {members : List (String × Option Json)} (h : (members.map Prod.fst).Nodup)
    (name : String) : (ofMembers members).get? name = (members.lookup name).join := by
  rw [ofMembers, get?]
  induction members with
  | nil => rfl
  | cons m rest ih =>
    obtain ⟨first, value⟩ := m
    rw [List.map_cons, List.nodup_cons] at h
    rw [lookup_cons_eq, List.filterMap_cons]
    cases value with
    | some value =>
      simp only [Option.map_some]
      rw [lookup_cons_eq, ih h.2]
      split <;> rfl
    | none =>
      simp only [Option.map_none]
      rw [ih h.2]
      split
      · rename_i heq
        rw [lookup_eq_none (show name ∉ _ from heq ▸ h.1)]
        rfl
      · rfl

theorem names_ofMembers_sublist (members : List (String × Option Json)) :
    ((members.filterMap fun (name, value) => value.map (name, ·)).map Prod.fst).Sublist
      (members.map Prod.fst) := by
  induction members with
  | nil => exact List.Sublist.slnil
  | cons m rest ih =>
    obtain ⟨name, value⟩ := m
    cases value with
    | some value => exact ih.cons_cons name
    | none => exact ih.cons name

theorem sorted_of_canonical {j : Json} {members : List (String × Json)}
    (h : j.canonical = .object members) : Sorted members := by
  cases j with
  | object held => exact object.inj h ▸ sorted_sortMembers _
  | null | bool _ | number n | string s | array items => exact absurd h (by simp [canonical])

/-- A member of an object without repeated names is the same member of its canonical form. -/
theorem get?_canonical {members : List (String × Json)} (h : (members.map Prod.fst).Nodup)
    (name : String) :
    (object members).canonical.get? name = (members.lookup name).map canonical := by
  rw [canonical_object, get?, lookup_sortMembers_of_nodup, lookup_map_values]
  rwa [List.map_map]

theorem Number.widen_widen (n : Number) : n.widen.widen = n.widen := by
  cases n <;> rfl

theorem get?_canonical_ofMembers {members : List (String × Option Json)}
    (h : (members.map Prod.fst).Nodup) (name : String) :
    (ofMembers members).canonical.get? name = (members.lookup name).join.map canonical := by
  rw [← get?_ofMembers h, ofMembers, get?_canonical (h.sublist (names_ofMembers_sublist members))]
  rfl

mutual

/-- **A canonical value is its own canonical form.** -/
theorem canonical_canonical : ∀ j : Json, j.canonical.canonical = j.canonical
  | .null | .bool _ | .string _ => rfl
  | .number n => by rw [canonical, canonical, Number.widen_widen]
  | .array items => by
    rw [canonical, canonical, canonicalItems_eq_map (canonicalItems items)]
    rw [List.map_congr_left (canonical_of_mem_items items), List.map_id']
  | .object members => by
    rw [canonical, canonical, canonicalMembers_eq_map (sortMembers _)]
    -- Sorting only picks members, so all of them are canonical still.
    have hvalues : ∀ m ∈ sortMembers (canonicalMembers members), (m.1, m.2.canonical) = m :=
      fun m hm => by rw [canonical_of_mem_members members m (mem_sortMembers hm)]
    rw [List.map_congr_left hvalues, List.map_id', (sorted_sortMembers _).sortMembers]

theorem canonical_of_mem_items :
    ∀ items : List Json, ∀ j ∈ canonicalItems items, j.canonical = j
  | [], _, hj => absurd hj List.not_mem_nil
  | item :: rest, j, hj => by
    rcases List.mem_cons.mp hj with rfl | hj
    · exact canonical_canonical item
    · exact canonical_of_mem_items rest j hj

theorem canonical_of_mem_members :
    ∀ members : List (String × Json), ∀ m ∈ canonicalMembers members, m.2.canonical = m.2
  | [], _, hm => absurd hm List.not_mem_nil
  | (name, value) :: rest, m, hm => by
    rcases List.mem_cons.mp hm with rfl | hm
    · exact canonical_canonical value
    · exact canonical_of_mem_members rest m hm

end

/-! ## Values without repeated names

An object with two members of one name is read by no record, and means its last member. Values
without such objects are those that two readers cannot take for different things. -/

mutual

/-- No object within has two members of one name. -/
def isDistinct : Json → Bool
  | .array items => allDistinct items
  | .object members => decide (members.map Prod.fst).Nodup && allMembersDistinct members
  | .null | .bool _ | .number _ | .string _ => true

def allDistinct : List Json → Bool
  | [] => true
  | item :: rest => isDistinct item && allDistinct rest

def allMembersDistinct : List (String × Json) → Bool
  | [] => true
  | (_, value) :: rest => isDistinct value && allMembersDistinct rest

end

theorem allDistinct_eq_all (items : List Json) : allDistinct items = items.all isDistinct := by
  induction items with
  | nil => rfl
  | cons item rest ih => rw [allDistinct, ih, List.all_cons]

theorem allMembersDistinct_eq_all (members : List (String × Json)) :
    allMembersDistinct members = members.all fun m => isDistinct m.2 := by
  induction members with
  | nil => rfl
  | cons m rest ih => rw [allMembersDistinct, ih, List.all_cons]

theorem isDistinct_of_mem {items : List Json} (h : (array items).isDistinct = true) {item : Json}
    (hitem : item ∈ items) : item.isDistinct = true := by
  rw [isDistinct, allDistinct_eq_all] at h
  exact List.all_eq_true.mp h item hitem

theorem nodup_of_isDistinct {members : List (String × Json)}
    (h : (object members).isDistinct = true) : (members.map Prod.fst).Nodup := by
  rw [isDistinct, Bool.and_eq_true] at h
  exact of_decide_eq_true h.1

theorem isDistinct_of_lookup {members : List (String × Json)}
    (h : (object members).isDistinct = true) {name : String} {value : Json}
    (hvalue : members.lookup name = some value) : value.isDistinct = true := by
  rw [isDistinct, Bool.and_eq_true, allMembersDistinct_eq_all] at h
  exact List.all_eq_true.mp h.2 _ (mem_of_lookup hvalue)

end ModelRelay.Json
