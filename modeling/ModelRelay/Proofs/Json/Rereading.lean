import ModelRelay.Proofs.Json.Scanned

/-!
# Values that come back

**A value is read back from its text if and only if its numbers are** (`reread_eq_self_iff`). Whole
numbers always are, and of the fractions those that are the nearest double of what their digits say.
What the others come back as, a value stays one that a text can spell, and an object keeps its
names: under each stands what comes back of the member (`lookup_rereadOf`).

The condition on the numbers is not spelled out further here. Which doubles come back is a question
about the reader's arithmetic, and the answer is not all of them. What is shown instead is that the
rest does not depend on it: what comes back of a canonical value is canonical, whatever becomes of
its fractions (`canonical_reread`), and a value without fractions survives its text (`Survives`),
whatever strings it holds.

The proofs go down the value and its lists together, so that most statements come in threes: one for
a value, one for the items of an array and one for the members of an object.
-/

set_option autoImplicit false

namespace ModelRelay.Json

/-! ## Numbers within a value

The numbers are listed, so that one may ask something of each of them wherever it stands. -/

/-- Printing a number and reading the text gives the number back; of a single, the single that the
text is narrowed to. -/
def Number.ComesBack : Number → Prop
  | .single x => Decoder.single.ofText (Number.single x).print = .ok x
  | n => Json.ofText? n.print = some (.number n)

mutual

/-- The numbers within a value. -/
def numbers : Json → List Number
  | .number n => [n]
  | .array items => numbersOfItems items
  | .object members => numbersOfMembers members
  | .null | .bool _ | .string _ => []

def numbersOfItems : List Json → List Number
  | [] => []
  | item :: rest => numbers item ++ numbersOfItems rest

def numbersOfMembers : List (String × Json) → List Number
  | [] => []
  | (_, value) :: rest => numbers value ++ numbersOfMembers rest

end

theorem numbersOfItems_eq_flatMap (items : List Json) :
    numbersOfItems items = items.flatMap numbers := by
  induction items with
  | nil => rfl
  | cons item rest ih => rw [numbersOfItems, ih, List.flatMap_cons]

theorem numbersOfMembers_eq_flatMap (members : List (String × Json)) :
    numbersOfMembers members = members.flatMap fun m => numbers m.2 := by
  induction members with
  | nil => rfl
  | cons m rest ih => rw [numbersOfMembers, ih, List.flatMap_cons]

theorem numbers_of_mem {items : List Json} {item : Json} (hitem : item ∈ items) {n : Number}
    (hn : n ∈ item.numbers) : n ∈ (array items).numbers := by
  rw [numbers, numbersOfItems_eq_flatMap]
  exact List.mem_flatMap.mpr ⟨item, hitem, hn⟩

theorem numbers_of_mem_members {members : List (String × Option Json)} {name : String}
    {value : Json} (hvalue : (name, some value) ∈ members) {n : Number} (hn : n ∈ value.numbers) :
    n ∈ (ofMembers members).numbers := by
  rw [ofMembers, numbers, numbersOfMembers_eq_flatMap]
  exact List.mem_flatMap.mpr
    ⟨(name, value), List.mem_filterMap.mpr ⟨(name, some value), hvalue, rfl⟩, hn⟩

mutual

/-- **A value whose numbers come back is read back from its text.** -/
theorem reread_eq_self : ∀ {j : Json}, (Reading.ofJson j).noSingle = true →
    (∀ n ∈ j.numbers, n.ComesBack) → j.reread = j
  | .null, _, _ | .bool _, _, _ | .string _, _, _ => rfl
  | .number n, hsingle, h => by
    have hback := h n (List.mem_singleton_self n)
    cases n with
    | single x => exact absurd hsingle (by simp [Reading.ofJson, Reading.noSingle])
    | natural n => exact congrArg (Option.getD · Json.null) hback
    | negative n => exact congrArg (Option.getD · Json.null) hback
    | double x => exact congrArg (Option.getD · Json.null) hback
  | .array items, hsingle, h => by
    rw [reread, rereadItems_eq_self hsingle h]
  | .object members, hsingle, h => by
    rw [reread, rereadMembers_eq_self hsingle h]

theorem rereadItems_eq_self : ∀ {items : List Json},
    Reading.noSingles (Reading.ofItems items) = true →
    (∀ n ∈ numbersOfItems items, n.ComesBack) → rereadItems items = items
  | [], _, _ => rfl
  | item :: rest, hsingle, h => by
    rw [Reading.ofItems, Reading.noSingles, Bool.and_eq_true] at hsingle
    rw [rereadItems, reread_eq_self hsingle.1 fun n hn => h n (List.mem_append_left _ hn),
      rereadItems_eq_self hsingle.2 fun n hn => h n (List.mem_append_right _ hn)]

theorem rereadMembers_eq_self : ∀ {members : List (String × Json)},
    Reading.noSingleMembers (Reading.ofMembers members) = true →
    (∀ n ∈ numbersOfMembers members, n.ComesBack) → rereadMembers members = members
  | [], _, _ => rfl
  | (_, value) :: rest, hsingle, h => by
    rw [Reading.ofMembers, Reading.noSingleMembers, Bool.and_eq_true] at hsingle
    rw [rereadMembers, reread_eq_self hsingle.1 fun n hn => h n (List.mem_append_left _ hn),
      rereadMembers_eq_self hsingle.2 fun n hn => h n (List.mem_append_right _ hn)]

end

theorem Number.comesBack_of_reread {n : Number}
    (hsingle : (Reading.ofJson (.number n)).noSingle = true) (h : n.reread = .number n) :
    n.ComesBack := by
  have hread : Json.ofText? n.print = some (.number n) := by
    rw [Number.reread] at h
    cases hread : Json.ofText? n.print with
    | none => exact absurd (hread ▸ h) (by simp)
    | some j => exact congrArg some (show j = .number n by rw [hread] at h; exact h)
  cases n with
  | single x => exact absurd hsingle (by simp [Reading.ofJson, Reading.noSingle])
  | natural n => exact hread
  | negative n => exact hread
  | double x => exact hread

mutual

theorem comesBack_of_reread : ∀ {j : Json}, (Reading.ofJson j).noSingle = true → j.reread = j →
    ∀ n ∈ j.numbers, n.ComesBack
  | .null, _, _, _, hn | .bool _, _, _, _, hn | .string _, _, _, _, hn => absurd hn List.not_mem_nil
  | .number n, hsingle, h, m, hm => by
    rw [List.mem_singleton.mp hm]
    exact Number.comesBack_of_reread hsingle h
  | .array _, hsingle, h, n, hn => comesBack_of_rereadItems hsingle (array.inj h) n hn
  | .object _, hsingle, h, n, hn => comesBack_of_rereadMembers hsingle (object.inj h) n hn

theorem comesBack_of_rereadItems : ∀ {items : List Json},
    Reading.noSingles (Reading.ofItems items) = true → rereadItems items = items →
    ∀ n ∈ numbersOfItems items, n.ComesBack
  | [], _, _, _, hn => absurd hn List.not_mem_nil
  | item :: rest, hsingle, h, n, hn => by
    rw [Reading.ofItems, Reading.noSingles, Bool.and_eq_true] at hsingle
    rw [rereadItems, List.cons.injEq] at h
    rcases List.mem_append.mp hn with hn | hn
    · exact comesBack_of_reread hsingle.1 h.1 n hn
    · exact comesBack_of_rereadItems hsingle.2 h.2 n hn

theorem comesBack_of_rereadMembers : ∀ {members : List (String × Json)},
    Reading.noSingleMembers (Reading.ofMembers members) = true → rereadMembers members = members →
    ∀ n ∈ numbersOfMembers members, n.ComesBack
  | [], _, _, _, hn => absurd hn List.not_mem_nil
  | (_, value) :: rest, hsingle, h, n, hn => by
    rw [Reading.ofMembers, Reading.noSingleMembers, Bool.and_eq_true] at hsingle
    rw [rereadMembers, List.cons.injEq, Prod.mk.injEq] at h
    rcases List.mem_append.mp hn with hn | hn
    · exact comesBack_of_reread hsingle.1 h.1.2 n hn
    · exact comesBack_of_rereadMembers hsingle.2 h.2 n hn

end

/-- **A value is read back from its text if and only if all its numbers are.** -/
theorem reread_eq_self_iff {j : Json} (hsingle : (Reading.ofJson j).noSingle = true) :
    j.reread = j ↔ ∀ n ∈ j.numbers, n.ComesBack :=
  ⟨comesBack_of_reread hsingle, reread_eq_self hsingle⟩

/-! ## What comes back

A number comes back as some number that a text can spell, so that a value without singles comes back
as one. -/

theorem reread_ofNat {n : ℕ} (hn : n < 0x10000000000000000) : (ofNat n).reread = ofNat n :=
  Number.reread_eq (WrittenAs.natural hn)

/-- A decoder that is run on the text of a number is run on what comes back of it. -/
theorem Number.ofText_print {α : Type} {n : Number} (h : n.IsSound) (d : Decoder α) :
    d.ofText n.print = d (.ofJson n.reread) :=
  (spelledBy_print (j := .number n) h).ofBytes d

theorem Number.comesBack_natural {n : ℕ} (hn : n < 0x10000000000000000) :
    (Number.natural n).ComesBack :=
  ofText?_print (WrittenAs.natural hn)

theorem Number.print_one : (Number.single (Binary.ofNat .single false 1)).print = "1.0" := by
  decide +kernel

open Numeral in
theorem Number.writtenAs_one :
    (Number.double (Binary.ofNat .double false 1)).WrittenAs "1.0" := by
  refine ⟨⟨false, [1], [0], none⟩, ⟨by decide, Or.inr ⟨1, [], rfl, by decide⟩, by decide, nofun⟩,
    rfl, ?_⟩
  have hscale : scale (Binary.ofNat .double false 10) (-1)
      = some (Binary.ofNat .double false 1) := by
    rw [scale]
    rfl
  show (scale (Binary.ofNat .double false 10) (-1)).map Number.double = _
  rw [hscale]
  rfl

/-- The one single whose text is followed digit by digit. -/
theorem Number.comesBack_one : (Number.single (Binary.ofNat .single false 1)).ComesBack := by
  have hsound : (Number.single (Binary.ofNat .single false 1)).IsSound :=
    ⟨Binary.isOf_ofFraction .single Binary.isSound_single false 1 one_pos, rfl⟩
  rw [ComesBack, ofText_print hsound, reread_eq (print_one ▸ writtenAs_one)]
  rfl

theorem Number.noSingle_reread {n : Number} (h : n.IsSound) :
    (Reading.ofJson n.reread).noSingle = true := by
  obtain ⟨read, hwritten, -⟩ := Number.exists_writtenAs h
  rw [Number.reread_eq hwritten]
  obtain ⟨numeral, -, -, hnumber⟩ := hwritten
  cases read with
  | single x => exact absurd hnumber (numeral.toNumber?_ne_single x)
  | natural n => rfl
  | negative n => rfl
  | double x => rfl

mutual

theorem noSingle_reread : ∀ {j : Json} {room : ℕ}, j.Fits room →
    (Reading.ofJson j.reread).noSingle = true
  | .null, _, _ | .bool _, _, _ | .string _, _, _ => rfl
  | .number _, _, h => Number.noSingle_reread h
  | .array _, _, h => noSingles_rereadItems h.2
  | .object _, _, h => noSingleMembers_rereadMembers h.2

theorem noSingles_rereadItems : ∀ {items : List Json} {room : ℕ}, AllFit items room →
    Reading.noSingles (Reading.ofItems (rereadItems items)) = true
  | [], _, _ => rfl
  | item :: rest, _, h => by
    rw [rereadItems, Reading.ofItems, Reading.noSingles, noSingle_reread h.1,
      noSingles_rereadItems h.2]
    rfl

theorem noSingleMembers_rereadMembers : ∀ {members : List (String × Json)} {room : ℕ},
    AllMembersFit members room →
    Reading.noSingleMembers (Reading.ofMembers (rereadMembers members)) = true
  | [], _, _ => rfl
  | (_, value) :: rest, _, h => by
    rw [rereadMembers, Reading.ofMembers, Reading.noSingleMembers, noSingle_reread h.1,
      noSingleMembers_rereadMembers h.2]
    rfl

end

/-- What comes back of members that may be missing. -/
def rereadOf (members : List (String × Option Json)) : List (String × Json) :=
  rereadMembers (members.filterMap fun (name, value) => value.map (name, ·))

theorem reread_ofMembers (members : List (String × Option Json)) :
    (ofMembers members).reread = .object (rereadOf members) := rfl

theorem names_rereadMembers (members : List (String × Json)) :
    (rereadMembers members).map Prod.fst = members.map Prod.fst := by
  rw [rereadMembers_eq_map, List.map_map]
  rfl

theorem Sorted.rereadMembers {members : List (String × Json)} (h : Sorted members) :
    Sorted (rereadMembers members) := by
  rw [rereadMembers_eq_map, Sorted, List.pairwise_map]
  exact h

theorem nodup_rereadOf {members : List (String × Option Json)}
    (h : (members.map Prod.fst).Nodup) : ((rereadOf members).map Prod.fst).Nodup := by
  rw [rereadOf, names_rereadMembers]
  exact h.sublist (names_ofMembers_sublist members)

/-- **Under each name stands what comes back of the member.** -/
theorem lookup_rereadOf {members : List (String × Option Json)}
    (h : (members.map Prod.fst).Nodup) (name : String) :
    (rereadOf members).lookup name = (members.lookup name).join.map reread := by
  rw [rereadOf, rereadMembers_eq_map, lookup_map_values, ← get?_ofMembers h]
  rfl

theorem noSingle_rereadOf {members : List (String × Option Json)} {room : ℕ}
    (h : (ofMembers members).Fits room) :
    Reading.noSingleMembers (Reading.ofMembers (rereadOf members)) = true :=
  noSingle_reread h

/-! ## Canonical values again

A canonical value has no singles, for they are widened, and repeats no names, for they are sorted.
-/

mutual

theorem noSingle_canonical : ∀ j : Json, (Reading.ofJson j.canonical).noSingle = true
  | .null | .bool _ | .string _ => rfl
  | .number n => by cases n <;> rfl
  | .array items => noSingles_canonicalItems items
  | .object members => by
    have hall := noSingle_canonicalMembers members
    rw [canonical, noSingle_object_iff]
    exact fun m hm => hall m (mem_sortMembers hm)

theorem noSingles_canonicalItems : ∀ items : List Json,
    Reading.noSingles (Reading.ofItems (canonicalItems items)) = true
  | [] => rfl
  | item :: rest => by
    rw [canonicalItems, Reading.ofItems, Reading.noSingles, noSingle_canonical item,
      noSingles_canonicalItems rest]
    rfl

theorem noSingle_canonicalMembers : ∀ members : List (String × Json),
    ∀ m ∈ canonicalMembers members, (Reading.ofJson m.2).noSingle = true
  | [], _, hm => absurd hm List.not_mem_nil
  | (_, value) :: rest, m, hm => by
    rcases List.mem_cons.mp hm with rfl | hm
    · exact noSingle_canonical value
    · exact noSingle_canonicalMembers rest m hm

end

mutual

theorem isDistinct_canonical : ∀ j : Json, j.canonical.isDistinct = true
  | .null | .bool _ | .string _ | .number _ => rfl
  | .array items => allDistinct_canonicalItems items
  | .object members => by
    have hall := isDistinct_canonicalMembers members
    rw [canonical, isDistinct, Bool.and_eq_true, allMembersDistinct_eq_all]
    exact ⟨decide_eq_true (sorted_sortMembers _).nodup,
      List.all_eq_true.mpr fun m hm => hall m (mem_sortMembers hm)⟩

theorem allDistinct_canonicalItems : ∀ items : List Json,
    allDistinct (canonicalItems items) = true
  | [] => rfl
  | item :: rest => by
    rw [canonicalItems, allDistinct, isDistinct_canonical item, allDistinct_canonicalItems rest]
    rfl

theorem isDistinct_canonicalMembers : ∀ members : List (String × Json),
    ∀ m ∈ canonicalMembers members, m.2.isDistinct = true
  | [], _, hm => absurd hm List.not_mem_nil
  | (_, value) :: rest, m, hm => by
    rcases List.mem_cons.mp hm with rfl | hm
    · exact isDistinct_canonical value
    · exact isDistinct_canonicalMembers rest m hm

end

/-! ## What comes back of a canonical value

As names come back and no single does, there is nothing left to sort or to widen. -/

/-- What comes back of a number needs no widening. -/
theorem Number.canonical_reread {n : Number} (h : n.IsSound) : n.reread.canonical = n.reread := by
  have hsingle := Number.noSingle_reread h
  obtain ⟨read, hwritten, -⟩ := Number.exists_writtenAs h
  rw [Number.reread_eq hwritten] at hsingle ⊢
  cases read with
  | single x => exact absurd hsingle (by simp [Reading.ofJson, Reading.noSingle])
  | natural n => rfl
  | negative n => rfl
  | double x => rfl

mutual

/-- What comes back of a canonical value is canonical. -/
theorem canonical_reread : ∀ {j : Json} {room : ℕ}, j.Fits room → j.canonical = j →
    j.reread.canonical = j.reread
  | .null, _, _, _ | .bool _, _, _, _ | .string _, _, _, _ => rfl
  | .number _, _, h, _ => Number.canonical_reread h
  | .array items, _, h, hcanonical => by
    rw [canonical, array.injEq] at hcanonical
    have hitems : ∀ item ∈ items, item.canonical = item := fun item hitem =>
      canonical_of_mem_items items item (hcanonical.symm ▸ hitem)
    rw [reread, canonical, canonicalItems_reread h.2 hitems]
  | .object members, _, h, hcanonical => by
    have hsorted := sorted_of_canonical hcanonical
    rw [canonical, object.injEq] at hcanonical
    have hmembers : ∀ m ∈ members, m.2.canonical = m.2 := fun m hm =>
      canonical_of_mem_members members m (mem_sortMembers (hcanonical.symm ▸ hm))
    -- The names are what they were, so their order is too.
    rw [reread, canonical, canonicalMembers_reread h.2 hmembers, hsorted.rereadMembers.sortMembers]

theorem canonicalItems_reread : ∀ {items : List Json} {room : ℕ}, AllFit items room →
    (∀ item ∈ items, item.canonical = item) →
    canonicalItems (rereadItems items) = rereadItems items
  | [], _, _, _ => rfl
  | item :: rest, _, h, hcanonical => by
    rw [List.forall_mem_cons] at hcanonical
    rw [rereadItems, canonicalItems, canonical_reread h.1 hcanonical.1,
      canonicalItems_reread h.2 hcanonical.2]

theorem canonicalMembers_reread : ∀ {members : List (String × Json)} {room : ℕ},
    AllMembersFit members room → (∀ m ∈ members, m.2.canonical = m.2) →
    canonicalMembers (rereadMembers members) = rereadMembers members
  | [], _, _, _ => rfl
  | (_, value) :: rest, _, h, hcanonical => by
    rw [List.forall_mem_cons] at hcanonical
    rw [rereadMembers, canonicalMembers, canonical_reread h.1 hcanonical.1,
      canonicalMembers_reread h.2 hcanonical.2]

end

/-! ## Values that survive

The relay makes values of its own, from strings, counts and what it was given. They are put together
from values that survive. -/

/-- The value is nested no deeper than `room`, and its text is read back as the value itself. -/
structure Survives (j : Json) (room : ℕ) : Prop where
  fits : j.Fits room
  same : j.reread = j

section Survives

variable {room : ℕ}

theorem survives_null : null.Survives room :=
  ⟨trivial, rfl⟩

theorem survives_string (s : String) : (string s).Survives room :=
  ⟨trivial, rfl⟩

theorem survives_ofNat {n : ℕ} (hn : n < 0x10000000000000000) : (ofNat n).Survives room :=
  ⟨hn, reread_ofNat hn⟩

theorem survives_array {items : List Json} (h : ∀ item ∈ items, item.Survives room) :
    (array items).Survives (room + 1) := by
  refine ⟨⟨Nat.succ_pos room, allFit_iff.mpr fun item hitem => (h item hitem).fits⟩, ?_⟩
  rw [reread, rereadItems_eq_map, List.map_congr_left fun item hitem => (h item hitem).same,
    List.map_id']

/-- An object survives, one level up, if its values do; nothing is asked of the names. -/
theorem survives_object {members : List (String × Json)} (h : ∀ m ∈ members, m.2.Survives room) :
    (object members).Survives (room + 1) := by
  refine ⟨⟨Nat.succ_pos room, allMembersFit_iff.mpr fun m hm => (h m hm).fits⟩, ?_⟩
  have hsame : ∀ m ∈ members, (m.1, m.2.reread) = m := by
    intro m hm
    rw [(h m hm).same]
  rw [reread, rereadMembers_eq_map, List.map_congr_left hsame, List.map_id']

theorem survives_ofMembers {members : List (String × Option Json)}
    (h : ∀ m ∈ members, ∀ j ∈ m.2, j.Survives room) : (ofMembers members).Survives (room + 1) := by
  apply survives_object
  intro m hm
  obtain ⟨⟨name, value⟩, hmem, heq⟩ := List.mem_filterMap.mp hm
  obtain ⟨j, hj, rfl⟩ := Option.map_eq_some_iff.mp heq
  exact h _ hmem j hj

/-- A member that may be missing. -/
theorem survives_map {α : Type} {toJson : α → Json} (h : ∀ a, (toJson a).Survives room)
    (held : Option α) : ∀ j ∈ held.map toJson, j.Survives room := by
  intro j hj
  obtain ⟨a, -, rfl⟩ := Option.map_eq_some_iff.mp hj
  exact h a

variable {j : Json}

theorem Survives.spelledBy (h : j.Survives Draft.depth) :
    j.SpelledBy j.print.toUTF8.data.toList := by
  have hspelled := spelledBy_print h.fits
  rwa [h.same] at hspelled

theorem Survives.ofText?_print (h : j.Survives Draft.depth) :
    ofText? j.print = some j.canonical :=
  h.spelledBy.ofBytes?

/-- A decoder that is run on the text of the value is run on the value. -/
theorem Survives.ofText_print {α : Type} (h : j.Survives Draft.depth) (d : Decoder α) :
    d.ofText j.print = d (.ofJson j) :=
  h.spelledBy.ofBytes d

end Survives

end ModelRelay.Json
