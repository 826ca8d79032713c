import ModelRelay.Proofs.Json.Printing

/-!
# What is read can be written again

Every number of a text that is read lies within 64 bits or is a finite double, and nothing in it is
nested deeper than the reader goes. So **the value that a text spells fits into a text again**
(`SpelledBy.fits`), and so does its canonical form.

The bound on the nesting is one that the reader enforces: where it runs out of room it marks the
value and goes on. `Fits` is therefore stated of readings first, where a marked value fits by
definition, and shown to pervade what is read. A reading that is a value has no marks, and there it
says what it says of values.
-/

set_option autoImplicit false

namespace ModelRelay

open Binary

/-! ## Numbers

A significand never leaves 64 bits, and a double that would be infinite is refused instead. -/

namespace Json.Numeral

theorem grow_lt {n : ℕ} (hn : n < 0x10000000000000000) (taken : ℕ) (ds : List ℕ) :
    (grow n taken ds).1 < 0x10000000000000000 := by
  induction ds generalizing n taken with
  | nil => exact hn
  | cons d rest ih =>
    rw [grow]
    split_ifs with hlarger
    · exact ih hlarger (taken + 1)
    · exact hn

theorem isSound_double? {negative : Bool} {n : ℕ} {e : ℤ} {number : Number}
    (hn : n < 0x10000000000000000) (h : (double? negative n e).map .double = some number) :
    number.IsSound := by
  obtain ⟨y, hy, rfl⟩ := Option.map_eq_some_iff.mp h
  exact isOf_scale (isOf_ofNat negative n) (isInfinite_ofNat negative hn) hy

/-- **A numeral stands for a number that can be written**, if it stands for one. -/
theorem isSound_toNumber? {n : Numeral} {number : Number} (h : n.toNumber? = some number) :
    number.IsSound := by
  have hwhole := grow_lt (show 0 < 0x10000000000000000 by decide) 0 n.whole
  simp only [toNumber?] at h
  -- The cases of a numeral: a whole number, one below zero that still fits, a greater one, and
  -- fractions with or without an exponent.
  split_ifs at h with hall hsign hrange
  · rw [← Option.some.inj h]
    exact hwhole
  · rw [Bool.and_eq_true, decide_eq_true_eq, decide_eq_true_eq] at hrange
    rw [← Option.some.inj h]
    exact hrange
  · rw [← Option.some.inj h]
    exact ⟨isOf_ofNat _ _, isInfinite_ofNat _ hwhole⟩
  · have hboth := grow_lt hwhole 0 n.fraction
    split at h
    · exact isSound_double? hboth h
    · split_ifs at h
      · rw [← Option.some.inj h]
        exact ⟨isOf_ofNat _ _, isInfinite_ofNat _ (by decide)⟩
      · exact isSound_double? hboth h
      · exact isSound_double? hboth h

end Json.Numeral

/-! ## Readings

The same condition as for values, and what is unreadable or marked fits anywhere. -/

namespace Reading

mutual

/-- Every number within can be written, and at most so many arrays and objects are nested. -/
def Fits : Reading → ℕ → Prop
  | .number (some n), _ => n.IsSound
  | .array items, room => 0 < room ∧ AllFit items (room - 1)
  | .object members, room => 0 < room ∧ AllMembersFit members (room - 1)
  | .number none, _ | .cut, _ | .null, _ | .bool _, _ | .string _, _ | .deep _, _ => True

def AllFit : List Reading → ℕ → Prop
  | [], _ => True
  | item :: rest, room => Fits item room ∧ AllFit rest room

def AllMembersFit : List (Option String × Reading) → ℕ → Prop
  | [], _ => True
  | (_, value) :: rest, room => Fits value room ∧ AllMembersFit rest room

end

theorem allFit_iff {items : List Reading} {room : ℕ} :
    AllFit items room ↔ ∀ item ∈ items, item.Fits room := by
  induction items with
  | nil => simp [AllFit]
  | cons item rest ih => rw [AllFit, ih, List.forall_mem_cons]

theorem allMembersFit_iff {members : List (Option String × Reading)} {room : ℕ} :
    AllMembersFit members room ↔ ∀ m ∈ members, m.2.Fits room := by
  induction members with
  | nil => simp [AllMembersFit]
  | cons m rest ih => rw [AllMembersFit, ih, List.forall_mem_cons]

mutual

theorem fits_of_ofJson : ∀ (j : Json) {room : ℕ}, (ofJson j).Fits room → j.Fits room
  | .null, _, _ | .bool _, _, _ | .string _, _, _ => trivial
  | .number _, _, h => h
  | .array items, _, h => ⟨h.1, allFit_of_ofItems items h.2⟩
  | .object members, _, h => ⟨h.1, allMembersFit_of_ofMembers members h.2⟩

theorem allFit_of_ofItems : ∀ (items : List Json) {room : ℕ}, AllFit (ofItems items) room →
    Json.AllFit items room
  | [], _, _ => trivial
  | item :: rest, _, h => ⟨fits_of_ofJson item h.1, allFit_of_ofItems rest h.2⟩

theorem allMembersFit_of_ofMembers : ∀ (members : List (String × Json)) {room : ℕ},
    AllMembersFit (ofMembers members) room → Json.AllMembersFit members room
  | [], _, _ => trivial
  | (_, value) :: rest, _, h => ⟨fits_of_ofJson value h.1, allMembersFit_of_ofMembers rest h.2⟩

end

end Reading

namespace Json.Reader

/-- Where there is no room the value is marked, and elsewhere there is room. -/
theorem fits_atDepth {room : ℕ} {value : Reading} (h : 0 < room → value.Fits room) :
    (atDepth room value).Fits room := by
  rw [atDepth]
  split_ifs with hroom
  · trivial
  · exact h (Nat.pos_of_ne_zero hroom)

/-- Each part that is read fits where it stands. -/
theorem pervades_fits : Pervades fun room r => r.Fits room where
  cut := trivial
  null := trivial
  bool _ := trivial
  string _ := trivial
  number n := by
    cases h : n.toNumber? with
    | none => trivial
    | some m => exact Numeral.isSound_toNumber? h
  array hitems := fits_atDepth fun hroom => ⟨hroom, Reading.allFit_iff.mpr hitems⟩
  object hmembers := fits_atDepth fun hroom => ⟨hroom, Reading.allMembersFit_iff.mpr hmembers⟩

end Json.Reader

namespace Json

/-- **The value that a text spells can be written again.** -/
theorem SpelledBy.fits {j : Json} {s : List UInt8} (h : j.SpelledBy s) : j.Fits Draft.depth := by
  have hroot := Reader.pervades_fits.root s
  rw [h] at hroot
  exact Reading.fits_of_ofJson j hroot

theorem noSingle_object_iff {members : List (String × Json)} :
    (Reading.ofJson (.object members)).noSingle = true ↔
      ∀ m ∈ members, (Reading.ofJson m.2).noSingle = true := by
  rw [Reading.ofJson, Reading.noSingle, Reading.noSingleMembers_eq_all, Reading.ofMembers_eq_map,
    List.all_map, List.all_eq_true]
  rfl

mutual

/-- The canonical form of a value that fits does so too: sorting adds no member, and widening a
single makes a finite double of it. -/
theorem Fits.canonical : ∀ {j : Json} {room : ℕ}, j.Fits room → j.canonical.Fits room
  | .null, _, _ | .bool _, _, _ | .string _, _, _ => trivial
  | .number _, _, h => Number.IsSound.widen h
  | .array _, _, h => ⟨h.1, AllFit.canonical h.2⟩
  | .object members, room, h => by
    refine ⟨h.1, allMembersFit_iff.mpr fun m hm => ?_⟩
    exact allMembersFit_iff.mp (AllMembersFit.canonical h.2) m (mem_sortMembers hm)

theorem AllFit.canonical : ∀ {items : List Json} {room : ℕ}, AllFit items room →
    AllFit (canonicalItems items) room
  | [], _, _ => trivial
  | _ :: _, _, h => ⟨Fits.canonical h.1, AllFit.canonical h.2⟩

theorem AllMembersFit.canonical : ∀ {members : List (String × Json)} {room : ℕ},
    AllMembersFit members room → AllMembersFit (canonicalMembers members) room
  | [], _, _ => trivial
  | (_, _) :: _, _, h => ⟨Fits.canonical h.1, AllMembersFit.canonical h.2⟩

end

end Json

end ModelRelay
