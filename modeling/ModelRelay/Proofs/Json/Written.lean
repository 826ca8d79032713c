import ModelRelay.Proofs.Json.Records

/-!
# Records as they are written

What a record is to say can be written in many ways: its members come in any order, there may be
others besides them, and what may be left out may be null. `IsRecord` and `Gives` say what is
written without saying how, and a decoder that takes all of these to one value is a reader of it
(`IsReadBy`).

So a statement about everything that a caller or a provider may send is a statement about one value
and all that is written of it. The lemmas turn such a description into what `Fills` and `Awaits` ask
for: the slot takes what is found, and holds the value that was meant.
-/

set_option autoImplicit false

namespace ModelRelay.Json

variable {α : Type}

/-- What is found under a name that may be left out gives a value, or none. Null counts as none. -/
inductive Gives (writes : α → Json → Prop) : Option α → Option Json → Prop where
  | absent : Gives writes none none
  | null : Gives writes none (some .null)
  | given {a : α} {j : Json} : writes a j → Gives writes (some a) (some j)

def IsText (s : String) (j : Json) : Prop :=
  j = .string s

def IsWord (n : UInt32) (j : Json) : Prop :=
  j = .ofNat n.toNat

/-- An object that repeats no name, and what is found in it under each name. -/
def IsRecord (fields : (String → Option Json) → Prop) (j : Json) : Prop :=
  ∃ members, j = .object members ∧ (members.map Prod.fst).Nodup ∧
    fields fun name => members.lookup name

/-- A decoder takes what is written of a value to the value. -/
def IsReadBy (writes : α → Json → Prop) (d : Decoder α) : Prop :=
  ∀ {a : α} {j : Json}, writes a j → j ≠ .null ∧ d (.ofJson j) = .ok a

theorem isText_isReadBy : IsReadBy IsText Decoder.text := by
  rintro s j rfl
  exact ⟨nofun, rfl⟩

theorem isWord_isReadBy : IsReadBy IsWord Decoder.word := by
  rintro n j rfl
  refine ⟨nofun, ?_⟩
  have hn : n.toNat < 0x100000000 := n.toNat_lt
  simp only [Decoder.word, Reading.ofJson, Json.ofNat, Decoder.natural, hn, if_true]
  exact congrArg Except.ok (UInt32.ofNat_toNat)

theorem Gives.holds {writes : α → Json → Prop} {d : Decoder α} {a : Option α}
    {found : Option Json} (h : Gives writes a found) (hd : IsReadBy writes d) :
    d.Holds found a := by
  cases h with
  | absent => exact rfl
  | null => exact rfl
  | @given a j hj =>
    obtain ⟨hne, ha⟩ := hd hj
    cases j with
    | null => exact absurd rfl hne
    | bool _ | number n | string s | array _ | object _ => exact ⟨a, ha, rfl⟩

end ModelRelay.Json

namespace ModelRelay.Decoder

variable {α β : Type} {put : β → String → Reading → Except Mismatch β} {name : String}
  {d : Decoder α} {ms : List (String × Json)} {s s' : β} {writes : α → Json → Prop}

/-- An empty slot waits for what is written of its field, if anything is. -/
theorem Fills.awaits_of_gives {slot : β → Option (Option α)}
    (h : Fills put name (optional d) slot) {a : Option α} (hfree : slot s = none)
    (hgives : Json.Gives writes a (ms.lookup name)) (hd : Json.IsReadBy writes d) :
    ∀ j, ms.lookup name = some j → Awaits put name (.ofJson j) s := by
  intro j hj
  have hholds := hgives.holds hd
  rw [hj] at hholds
  exact h.awaits hfree (optional_of_holds hholds)

/-- **The slot holds what was meant in the end**, however the record was written. -/
theorem Fills.join_eq {slot : β → Option (Option α)} (h : Fills put name (optional d) slot)
    (hok : Decoder.members put s (Reading.ofMembers ms) = .ok s') {a : Option α}
    (hfree : slot s = none) (hgives : Json.Gives writes a (ms.lookup name))
    (hd : Json.IsReadBy writes d) : (slot s').join = a := by
  have hholds := hgives.holds hd
  rcases h.members hok with ⟨hnone, hslot⟩ | ⟨-, j, b, hj, hb, hslot⟩
  · rw [hnone] at hholds
    rw [hslot, hfree]
    exact hholds.symm
  · rw [hj] at hholds
    rw [hslot]
    exact Except.ok.inj (hb.symm.trans (optional_of_holds hholds))

/-! ## Records of one field -/

variable {single : Option α → String → Reading → Except Mismatch (Option α)}

theorem members_single
    (hput : ∀ s field r, single s field r = if field = name then fill field s d r else do
      skip r
      return s)
    (hnodup : (ms.map Prod.fst).Nodup)
    (htake : ∀ j, ms.lookup name = some j → Awaits single name (.ofJson j) none) :
    ∃ slot, Decoder.members single none (Reading.ofMembers ms) = .ok slot := by
  refine exists_members [name] ?_ hnodup ?_
  · intro s other j hother
    rw [hput, if_neg (List.mem_singleton.not.mp hother), skip_ofJson]
    rfl
  · intro other hother
    rw [List.mem_singleton.mp hother]
    exact htake

/-- A record of one field that must be there. -/
theorem single_of_lookup
    (hput : ∀ s field r, single s field r = if field = name then fill field s d r else do
      skip r
      return s)
    (hnodup : (ms.map Prod.fst).Nodup) {j : Json} {a : α} (hj : ms.lookup name = some j)
    (ha : d (.ofJson j) = .ok a) :
    Decoder.members single none (Reading.ofMembers ms) = .ok (some a) := by
  have hfills : Fills single name d id := fills_single hput
  obtain ⟨slot, hslot⟩ := members_single hput hnodup fun j' hj' => by
    rw [← Option.some.inj (hj.symm.trans hj')]
    exact hfills.awaits rfl ha
  rw [hslot, show slot = some a from hfills.slot_eq hslot hj ha]

end ModelRelay.Decoder
