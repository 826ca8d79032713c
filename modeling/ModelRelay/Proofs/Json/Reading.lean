import ModelRelay.Json.Decoder
import ModelRelay.Proofs.Json.Canonical

/-!
# Texts that spell a value

A text *spells* a value if it reads as that value and nothing follows. The value has its members as
they are written: in their order, repeated names included. **What a caller or a provider sent means
the canonical form of it** (`SpelledBy.ofBytes?`), for of the relay's two kinds of fractions a text
only ever spells doubles.

A reading can hold what a value cannot, such as text that is cut short or a single; a value that is
taken for a reading has neither. The first part says so, kind by kind. That no text spells a single
is a property of what the reader makes, and so a matter of its three scanners, which call one
another. `Pervades` states what such a property must do, and its one induction serves every property
that is asked of each part of what is read.
-/

set_option autoImplicit false

namespace ModelRelay

/-- The bytes are a JSON text, and it is this value that they write out. -/
def Json.SpelledBy (j : Json) (s : List UInt8) : Prop :=
  Draft.ofBytes s = ⟨.ofJson j, true⟩

/-! ## Values as readings

A value is one of the readings, the same all the way down. The two folds over items and members are
maps, and a value is never cut short. -/

namespace Reading

/-- The items of an array are read one by one. -/
theorem ofItems_eq_map (items : List Json) : ofItems items = items.map ofJson := by
  induction items with
  | nil => rfl
  | cons item rest ih => rw [ofItems, ih, List.map_cons]

theorem ofMembers_eq_map (members : List (String × Json)) :
    ofMembers members = members.map fun m => (some m.1, ofJson m.2) := by
  induction members with
  | nil => rfl
  | cons m rest ih => rw [ofMembers, ih, List.map_cons]

mutual

/-- A value is read without a cut. -/
theorem isCut_ofJson : ∀ j : Json, (ofJson j).isCut = false
  | .null | .bool _ | .number _ | .string _ => rfl
  | .array items => anyCut_ofItems items
  | .object members => anyCutMember_ofMembers members

theorem anyCut_ofItems : ∀ items : List Json, anyCut (ofItems items) = false
  | [] => rfl
  | item :: rest => by rw [ofItems, anyCut, isCut_ofJson item, anyCut_ofItems rest]; rfl

theorem anyCutMember_ofMembers :
    ∀ members : List (String × Json), anyCutMember (ofMembers members) = false
  | [] => rfl
  | (_, value) :: rest => by
    rw [ofMembers, anyCutMember, isCut_ofJson value, anyCutMember_ofMembers rest]; rfl

end

mutual

/-- Nothing is missing from a value that is held. -/
theorem exists_toJson?_ofJson : ∀ j : Json, ∃ value, (ofJson j).toJson? = some value
  | .null => ⟨.null, rfl⟩
  | .bool b => ⟨.bool b, rfl⟩
  | .number n => ⟨.number n, rfl⟩
  | .string s => ⟨.string s, rfl⟩
  | .array items => by
    obtain ⟨values, h⟩ := exists_itemsToJson?_ofItems items
    exact ⟨.array values, by rw [ofJson, toJson?, h]; rfl⟩
  | .object members => by
    obtain ⟨values, h⟩ := exists_membersToJson?_ofMembers members
    exact ⟨.object (Json.sortMembers values), by rw [ofJson, toJson?, h]; rfl⟩

theorem exists_itemsToJson?_ofItems :
    ∀ items : List Json, ∃ values, itemsToJson? (ofItems items) = some values
  | [] => ⟨[], rfl⟩
  | item :: rest => by
    obtain ⟨value, hvalue⟩ := exists_toJson?_ofJson item
    obtain ⟨values, hvalues⟩ := exists_itemsToJson?_ofItems rest
    exact ⟨value :: values, by rw [ofItems, itemsToJson?, hvalue, hvalues]⟩

theorem exists_membersToJson?_ofMembers :
    ∀ members : List (String × Json), ∃ values, membersToJson? (ofMembers members) = some values
  | [] => ⟨[], rfl⟩
  | (name, value) :: rest => by
    obtain ⟨read, hread⟩ := exists_toJson?_ofJson value
    obtain ⟨values, hvalues⟩ := exists_membersToJson?_ofMembers rest
    exact ⟨(name, read) :: values, by rw [ofMembers, membersToJson?, hread, hvalues]⟩

end

theorem isNone_toJson?_ofJson (j : Json) : (ofJson j).toJson?.isNone = false := by
  obtain ⟨value, h⟩ := exists_toJson?_ofJson j
  rw [h]
  rfl

/-! ## No text spells a single

Singles are what the relay computes with, and only the fields of a request are narrowed to them.
Among the numbers of a text there are none, so that what a text means is settled without a choice of
format. -/

mutual

/-- No number in the reading is a single. -/
def noSingle : Reading → Bool
  | .number (some (.single _)) => false
  | .array items => noSingles items
  | .object members => noSingleMembers members
  | .deep value => noSingle value
  | .cut | .null | .bool _ | .number _ | .string _ => true

def noSingles : List Reading → Bool
  | [] => true
  | item :: rest => noSingle item && noSingles rest

def noSingleMembers : List (Option String × Reading) → Bool
  | [] => true
  | (_, value) :: rest => noSingle value && noSingleMembers rest

end

theorem noSingles_eq_all (items : List Reading) : noSingles items = items.all noSingle := by
  induction items with
  | nil => rfl
  | cons item rest ih => rw [noSingles, ih, List.all_cons]

theorem noSingleMembers_eq_all (members : List (Option String × Reading)) :
    noSingleMembers members = members.all fun m => noSingle m.2 := by
  induction members with
  | nil => rfl
  | cons m rest ih => rw [noSingleMembers, ih, List.all_cons]

theorem noSingle_of_mem {items : List Json} (h : (ofJson (.array items)).noSingle = true)
    {item : Json} (hitem : item ∈ items) : (ofJson item).noSingle = true := by
  rw [ofJson, noSingle, noSingles_eq_all, ofItems_eq_map, List.all_map] at h
  exact List.all_eq_true.mp h item hitem

theorem noSingle_of_lookup {members : List (String × Json)}
    (h : (ofJson (.object members)).noSingle = true) {name : String} {value : Json}
    (hvalue : members.lookup name = some value) : (ofJson value).noSingle = true := by
  rw [ofJson, noSingle, noSingleMembers_eq_all, ofMembers_eq_map, List.all_map] at h
  exact List.all_eq_true.mp h _ (Json.mem_of_lookup hvalue)

mutual

/-- **A value without singles means its canonical form**: numbers stay, and the members of each
object are sorted. -/
theorem toJson?_ofJson :
    ∀ j : Json, (ofJson j).noSingle = true → (ofJson j).toJson? = some j.canonical
  | .null, _ | .bool _, _ | .string _, _ => rfl
  | .number n, h => by
    cases n with
    | single x => exact absurd h (by simp [ofJson, noSingle])
    | natural n => rfl
    | negative n => rfl
    | double x => rfl
  | .array items, h => by
    rw [ofJson, toJson?, itemsToJson?_ofItems items h]
    rfl
  | .object members, h => by
    rw [ofJson, toJson?, membersToJson?_ofMembers members h]
    rfl

theorem itemsToJson?_ofItems : ∀ items : List Json, noSingles (ofItems items) = true →
    itemsToJson? (ofItems items) = some (Json.canonicalItems items)
  | [], _ => rfl
  | item :: rest, h => by
    rw [ofItems, noSingles, Bool.and_eq_true] at h
    rw [ofItems, itemsToJson?, toJson?_ofJson item h.1, itemsToJson?_ofItems rest h.2]
    rfl

theorem membersToJson?_ofMembers :
    ∀ members : List (String × Json), noSingleMembers (ofMembers members) = true →
      membersToJson? (ofMembers members) = some (Json.canonicalMembers members)
  | [], _ => rfl
  | (_, value) :: rest, h => by
    rw [ofMembers, noSingleMembers, Bool.and_eq_true] at h
    rw [ofMembers, membersToJson?, toJson?_ofJson value h.1, membersToJson?_ofMembers rest h.2]
    rfl

end

/-- Objects that are read are sorted. -/
theorem sorted_of_toJson? {r : Reading} {members : List (String × Json)}
    (h : r.toJson? = some (.object members)) : Json.Sorted members := by
  cases r with
  | object ms =>
    obtain ⟨read, -, hread⟩ := Option.map_eq_some_iff.mp h
    rw [← Json.object.inj hread]
    exact Json.sorted_sortMembers read
  | array _ | number _ | string _ =>
    obtain ⟨_, -, hread⟩ := Option.map_eq_some_iff.mp h
    nomatch hread
  | cut | null | bool _ | deep _ => nomatch h

end Reading

namespace Json

theorem Numeral.toNumber?_ne_single (n : Numeral) (x : Binary) :
    n.toNumber? ≠ some (.single x) := by
  intro h
  simp only [toNumber?] at h
  split at h
  · split at h
    · simp at h
    · split at h <;> simp at h
  · split at h
    · simp at h
    · split at h
      · split at h <;> simp at h
      · simp at h

namespace Reader

/-- A property that what is read has at every depth: each part has it, and a whole has it once its
parts do. -/
structure Pervades (P : ℕ → Reading → Prop) : Prop where
  cut : ∀ {room}, P room .cut
  null : ∀ {room}, P room .null
  bool : ∀ {room} b, P room (.bool b)
  string : ∀ {room} s, P room (.string s)
  number : ∀ {room} (n : Numeral), P room (.number n.toNumber?)
  array : ∀ {room items}, (∀ item ∈ items, P (room - 1) item) → P room (atDepth room (.array items))
  object : ∀ {room} {members : List (Option String × Reading)},
    (∀ m ∈ members, P (room - 1) m.2) → P room (atDepth room (.object members))

namespace Pervades

variable {P : ℕ → Reading → Prop}

theorem literal (h : Pervades P) {room : ℕ} (w : List UInt8) {value : Reading}
    (hvalue : P room value) (s : List UInt8) : P room (Reader.literal w value s).1 := by
  rw [Reader.literal]
  split
  · exact hvalue
  · exact h.cut

theorem numeral (h : Pervades P) {room : ℕ} (negative : Bool) (s : List UInt8) :
    P room (Reader.number negative s).1 := by
  rw [Reader.number]
  split
  · exact h.number _
  · exact h.cut

/-- One induction on the fuel for the three scanners, which call one another with less of it. -/
theorem scanned (h : Pervades P) (fuel : ℕ) :
    (∀ room s, P room (value room fuel s).1) ∧
    (∀ room read s, (∀ item ∈ read, P room item) →
      ∀ item ∈ (items room read fuel s).1, P room item) ∧
    ∀ room read s, (∀ m ∈ read, P room m.2) → ∀ m ∈ (members room read fuel s).1, P room m.2 := by
  have hback : ∀ {α : Type} {Q : α → Prop} {l : List α}, (∀ a ∈ l, Q a) → ∀ a ∈ l.reverse, Q a :=
    fun hall a ha => hall a (List.mem_reverse.mp ha)
  induction fuel with
  | zero =>
    exact ⟨fun room s => h.cut,
      fun room read s hread => hback (List.forall_mem_cons.mpr ⟨h.cut, hread⟩),
      fun room read s hread => hback (List.forall_mem_cons.mpr ⟨h.cut, hread⟩)⟩
  | succ fuel ih =>
    obtain ⟨hvalue, hitems, hmembers⟩ := ih
    refine ⟨fun room s => ?_, fun room read s hread => ?_, fun room read s hread => ?_⟩
    · rw [value]
      split
      · exact h.cut
      · split_ifs
        · refine h.object ?_
          split
          · exact List.forall_mem_nil _
          · exact hmembers _ _ _ (List.forall_mem_nil _)
        · refine h.array ?_
          split
          · exact List.forall_mem_nil _
          · exact hitems _ _ _ (List.forall_mem_nil _)
        · split
          · exact h.cut
          · exact h.string _
        · exact h.numeral _ _
        · exact h.numeral _ _
        · exact h.literal _ (h.bool true) _
        · exact h.literal _ (h.bool false) _
        · exact h.literal _ h.null _
        · exact h.cut
    · -- Items: one value is read, and what is behind it decides whether more follow.
      have hitem := hvalue room s
      rw [items]
      split
      · rename_i item heq
        rw [heq] at hitem
        exact hback (List.forall_mem_cons.mpr ⟨hitem, hread⟩)
      · rename_i item rest heq
        rw [heq] at hitem
        have hread' : ∀ other ∈ item :: read, P room other :=
          List.forall_mem_cons.mpr ⟨hitem, hread⟩
        split
        · exact hitems _ _ _ hread'
        · exact hback hread'
        · exact hback (List.forall_mem_cons.mpr ⟨h.cut, hread'⟩)
    · -- Members: nothing is asked of a name, so a member has the property as its value does.
      have hmore : ∀ {name : Option String} {r : Reading}, P room r →
          ∀ m ∈ (name, r) :: read, P room m.2 :=
        fun hr => List.forall_mem_cons.mpr ⟨hr, hread⟩
      rw [members]
      split
      · split
        · exact hback (hmore h.cut)
        · split
          · rename_i rest _
            have hheld := hvalue room rest
            split
            · rename_i held heq
              rw [heq] at hheld
              exact hback (hmore hheld)
            · rename_i held rest' heq
              rw [heq] at hheld
              split
              · exact hmembers _ _ _ (hmore hheld)
              · exact hback (hmore hheld)
              · exact hback (List.forall_mem_cons.mpr ⟨h.cut, hmore hheld⟩)
          · exact hback (hmore h.cut)
      · exact hback (hmore h.cut)

/-- **What is read of a text has the property.** -/
theorem root (h : Pervades P) (s : List UInt8) : P Draft.depth (Draft.ofBytes s).root := by
  have hvalue := (h.scanned (s.length + 1)).1 Draft.depth s
  rw [Draft.ofBytes]
  split
  · rename_i root heq
    rw [heq] at hvalue
    exact hvalue
  · rename_i root rest heq
    rw [heq] at hvalue
    exact hvalue

end Pervades

theorem noSingle_atDepth (room : Nat) (value : Reading) :
    (atDepth room value).noSingle = value.noSingle := by
  rw [atDepth]
  split <;> rfl

theorem pervades_noSingle : Pervades fun _ r => r.noSingle = true where
  cut := rfl
  null := rfl
  bool _ := rfl
  string _ := rfl
  number n := by
    cases h : n.toNumber? with
    | none => rfl
    | some m =>
      cases m with
      | single x => exact absurd h (n.toNumber?_ne_single x)
      | natural n => rfl
      | negative n => rfl
      | double x => rfl
  array hitems := by
    rw [noSingle_atDepth, Reading.noSingle, Reading.noSingles_eq_all]
    exact List.all_eq_true.mpr hitems
  object hmembers := by
    rw [noSingle_atDepth, Reading.noSingle, Reading.noSingleMembers_eq_all]
    exact List.all_eq_true.mpr hmembers

end Reader

variable {j : Json} {s : List UInt8}

theorem SpelledBy.noSingle (h : j.SpelledBy s) : (Reading.ofJson j).noSingle = true := by
  have hroot := Reader.pervades_noSingle.root s
  rw [h] at hroot
  exact hroot

/-- A text that spells a value means its canonical form. -/
theorem SpelledBy.ofBytes? (h : j.SpelledBy s) : Json.ofBytes? s = some j.canonical := by
  rw [Json.ofBytes?, h]
  exact Reading.toJson?_ofJson j h.noSingle

/-- A decoder that is run on a text that spells a value is run on the value. -/
theorem SpelledBy.ofBytes {α : Type} (h : j.SpelledBy s) (d : Decoder α) :
    Decoder.ofBytes d s = d (.ofJson j) := by
  rw [Decoder.ofBytes, h]
  show (d (.ofJson j) >>= fun a => if true = true then pure a else throw .notJson) = _
  cases d (.ofJson j) <;> rfl

theorem ofBytes_json {value : Json} (h : Json.ofBytes? s = some value) :
    Decoder.ofBytes Decoder.json s = .ok value := by
  rw [Json.ofBytes?] at h
  split at h
  · rename_i hends
    show (Decoder.json (Draft.ofBytes s).root >>= fun value =>
      if (Draft.ofBytes s).ends then pure value else throw .notJson) = _
    rw [Decoder.json, h, hends]
    rfl
  · nomatch h

theorem sorted_of_ofBytes? {members : List (String × Json)}
    (h : Json.ofBytes? s = some (.object members)) : Sorted members := by
  rw [Json.ofBytes?] at h
  split at h
  · exact Reading.sorted_of_toJson? h
  · nomatch h

end Json

end ModelRelay
