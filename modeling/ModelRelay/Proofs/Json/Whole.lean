import ModelRelay.Proofs.Json.Records

/-!
# Decoders that see all of a text

Most decoders pass over what they have no field for, and a text may be at fault there. A decoder
that keeps every member instead, or reads its data whole before it chooses a type for it, succeeds
only on a reading without any fault (`SeesAll`), and **a text that such a decoder accepts spells a
value** (`SeesAll.exists_spelledBy`).

This is what turns a statement about bytes into one about values. Whoever knows that a body was
accepted may take the value that it spells, and needs no hypothesis that the body is JSON at all.
Decoders are put together from parts, and each way to do so has a lemma; a record sees all if its
step sees what it is given.
-/

set_option autoImplicit false

namespace ModelRelay

namespace Reading

mutual

/-- A reading that gives a value is the reading of one. -/
theorem exists_ofJson : ∀ {r : Reading} {value : Json}, r.toJson? = some value → ∃ j, r = ofJson j
  | .null, _, _ => ⟨.null, rfl⟩
  | .bool b, _, _ => ⟨.bool b, rfl⟩
  | .number (some n), _, _ => ⟨.number n, rfl⟩
  | .string (some s), _, _ => ⟨.string s, rfl⟩
  | .array items, _, h => by
    obtain ⟨values, hvalues, -⟩ := Option.map_eq_some_iff.mp h
    obtain ⟨js, rfl⟩ := exists_ofItems hvalues
    exact ⟨.array js, rfl⟩
  | .object members, _, h => by
    obtain ⟨values, hvalues, -⟩ := Option.map_eq_some_iff.mp h
    obtain ⟨js, rfl⟩ := exists_ofMembers hvalues
    exact ⟨.object js, rfl⟩

theorem exists_ofItems : ∀ {items : List Reading} {values : List Json},
    itemsToJson? items = some values → ∃ js, items = ofItems js
  | [], _, _ => ⟨[], rfl⟩
  | item :: rest, values, h => by
    rw [itemsToJson?] at h
    split at h
    · rename_i hitem hrest
      obtain ⟨j, rfl⟩ := exists_ofJson hitem
      obtain ⟨js, rfl⟩ := exists_ofItems hrest
      exact ⟨j :: js, rfl⟩
    · nomatch h

theorem exists_ofMembers : ∀ {members : List (Option String × Reading)}
    {values : List (String × Json)}, membersToJson? members = some values →
    ∃ js, members = ofMembers js
  | [], _, _ => ⟨[], rfl⟩
  | (some name, value) :: rest, values, h => by
    rw [membersToJson?] at h
    split at h
    · rename_i hvalue hrest
      obtain ⟨j, rfl⟩ := exists_ofJson hvalue
      obtain ⟨js, rfl⟩ := exists_ofMembers hrest
      exact ⟨(name, j) :: js, rfl⟩
    · nomatch h

end

end Reading

namespace Decoder

variable {α β : Type} {d : Decoder α}

/-- The decoder succeeds only where nothing is missing. -/
def SeesAll (d : Decoder α) : Prop :=
  ∀ {r : Reading} {a : α}, d r = .ok a → ∃ j, r = .ofJson j

theorem refuse_ne_ok {r : Reading} {a : α} : refuse r ≠ .ok a := by
  cases r with
  | number n => cases n <;> nofun
  | string s => cases s <;> nofun
  | cut | null | bool _ | array _ | object _ | deep _ => nofun

theorem seesAll_json : SeesAll json := by
  intro r value h
  rw [json] at h
  split at h
  · rename_i hvalue
    exact Reading.exists_ofJson hvalue
  · cases h

theorem seesAll_held (d : Decoder α) : SeesAll (held d) := by
  intro r a h
  rw [held] at h
  cases hvalue : r.toJson? with
  | none =>
    rw [hvalue] at h
    nomatch h
  | some value => exact Reading.exists_ofJson hvalue

theorem seesAll_text : SeesAll text := by
  intro r a h
  cases r with
  | string s =>
    cases s with
    | some s => exact ⟨.string s, rfl⟩
    | none => nomatch h
  | number n => cases n <;> nomatch h
  | cut | null | bool _ | array _ | object _ | deep _ => nomatch h

theorem seesAll_bool : SeesAll bool := by
  intro r a h
  cases r with
  | bool b => exact ⟨.bool b, rfl⟩
  | string s => cases s <;> nomatch h
  | number n => cases n <;> nomatch h
  | cut | null | array _ | object _ | deep _ => nomatch h

theorem seesAll_word : SeesAll word := by
  intro r a h
  obtain ⟨n, h, -⟩ := exists_of_map_ok h
  cases r with
  | number n =>
    cases n with
    | some n => exact ⟨.number n, rfl⟩
    | none => nomatch h
  | string s => cases s <;> nomatch h
  | cut | null | bool _ | array _ | object _ | deep _ => nomatch h

theorem seesAll_single : SeesAll single := by
  intro r a h
  cases r with
  | number n =>
    cases n with
    | some n => exact ⟨.number n, rfl⟩
    | none => nomatch h
  | string s => cases s <;> nomatch h
  | cut | null | bool _ | array _ | object _ | deep _ => nomatch h

theorem SeesAll.optional (h : SeesAll d) : SeesAll (optional d) := by
  intro r a hok
  by_cases hnull : r = .null
  · exact ⟨.null, hnull⟩
  · rw [Decoder.optional] at hok
    · obtain ⟨b, hb, -⟩ := exists_of_map_ok hok
      exact h hb
    · exact hnull

theorem SeesAll.list (h : SeesAll d) : SeesAll (list d) := by
  intro r as hok
  cases r with
  | array items =>
    have hall : List.Forall₂ (fun item a => d item = .ok a) items as := mapM_ok_iff.mp hok
    suffices hitems : ∃ js, items = Reading.ofItems js by
      obtain ⟨js, rfl⟩ := hitems
      exact ⟨.array js, rfl⟩
    clear hok
    induction hall with
    | nil => exact ⟨[], rfl⟩
    | cons hitem _ ih =>
      obtain ⟨j, rfl⟩ := h hitem
      obtain ⟨js, rfl⟩ := ih
      exact ⟨j :: js, rfl⟩
  | string s => cases s <;> nomatch hok
  | number n => cases n <;> nomatch hok
  | cut | null | bool _ | object _ | deep _ => nomatch hok

theorem seesAll_oneOf (names : List (String × α)) : SeesAll (oneOf names) := by
  intro r a h
  cases r with
  | string s =>
    cases s with
    | some s => exact ⟨.string s, rfl⟩
    | none => nomatch h
  | object members =>
    match members with
    | [] => nomatch h
    | (none, _) :: _ => nomatch h
    | (some name, r) :: rest =>
      obtain ⟨found, -, h⟩ := exists_of_bind_ok h
      dsimp only at h
      split at h
      · cases rest with
        | nil => exact ⟨.object [(name, .null)], rfl⟩
        | cons _ _ => nomatch h
      · obtain ⟨_, hrefuse, -⟩ := exists_of_bind_ok h
        exact absurd hrefuse refuse_ne_ok
  | number n => cases n <;> nomatch h
  | cut | null | bool _ | array _ | deep _ => nomatch h

/-- A record that passes over nothing. -/
theorem seesAll_object {put : β → String → Reading → Except Mismatch β}
    (hput : ∀ {s : β} {name : String} {r : Reading} {s' : β}, put s name r = .ok s' →
      ∃ j, r = .ofJson j) (start : β) : SeesAll (object put start) := by
  intro r s' h
  cases r with
  | object ms =>
    suffices hmembers : ∃ js, ms = Reading.ofMembers js by
      obtain ⟨js, rfl⟩ := hmembers
      exact ⟨.object js, rfl⟩
    have h : members put start ms = .ok s' := h
    induction ms generalizing start with
    | nil => exact ⟨[], rfl⟩
    | cons m rest ih =>
      obtain ⟨name, r⟩ := m
      cases name with
      | none => nomatch h
      | some name =>
        obtain ⟨mid, hmid, hrest⟩ := exists_of_bind_ok h
        obtain ⟨j, rfl⟩ := hput hmid
        obtain ⟨js, rfl⟩ := ih mid hrest hrest
        exact ⟨(name, j) :: js, rfl⟩
  | string s => cases s <;> nomatch h
  | number n => cases n <;> nomatch h
  | cut | null | bool _ | array _ | deep _ => nomatch h

/-- **A text that is accepted spells a value.** -/
theorem SeesAll.exists_spelledBy (h : SeesAll d) {s : List UInt8} {a : α}
    (hok : d.ofBytes s = .ok a) : ∃ j : Json, j.SpelledBy s := by
  obtain ⟨b, hb, hends⟩ := exists_of_bind_ok hok
  obtain ⟨j, hj⟩ := h hb
  refine ⟨j, ?_⟩
  have htrue : (Draft.ofBytes s).ends = true := by
    by_contra hnot
    rw [if_neg hnot] at hends
    nomatch hends
  rw [Json.SpelledBy, ← hj, ← htrue]

end Decoder

end ModelRelay
