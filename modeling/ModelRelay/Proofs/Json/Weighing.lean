import ModelRelay.Proofs.Json.Records
import ModelRelay.Proofs.Json.Size
import ModelRelay.Proofs.Json.Whole

/-!
# Decoders make no more of a reading than there is in it

A weight of what a decoder yields is bounded by the size of what it read (`Weighs`). Every way to
put decoders together keeps such a bound: lists add up the weights of their items, records those of
their slots, and a union adds one for its tag. **For a record it is enough to know its slots**
(`Fills.stepWeighs`), whatever else stands in the text and in whatever order.

The weight is the caller's to choose, as long as the parts of a value weigh no more together than
the value. It is the characters of the messages of a request that are weighed in the end, so that a
request cannot have more of them than its body has bytes.
-/

set_option autoImplicit false

namespace ModelRelay.Decoder

open Reading (sizeItems sizeMembers)

variable {α β γ : Type} {d : Decoder α} {w : α → ℕ}

/-- What a decoder yields weighs no more than what it read is large. -/
def Weighs (d : Decoder α) (w : α → ℕ) : Prop :=
  ∀ ⦃r : Reading⦄ ⦃a : α⦄, d r = .ok a → w a ≤ r.size

theorem weighs_text : Weighs text fun s => 1 + s.length := by
  intro r s h
  rw [text.eq_def] at h
  split at h
  · rw [← Except.ok.inj h]
    exact le_rfl
  · exact absurd h refuse_ne_ok

theorem weighs_json : Weighs json Json.size := by
  intro r j h
  rw [json] at h
  split at h
  · next value hvalue =>
    rw [← Except.ok.inj h]
    exact Reading.size_le_of_toJson? hvalue
  · cases h

theorem Weighs.optional (h : Weighs d w) : Weighs (optional d) fun a => a.elim 0 w := by
  intro r a hread
  rw [Decoder.optional.eq_def] at hread
  split at hread
  · rw [← Except.ok.inj hread]
    exact Nat.zero_le _
  · obtain ⟨b, hb, rfl⟩ := exists_of_map_ok hread
    exact h hb

theorem Weighs.map {f : α → β} {w : β → ℕ} (h : Weighs d fun a => w (f a)) :
    Weighs (fun r => f <$> d r) w := by
  intro r b hread
  obtain ⟨a, ha, rfl⟩ := exists_of_map_ok hread
  exact h ha

theorem Weighs.list (h : Weighs d w) : Weighs (list d) fun as => 1 + (as.map w).sum := by
  intro r as hread
  rw [Decoder.list.eq_def] at hread
  split at hread
  · next items =>
    have hall := mapM_ok_iff.mp hread
    rw [Reading.size, Reading.sizeItems_eq_sum]
    refine Nat.add_le_add_left ?_ 1
    clear hread
    induction hall with
    | nil => exact le_rfl
    | cons hitem _ ih =>
      rw [List.map_cons, List.map_cons, List.sum_cons, List.sum_cons]
      exact Nat.add_le_add (h hitem) ih
  · cases hread
  · exact absurd hread refuse_ne_ok

theorem Weighs.held (h : Weighs d w) : Weighs (held d) w := by
  intro r a hread
  rw [Decoder.held] at hread
  split at hread
  · cases hread
  · exact h (of_mapError_ok hread)

/-! ## Records

A record weighs what its slots do. It may be written as an object or, field by field, as an array.
-/

variable {put : β → String → Reading → Except Mismatch β} {weight : β → ℕ}

/-- A step of a record adds no more than the member that it reads. -/
def StepWeighs (put : β → String → Reading → Except Mismatch β) (weight : β → ℕ) : Prop :=
  ∀ ⦃s : β⦄ ⦃name : String⦄ ⦃r : Reading⦄ ⦃s' : β⦄, put s name r = .ok s' →
    weight s' ≤ weight s + r.size

namespace StepWeighs

theorem members (h : StepWeighs put weight) {ms : List (Option String × Reading)} {s s' : β}
    (hread : Decoder.members put s ms = .ok s') : weight s' ≤ weight s + sizeMembers ms := by
  induction ms generalizing s with
  | nil =>
    rw [← Except.ok.inj hread]
    exact Nat.le_add_right _ _
  | cons m rest ih =>
    obtain ⟨name, value⟩ := m
    cases name with
    | none => nomatch hread
    | some name =>
      obtain ⟨mid, hmid, hrest⟩ := exists_of_bind_ok hread
      have hstep := h hmid
      have htail := ih hrest
      rw [sizeMembers]
      omega

/-- A whole array adds no more than its items. Fields that may be left out take none of them. -/
theorem positions (h : StepWeighs put weight) {names : List (String × Bool)}
    {items : List Reading} {s s' : β} (hread : Decoder.positions put s names items = .ok s') :
    weight s' ≤ weight s + sizeItems items := by
  induction names generalizing items s with
  | nil =>
    cases items with
    | nil =>
      rw [← Except.ok.inj hread]
      exact Nat.le_add_right _ _
    | cons item rest => nomatch hread
  | cons field names ih =>
    obtain ⟨name, optional⟩ := field
    cases items with
    | nil =>
      cases optional with
      | true => exact ih hread
      | false => nomatch hread
    | cons item rest =>
      obtain ⟨mid, hmid, hrest⟩ := exists_of_bind_ok hread
      have hstep := h hmid
      have htail := ih hrest
      rw [sizeItems]
      omega

theorem object (h : StepWeighs put weight) {s s' : β} {r : Reading}
    (hread : Decoder.object put s r = .ok s') : 1 + weight s' ≤ weight s + r.size := by
  rw [Decoder.object.eq_def] at hread
  split at hread
  · have hmembers := h.members hread
    rw [Reading.size]
    omega
  · cases hread
  · exact absurd hread refuse_ne_ok

theorem record (h : StepWeighs put weight) {fields : List (String × Bool)} {s s' : β} {r : Reading}
    (hread : Decoder.record fields put s r = .ok s') : 1 + weight s' ≤ weight s + r.size := by
  rw [Decoder.record.eq_def] at hread
  split at hread
  · have hmembers := h.members hread
    rw [Reading.size]
    omega
  · have hpositions := h.positions hread
    rw [Reading.size]
    omega
  · cases hread
  · exact absurd hread refuse_ne_ok

end StepWeighs

variable {name : String} {slot : β → Option α}

/-- A slot weighs what its value does. -/
theorem Fills.stepWeighs (h : Fills put name d slot) (hd : Weighs d w) :
    StepWeighs put fun s => (slot s).elim 0 w := by
  intro s other r s' hput
  dsimp only
  by_cases hname : other = name
  · subst hname
    obtain ⟨hfree, a, ha, hfilled⟩ := h.filled hput
    rw [hfree, hfilled, Option.elim_none, Option.elim_some, Nat.zero_add]
    exact hd ha
  · rw [h.kept hname hput]
    exact Nat.le_add_right _ _

/-- No member goes into two slots. -/
theorem Fills.stepWeighs_add (h : Fills put name d slot) (hd : Weighs d w) {other : String}
    {d' : Decoder γ} {slot' : β → Option γ} {w' : γ → ℕ} (h' : Fills put other d' slot')
    (hd' : Weighs d' w') (hne : name ≠ other) :
    StepWeighs put fun s => (slot s).elim 0 w + (slot' s).elim 0 w' := by
  intro s field r s' hput
  dsimp only
  by_cases hname : field = name
  · have hstep := h.stepWeighs hd hput
    dsimp only at hstep
    rw [h'.kept (hname ▸ hne) hput]
    omega
  · have hstep := h'.stepWeighs hd' hput
    dsimp only at hstep
    rw [h.kept hname hput]
    omega

/-! ## Unions

The member that names the variant is read and dropped, so that it pays for the one that the union
adds. -/

/-- What is left behind the tag is smaller than what was there. The induction keeps apart whether
the tag has been met. -/
theorem size_of_tagMembers {t : Tags} {tag : Option String}
    {others ms : List (Option String × Reading)} {found : String} {rest : Reading}
    (h : tagMembers t tag others ms = .ok (found, rest)) :
    (if tag.isSome then 0 else 1) + rest.size ≤ 1 + sizeMembers others + sizeMembers ms := by
  induction ms generalizing tag others with
  | nil =>
    obtain ⟨name, hname, h⟩ := exists_of_bind_ok h
    obtain ⟨-, rfl⟩ := Prod.mk.inj (Except.ok.inj h)
    rw [need_ok hname, Reading.size, Reading.sizeMembers_reverse, Option.isSome_some, if_pos rfl,
      Nat.zero_add, sizeMembers, Nat.add_zero]
  | cons m more ih =>
    obtain ⟨name, r⟩ := m
    cases name with
    | none => cases h
    | some name =>
      rw [sizeMembers]
      by_cases htype : name = "type"
      · subst htype
        -- The tag is dropped, and with it all that its member weighs.
        rw [tagMembers] at h
        cases tag with
        | some held => cases h
        | none =>
        obtain ⟨read, -, h⟩ := exists_of_bind_ok h
        have hrest := ih h
        rw [Option.isSome_some, if_pos rfl] at hrest
        rw [Option.isSome_none, if_neg Bool.false_ne_true]
        omega
      · rw [tagMembers] at h
        · split at h
          · cases h
          · have hrest := ih h
            rw [sizeMembers] at hrest
            omega
        · exact htype

/-- The tag weighs at least one. -/
theorem Weighs.tagged {t : Tags} {body : String → Decoder α} (h : ∀ tag, Weighs (body tag) w) :
    Weighs (tagged t body) fun a => 1 + w a := by
  intro r a hread
  have hrest : ∀ {tag : String} {rest : Reading},
      (body tag rest).mapError Mismatch.settled = .ok a → w a ≤ rest.size :=
    fun hbody => h _ (of_mapError_ok hbody)
  match r, hread with
  | .object ms, hread =>
    obtain ⟨⟨tag, rest⟩, htag, hbody⟩ := exists_of_bind_ok hread
    have hmembers := size_of_tagMembers htag
    rw [Option.isSome_none, if_neg Bool.false_ne_true, sizeMembers, Nat.add_zero] at hmembers
    exact (Nat.add_le_add_left (hrest hbody) 1).trans hmembers
  | .array (first :: more), hread =>
    obtain ⟨tag, -, hread⟩ := exists_of_bind_ok hread
    dsimp only at hread
    split at hread
    · cases hread
    have hmore := hrest hread
    have hfirst := first.size_pos
    rw [Reading.size] at hmore
    show 1 + w a ≤ 1 + sizeItems (first :: more)
    rw [sizeItems]
    omega
  | .array [], hread | .deep _, hread => cases hread
  | .cut, hread | .null, hread | .bool _, hread | .number _, hread | .string _, hread =>
    obtain ⟨_, hrefuse, -⟩ := exists_of_bind_ok hread
    exact absurd hrefuse refuse_ne_ok

end ModelRelay.Decoder
