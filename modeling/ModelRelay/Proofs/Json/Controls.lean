import ModelRelay.Json.Printer
import ModelRelay.Proofs.Json.Numerals

/-!
# Printed values have no control characters

**No control character is in the text of a value** (`hasNoControl_print`), so the text never breaks
a line of what it is put into, whatever is in the strings of the value. Within a string they are
escaped, and everywhere else the printer writes digits, letters and punctuation only.

The property is of lists of characters and passes through everything that the printer does with
them: texts are put in a row, joined by commas, cut and padded with zeros. So it is enough to look
at what a single character is escaped to and at what the digits of a number are made of. It is what
lets an event carry a value on one line of a stream.
-/

set_option autoImplicit false

namespace ModelRelay

/-- No control character below U+0020 is among the characters. -/
def HasNoControl (cs : List Char) : Prop :=
  ∀ c ∈ cs, 0x20 ≤ c.toNat

-- The instance is named: the search may find the one that runs through every character there is.
instance (cs : List Char) : Decidable (HasNoControl cs) :=
  List.decidableBAll (fun c : Char => 0x20 ≤ c.toNat) cs

namespace HasNoControl

variable {cs ds : List Char}

@[simp]
theorem nil : HasNoControl [] :=
  List.forall_mem_nil _

@[simp]
theorem cons_iff {c : Char} : HasNoControl (c :: cs) ↔ 0x20 ≤ c.toNat ∧ HasNoControl cs :=
  List.forall_mem_cons

@[simp]
theorem append_iff : HasNoControl (cs ++ ds) ↔ HasNoControl cs ∧ HasNoControl ds :=
  List.forall_mem_append

theorem subset (h : HasNoControl ds) (hsub : cs ⊆ ds) : HasNoControl cs :=
  fun c hc => h c (hsub hc)

theorem flatMap {α : Type} {f : α → List Char} (h : ∀ a, HasNoControl (f a)) (as : List α) :
    HasNoControl (as.flatMap f) := by
  intro c hc
  obtain ⟨a, -, hc⟩ := List.mem_flatMap.mp hc
  exact h a c hc

theorem intercalate {texts : List (List Char)} (hseparator : HasNoControl cs)
    (h : ∀ text ∈ texts, HasNoControl text) : HasNoControl (cs.intercalate texts) := by
  induction texts with
  | nil => exact nil
  | cons text rest ih =>
    obtain ⟨htext, hrest⟩ := List.forall_mem_cons.mp h
    cases rest with
    | nil =>
      rw [List.intercalate_singleton]
      exact htext
    | cons next more =>
      rw [List.intercalate_cons_cons, append_iff, append_iff]
      exact ⟨⟨htext, hseparator⟩, ih hrest⟩

end HasNoControl

/-! ## Numbers

A number is digits, and at most a point, an exponent and signs. -/

theorem hasNoControl_toDigits (n : ℕ) : HasNoControl (Nat.toDigits 10 n) := by
  obtain ⟨ds, hds, hdecimal⟩ := Json.Numeral.exists_isDecimal n
  rw [hds]
  intro c hc
  obtain ⟨d, hd, rfl⟩ := List.mem_map.mp hc
  have hten : d < 10 := hdecimal.below d hd
  interval_cases d <;> decide

theorem hasNoControl_repr (n : ℕ) : HasNoControl n.repr.toList := by
  rw [Nat.repr_eq_ofList_toDigits, String.toList_ofList]
  exact hasNoControl_toDigits n

namespace Decimal

variable {digits : List Char}

theorem hasNoControl_zeros (n : ℤ) : HasNoControl (zeros n) := by
  intro c hc
  rw [List.eq_of_mem_replicate hc]
  decide

theorem hasNoControl_positional (hdigits : HasNoControl digits) (point : ℤ) :
    HasNoControl (positional digits point ['.', '0']) := by
  have htake : HasNoControl (digits.take point.toNat) := hdigits.subset (List.take_subset _ _)
  have hdrop : HasNoControl (digits.drop point.toNat) := hdigits.subset (List.drop_subset _ _)
  rw [positional]
  split_ifs
  · simp [hdigits, hasNoControl_zeros]
  · simp [htake, hdrop]
  · simp [hdigits, hasNoControl_zeros]

theorem hasNoControl_scientific (hdigits : HasNoControl digits) (exponent : ℤ) :
    HasNoControl (scientific digits exponent) := by
  have hletter : 0x20 ≤ 'e'.toNat := by decide
  have hsign : 0x20 ≤ (if exponent < 0 then '-' else '+').toNat := by
    split_ifs <;> decide
  rw [scientific.eq_def]
  dsimp only
  rw [HasNoControl.append_iff, HasNoControl.cons_iff, HasNoControl.cons_iff]
  refine ⟨?_, hletter, hsign, hasNoControl_toDigits _⟩
  split
  · simp only [HasNoControl.cons_iff] at hdigits ⊢
    exact ⟨hdigits.1, by decide, hdigits.2⟩
  · exact hdigits

end Decimal

theorem Binary.hasNoControl_withSign (negative : Bool) {magnitude : List Char}
    (h : HasNoControl magnitude) : HasNoControl (withSign negative magnitude).toList := by
  rw [withSign, String.toList_ofList]
  cases negative with
  | false => exact h
  | true => exact HasNoControl.cons_iff.mpr ⟨by decide, h⟩

theorem Binary.hasNoControl_toJsonText? {l : NumberLayout} {x : Binary} {text : String}
    (h : x.toJsonText? l = some text) : HasNoControl text.toList := by
  rw [toJsonText?.eq_def] at h
  split at h
  · nomatch h
  · rw [← Option.some.inj h]
    exact hasNoControl_withSign _ (by decide)
  · rw [← Option.some.inj h]
    apply hasNoControl_withSign
    split_ifs
    · exact Decimal.hasNoControl_positional (hasNoControl_toDigits _) _
    · exact Decimal.hasNoControl_scientific (hasNoControl_toDigits _) _

namespace Json

theorem hasNoControl_null : HasNoControl "null".toList := by
  decide

/-- A number that cannot be written is printed as `null`, which is as good. -/
theorem Number.hasNoControl_print (n : Number) : HasNoControl n.print.toList := by
  have hdouble : ∀ (l : NumberLayout) (x : Binary),
      HasNoControl ((x.toJsonText? l).getD "null").toList := by
    intro l x
    cases h : x.toJsonText? l with
    | none => exact hasNoControl_null
    | some text => exact Binary.hasNoControl_toJsonText? h
  cases n with
  | natural n => exact hasNoControl_repr n
  | negative n =>
    rw [print, String.toList_append]
    exact HasNoControl.append_iff.mpr ⟨by decide, hasNoControl_repr n⟩
  | double x => exact hdouble .double x
  | single x => exact hdouble .single x

/-! ## Values

The escapes of the control characters are written with letters and digits, which is the one case
where it matters what the printer does with a character. -/

/-- What stands for a character has none: a control character is escaped, and any other one stands
for itself or behind a backslash. -/
theorem hasNoControl_escapeChar (c : Char) : HasNoControl (escapeChar c) := by
  have hhex : ∀ n < 16, 0x20 ≤ (hexDigit n).toNat := by decide
  rw [escapeChar]
  split_ifs with _ _ _ _ _ _ _ hcontrol
  any_goals decide
  · have hhigh := hhex (c.toNat / 16) (by omega)
    have hlow := hhex (c.toNat % 16) (by omega)
    simp [hhigh, hlow]
  · exact HasNoControl.cons_iff.mpr ⟨not_lt.mp hcontrol, .nil⟩

theorem hasNoControl_quote (s : String) : HasNoControl (quote s).toList := by
  rw [quote, String.toList_ofList, HasNoControl.cons_iff, HasNoControl.append_iff]
  exact ⟨by decide, HasNoControl.flatMap hasNoControl_escapeChar _, by decide⟩

mutual

/-- **No control character is in the text of a value.** -/
theorem hasNoControl_print : ∀ j : Json, HasNoControl j.print.toList
  | .null => hasNoControl_null
  | .bool true => by decide
  | .bool false => by decide
  | .number n => n.hasNoControl_print
  | .string s => hasNoControl_quote s
  | .array items => by
    rw [print, String.toList_append, String.toList_append, String.toList_intercalate,
      HasNoControl.append_iff, HasNoControl.append_iff]
    exact ⟨⟨by decide, .intercalate (by decide) (hasNoControl_printItems items)⟩, by decide⟩
  | .object members => by
    rw [print, String.toList_append, String.toList_append, String.toList_intercalate,
      HasNoControl.append_iff, HasNoControl.append_iff]
    exact ⟨⟨by decide, .intercalate (by decide) (hasNoControl_printMembers members)⟩, by decide⟩

theorem hasNoControl_printItems : ∀ items : List Json,
    ∀ text ∈ (printItems items).map String.toList, HasNoControl text
  | [] => List.forall_mem_nil _
  | item :: rest =>
    List.forall_mem_cons.mpr ⟨hasNoControl_print item, hasNoControl_printItems rest⟩

theorem hasNoControl_printMembers : ∀ members : List (String × Json),
    ∀ text ∈ (printMembers members).map String.toList, HasNoControl text
  | [] => List.forall_mem_nil _
  | (name, value) :: rest => by
    refine List.forall_mem_cons.mpr ⟨?_, hasNoControl_printMembers rest⟩
    rw [String.toList_append, String.toList_append, HasNoControl.append_iff,
      HasNoControl.append_iff]
    exact ⟨⟨hasNoControl_quote name, by decide⟩, hasNoControl_print value⟩

end

end Json

end ModelRelay
