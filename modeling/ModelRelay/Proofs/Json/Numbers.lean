import ModelRelay.Proofs.Decimal.Shortest
import ModelRelay.Proofs.Json.Numerals

/-!
# Printed numbers

The text of every number is a numeral again (`Number.exists_writtenAs`), whichever notation it is
printed in. For whole numbers it stands for the same number. For the others that much is not
promised; but **no number is printed as one that lies beyond the doubles**. The greatest doubles
leave no room for the errors of scaling, so for the last three of them the scaling is carried out.

A numeral is given by its digits, so the argument is about lists of digits: which of them the
printer puts before the point, and that the parts it makes are parts of a numeral of the grammar.
What number the parts stand for is then read off `toNumber?`, in two notations that are read in two
ways. With the point among the digits, nothing is scaled up and no bound is needed. With an
exponent, the reader scales the digits as one whole number, and the decimal has to be one that it
can scale (`IsReadable`).

That a double is read as another double is no accident of the proof. The reader rounds twice, and
what it reads for the shortest decimal can be a neighbour of the number that was printed.
-/

set_option autoImplicit false

namespace ModelRelay.Json

open Binary Numeral

/-- The text is a numeral, and this is the number that it stands for. -/
def Number.WrittenAs (n : Number) (text : String) : Prop :=
  ∃ numeral : Numeral, numeral.IsValid ∧
    text = withSign numeral.negative numeral.write ∧ numeral.toNumber? = some n

/-- A whole number of 64 bits is printed digit by digit, and all of its digits go into the
significand. -/
theorem WrittenAs.natural {n : ℕ} (hn : n < 0x10000000000000000) :
    Number.WrittenAs (.natural n) n.repr := by
  obtain ⟨ds, hds, hdecimal⟩ := exists_isDecimal n
  refine ⟨⟨false, ds, [], none⟩, ⟨hdecimal.below, hdecimal.leading, nofun, nofun⟩, ?_, ?_⟩
  · rw [Nat.repr_eq_ofList_toDigits, hds]
    simp [withSign, write]
  · obtain ⟨m, more, left, hgrow, -, -, -, hall⟩ :=
      grow_spec 0 (show 0 < _ by decide) hdecimal.below
    rw [hdecimal.value_eq, Nat.zero_mul, Nat.zero_add] at hall
    obtain ⟨rfl, rfl⟩ := hall hn
    simp [toNumber?, hgrow]

/-- A whole number below zero is printed digit by digit too, down to the least that 64 bits with a
sign can hold. -/
theorem WrittenAs.negative {n : ℕ} (hpos : 0 < n) (hn : n ≤ 0x8000000000000000) :
    Number.WrittenAs (.negative n) ("-" ++ n.repr) := by
  obtain ⟨ds, hds, hdecimal⟩ := exists_isDecimal n
  refine ⟨⟨true, ds, [], none⟩, ⟨hdecimal.below, hdecimal.leading, nofun, nofun⟩, ?_, ?_⟩
  · rw [Nat.repr_eq_ofList_toDigits, hds, withSign, if_pos rfl, ← String.toList_inj]
    simp [write]
  · obtain ⟨m, more, left, hgrow, -, -, -, hall⟩ :=
      grow_spec 0 (show 0 < _ by decide) hdecimal.below
    rw [hdecimal.value_eq, Nat.zero_mul, Nat.zero_add] at hall
    obtain ⟨rfl, rfl⟩ := hall (by omega)
    simp [toNumber?, hgrow, hpos, hn]

/-- **With the point among them or beside them, digits are whole ones and a fraction.** Zeros fill
what lies between the digits and the point, so neither part is empty, and the whole ones are few
enough for a significand. -/
theorem exists_positional_eq {ds : List ℕ} {n : ℕ} {point : ℤ} (hds : IsDecimal ds n)
    (hpoint : point ≤ 16) (hzero : n = 0 → point ≤ 1) :
    ∃ whole fraction : List ℕ, (∀ d ∈ whole, d < 10) ∧
      (whole = [0] ∨ ∃ d rest, whole = d :: rest ∧ 0 < d) ∧ whole.length ≤ 19 ∧
      (∀ d ∈ fraction, d < 10) ∧ fraction ≠ [] ∧
      Decimal.positional (ds.map Nat.digitChar) point ['.', '0']
        = whole.map Nat.digitChar ++ '.' :: fraction.map Nat.digitChar := by
  have hzeros : ∀ k : ℤ, Decimal.zeros k = (List.replicate k.toNat 0).map Nat.digitChar := by
    intro k
    rw [List.map_replicate]
    rfl
  have hreplicate : ∀ k : ℕ, ∀ d ∈ List.replicate k 0, d < 10 := by
    intro k d hd
    rw [List.eq_of_mem_replicate hd]
    decide
  -- The point stands behind the digits, among them, or before them.
  rw [Decimal.positional, List.length_map]
  split_ifs with hall hsome
  · refine ⟨ds ++ List.replicate (point - ds.length).toNat 0, [0], ?_, ?_, ?_, by decide,
      by decide, ?_⟩
    · exact fun d hd => (List.mem_append.mp hd).elim (hds.below d) (hreplicate _ d)
    · rcases hds.leading with rfl | ⟨d, rest, rfl, hd⟩
      · have hp : point ≤ 1 := hzero hds.value_eq.symm
        left
        rw [show (point - (([0] : List ℕ).length : ℤ)).toNat = 0 by
          rw [List.length_singleton]; omega]
        rfl
      · exact Or.inr ⟨d, _, rfl, hd⟩
    · rw [List.length_append, List.length_replicate]
      omega
    · rw [List.map_append, hzeros]
      rfl
  · obtain ⟨d, rest, rfl⟩ := List.exists_cons_of_ne_nil hds.ne_nil
    obtain ⟨k, hk⟩ : ∃ k, point.toNat = k + 1 := ⟨point.toNat - 1, by omega⟩
    refine ⟨(d :: rest).take point.toNat, (d :: rest).drop point.toNat,
      fun d hd => hds.below d (List.mem_of_mem_take hd), ?_, ?_,
      fun d hd => hds.below d (List.mem_of_mem_drop hd), ?_, ?_⟩
    · right
      rcases hds.leading with hsingle | ⟨d', rest', heq, hd⟩
      · rw [hsingle, List.length_singleton] at hall
        omega
      · obtain ⟨rfl, rfl⟩ := List.cons.inj heq
        rw [hk, List.take_succ_cons]
        exact ⟨d, _, rfl, hd⟩
    · rw [List.length_take]
      omega
    · intro hnil
      have hlen := congrArg List.length hnil
      rw [List.length_drop, List.length_nil] at hlen
      omega
    · rw [List.map_take, List.map_drop]
  · refine ⟨[0], List.replicate (-point).toNat 0 ++ ds, by decide, Or.inl rfl, by decide, ?_, ?_,
      ?_⟩
    · exact fun d hd => (List.mem_append.mp hd).elim (hreplicate _ d) (hds.below d)
    · exact fun hnil => hds.ne_nil (List.append_eq_nil_iff.mp hnil).2
    · rw [List.map_append, hzeros]
      rfl

/-- Digits in positional notation. -/
theorem exists_positional (negative : Bool) {ds : List ℕ} {n : ℕ} {point : ℤ}
    (hds : IsDecimal ds n) (hpoint : point ≤ 16) (hzero : n = 0 → point ≤ 1) :
    ∃ y, Number.WrittenAs (.double y)
      (withSign negative (Decimal.positional (ds.map Nat.digitChar) point ['.', '0'])) := by
  obtain ⟨whole, fraction, hwhole, hleading, hlength, hfraction, hne, htext⟩ :=
    exists_positional_eq hds hpoint hzero
  obtain ⟨y, hy⟩ := toNumber?_of_fraction negative hwhole hlength hfraction hne
  refine ⟨y, ⟨negative, whole, fraction, none⟩, ⟨hwhole, hleading, hfraction, nofun⟩, ?_, hy⟩
  rw [htext, write, List.isEmpty_eq_false_iff.mpr hne, if_neg Bool.false_ne_true, List.append_nil]

/-- A decimal that reads as a double: it is below the doubles' limit, with room for the errors of
two roundings, or its digits fit 64 bits and it turns out to be one. -/
def IsReadable (d : Decimal) : Prop :=
  d.toRat * (1 + 1 / 2 ^ 53) ^ 2 < limit .double ∨
    d.digits < 0x10000000000000000 ∧ d.toRat < 10 ^ 309 ∧
      ∀ negative, ∃ y, double? negative d.digits d.exponent = some y

theorem IsReadable.toRat_lt {d : Decimal} (h : IsReadable d) : d.toRat < 10 ^ 309 := by
  rcases h with h | ⟨-, h, -⟩
  · have herror : (1 : ℚ) ≤ (1 + 1 / 2 ^ 53) ^ 2 := one_le_pow₀ (by norm_num)
    exact (le_mul_of_one_le_right d.toRat_nonneg herror).trans_lt (h.trans limit_double.2)
  · exact h

/-- **What is readable is read**, also where the significand does not take in all of its digits:
what is left out makes it smaller only. -/
theorem IsReadable.exists_double? {d : Decimal} (h : IsReadable d) (negative : Bool) {m left : ℕ}
    (hm : m < 0x10000000000000000) (hle : m * 10 ^ left ≤ d.digits)
    (hall : d.digits < 0x10000000000000000 → m = d.digits ∧ left = 0) :
    ∃ y, double? negative m (d.exponent + left) = some y := by
  rcases h with h | ⟨hfits, -, hread⟩
  · refine Numeral.exists_double? negative hm (lt_of_le_of_lt ?_ h)
    have hle' : (m : ℚ) * 10 ^ left ≤ d.digits := by exact_mod_cast hle
    rw [Decimal.toRat, zpow_add₀ (by norm_num), zpow_natCast]
    calc (m : ℚ) * (10 ^ d.exponent * 10 ^ left) * (1 + 1 / 2 ^ 53) ^ 2
        = m * 10 ^ left * 10 ^ d.exponent * (1 + 1 / 2 ^ 53) ^ 2 := by ring
      _ ≤ (d.digits : ℚ) * 10 ^ d.exponent * (1 + 1 / 2 ^ 53) ^ 2 := by gcongr
  · obtain ⟨rfl, rfl⟩ := hall hfits
    rw [Nat.cast_zero, add_zero]
    exact hread negative

/-- Digits in scientific notation. -/
theorem exists_scientific (negative : Bool) {ds : List ℕ} {d : Decimal}
    (hds : IsDecimal ds d.digits) (hpos : 0 < d.digits) (hread : IsReadable d) :
    ∃ y, Number.WrittenAs (.double y)
      (withSign negative
        (Decimal.scientific (ds.map Nat.digitChar) (ds.length + d.exponent - 1))) := by
  obtain ⟨first, rest, rfl⟩ := List.exists_cons_of_ne_nil hds.ne_nil
  obtain ⟨hfirst, hrest⟩ := List.forall_mem_cons.mp hds.below
  obtain ⟨exponent, hexponent⟩ : ∃ k : ℤ, k = (first :: rest).length + d.exponent - 1 := ⟨_, rfl⟩
  rw [← hexponent]
  rw [List.length_cons] at hexponent
  obtain ⟨es, hes, hdecimal⟩ := exists_isDecimal exponent.natAbs
  obtain ⟨below, hbelow⟩ : ∃ below, below = decide (exponent < 0) := ⟨_, rfl⟩
  have hsigned : (if below then -(value es : ℤ) else value es) = exponent := by
    rw [hdecimal.value_eq, hbelow]
    split_ifs with h
    · have := of_decide_eq_true h
      omega
    · have := of_decide_eq_false (Bool.not_eq_true _ ▸ h)
      omega
  have hleading : [first] = [0] ∨ ∃ d rest, [first] = d :: rest ∧ 0 < d := by
    rcases Nat.eq_zero_or_pos first with rfl | hpos
    · exact Or.inl rfl
    · exact Or.inr ⟨first, [], rfl, hpos⟩
  have hvalid : IsValid ⟨negative, [first], rest, some (below, es)⟩ := by
    refine ⟨by simpa using hfirst, hleading, hrest, ?_⟩
    intro below' digits h
    obtain ⟨-, rfl⟩ := Prod.mk.inj (Option.some.inj h)
    exact ⟨hdecimal.ne_nil, hdecimal.below⟩
  have htext : Decimal.scientific ((first :: rest).map Nat.digitChar) exponent
      = write ⟨negative, [first], rest, some (below, es)⟩ := by
    rw [hbelow]
    cases rest <;> by_cases h : exponent < 0 <;> simp [Decimal.scientific, write, hes, h]
  obtain ⟨y, hy⟩ : ∃ y, toNumber? ⟨negative, [first], rest, some (below, es)⟩
      = some (.double y) := by
    by_cases hshort : value es < 0x80000000
    · obtain ⟨m, left, hm, hle, hall, hnumber⟩ :=
        toNumber?_of_exponent negative below hfirst hrest hshort
      rw [hds.value_eq] at hle hall
      obtain ⟨y, hy⟩ := hread.exists_double? negative hm hle hall
      refine ⟨y, ?_⟩
      rw [hnumber, hsigned, show exponent - rest.length + left = d.exponent + left by omega, hy]
      rfl
    · -- The leading digit alone shows that no number is as large as that.
      have hneg : exponent < 0 := by
        by_contra hnonneg
        have hlarge : 309 ≤ exponent := by
          rw [hdecimal.value_eq] at hshort
          omega
        have hpow : (10 : ℚ) ^ rest.length ≤ d.digits := by exact_mod_cast hds.pow_le hpos
        have hbound : (10 : ℚ) ^ (309 : ℤ) ≤ d.toRat := by
          calc (10 : ℚ) ^ (309 : ℤ) ≤ 10 ^ exponent := zpow_le_zpow_right₀ (by norm_num) hlarge
            _ = 10 ^ rest.length * 10 ^ d.exponent := by
              rw [← zpow_natCast, ← zpow_add₀ (by norm_num)]
              congr 1
              omega
            _ ≤ d.toRat := by
              rw [Decimal.toRat]
              gcongr
        exact absurd (hbound.trans_lt hread.toRat_lt) (lt_irrefl _)
      rw [hbelow, decide_eq_true hneg]
      exact toNumber?_of_far negative (not_lt.mp hshort)
  exact ⟨y, _, hvalid, by rw [htext], hy⟩

/-! ## The printed number

What is left is that the decimals of numbers are readable. A decimal lies at most half a unit beyond
its number, and the last unit of a double is so small beside the limit that the errors of scaling
fit between the two, except at the very end. -/

/-- A number that JSON can write: within 64 bits, or finite and of its format. -/
def Number.IsSound : Number → Prop
  | .natural n => n < 0x10000000000000000
  | .negative n => 0 < n ∧ n ≤ 0x8000000000000000
  | .double x => x.IsOf .double ∧ x.isInfinite = false
  | .single x => x.IsOf .single ∧ x.isInfinite = false

/-- A single that can be written can be as the double of its value. -/
theorem Number.IsSound.widen {n : Number} (h : n.IsSound) : n.widen.IsSound := by
  cases n with
  | natural n => exact h
  | negative n => exact h
  | double x => exact h
  | single x =>
    exact ⟨isOf_convert isSound_double x,
      isInfinite_convert isSound_double h.2 (h.1.magnitude_lt.trans_le limit_single_le)⟩

/-- The error of two roundings is less than one part in ten. -/
theorem two_roundings_le : (1 + 1 / 2 ^ 53 : ℚ) ^ 2 ≤ 11 / 10 := by norm_num

/-- The three greatest doubles, whose decimals lie too close to the limit for a general argument. -/
theorem isReadable_greatest {m : ℕ} (hm : m < 2 ^ 53) (hgreat : 2 ^ 53 - 4 < m) :
    IsReadable (Decimal.shortest .double m 971) := by
  have hread : ∀ digits : ℕ, digits < 10 ^ 17 →
      (∀ negative, (mul .double (Binary.ofNat .double negative digits)
        (powerOfTen .double 292)).isInfinite = false) → IsReadable ⟨digits, 292⟩ := by
    intro digits hdigits hfinite
    refine Or.inr ⟨hdigits.trans (by decide), ?_, fun negative =>
      ⟨_, scale_up (show (292 : ℤ).natAbs ≤ 308 by decide) (show (0 : ℤ) ≤ 292 by decide)
        (hfinite negative)⟩⟩
    have hdigits' : (digits : ℚ) < 10 ^ 17 := by exact_mod_cast hdigits
    calc (digits : ℚ) * 10 ^ (292 : ℤ) < 10 ^ 17 * 10 ^ (292 : ℤ) := by gcongr
      _ = 10 ^ 309 := by
        rw [← zpow_natCast, ← zpow_natCast, ← zpow_add₀ (by norm_num)]
        rfl
  obtain rfl | rfl | rfl : m = 2 ^ 53 - 1 ∨ m = 2 ^ 53 - 2 ∨ m = 2 ^ 53 - 3 := by omega
  · rw [show Decimal.shortest .double (2 ^ 53 - 1) 971 = ⟨17976931348623157, 292⟩ by
      decide +kernel]
    exact hread _ (by decide) (by decide +kernel)
  · rw [show Decimal.shortest .double (2 ^ 53 - 2) 971 = ⟨17976931348623155, 292⟩ by
      decide +kernel]
    exact hread _ (by decide) (by decide +kernel)
  · rw [show Decimal.shortest .double (2 ^ 53 - 3) 971 = ⟨17976931348623153, 292⟩ by
      decide +kernel]
    exact hread _ (by decide) (by decide +kernel)

/-- **The decimal of a double is readable.** Below the greatest exponent there is room for both
errors twice over; at the greatest it shrinks with each number, and is gone at the last three. -/
theorem isReadable_shortest_double {m : ℕ} {e : ℤ} (hm : m < 2 ^ 53) (he : e ≤ 971) :
    IsReadable (Decimal.shortest .double m e) := by
  have hle := Decimal.toRat_shortest_le .double m e
  have hpos : (0 : ℚ) < 2 ^ (970 : ℤ) := by positivity
  have hlimit : limit .double = (2 ^ 53 - 1 / 2) * (2 ^ (970 : ℤ) * 2) := by
    rw [limit, ← zpow_add_one₀ two_ne_zero]
    rfl
  rcases lt_or_ge e 971 with hlt | hge
  · left
    have hm' : (m : ℚ) + 1 / 2 ≤ 2 ^ 53 := by
      have hsucc : (m : ℚ) + 1 ≤ 2 ^ 53 := by exact_mod_cast hm
      linarith
    have hpow : (2 : ℚ) ^ e ≤ 2 ^ (970 : ℤ) := zpow_le_zpow_right₀ one_le_two (by omega)
    calc (Decimal.shortest .double m e).toRat * (1 + 1 / 2 ^ 53) ^ 2
        ≤ (2 ^ 53 * 2 ^ (970 : ℤ)) * (11 / 10) := by
          refine mul_le_mul (hle.trans ?_) two_roundings_le (by positivity) (by positivity)
          gcongr
      _ < limit .double := by
        rw [hlimit]
        generalize (2 : ℚ) ^ (970 : ℤ) = unit at hpos
        linarith
  · obtain rfl : e = 971 := le_antisymm he hge
    -- At the greatest exponent the room above the number is what counts. Four units are enough; for
    -- the last three the digits are looked at.
    rcases Nat.lt_or_ge (2 ^ 53 - 4) m with hgreat | hsmall
    · exact isReadable_greatest hm hgreat
    · left
      have hm' : (m : ℚ) + 4 ≤ 2 ^ 53 := by exact_mod_cast (show m + 4 ≤ 2 ^ 53 by omega)
      have hsplit : (2 : ℚ) ^ (971 : ℤ) = 2 ^ (970 : ℤ) * 2 := by
        rw [← zpow_add_one₀ two_ne_zero]
        rfl
      rw [hsplit] at hle
      calc (Decimal.shortest .double m 971).toRat * (1 + 1 / 2 ^ 53) ^ 2
          ≤ ((m : ℚ) + 1 / 2) * (2 ^ (970 : ℤ) * 2) * (1 + 1 / 2 ^ 53) ^ 2 := by gcongr
        _ = ((m : ℚ) + 1 / 2) * (1 + 1 / 2 ^ 53) ^ 2 * (2 ^ (970 : ℤ) * 2) := by ring
        _ < limit .double := by
          rw [hlimit]
          refine mul_lt_mul_of_pos_right ?_ (by positivity)
          calc ((m : ℚ) + 1 / 2) * (1 + 1 / 2 ^ 53) ^ 2
              ≤ (2 ^ 53 - 7 / 2) * (1 + 1 / 2 ^ 53) ^ 2 := by
                gcongr
                linarith
            _ < 2 ^ 53 - 1 / 2 := by norm_num

/-- The decimal of a single is readable as a double, for every single lies far below the limit of
doubles. -/
theorem isReadable_shortest_single {m : ℕ} {e : ℤ} (hm : m < 2 ^ 24) (he : e ≤ 104) :
    IsReadable (Decimal.shortest .single m e) := by
  left
  have hm' : (m : ℚ) + 1 / 2 ≤ 2 ^ 24 := by
    have hsucc : (m : ℚ) + 1 ≤ 2 ^ 24 := by exact_mod_cast hm
    linarith
  have hpow : (2 : ℚ) ^ e ≤ 2 ^ (104 : ℤ) := zpow_le_zpow_right₀ one_le_two he
  calc (Decimal.shortest .single m e).toRat * (1 + 1 / 2 ^ 53) ^ 2
      ≤ (2 ^ 24 * 2 ^ (104 : ℤ)) * (11 / 10) := by
        refine mul_le_mul ((Decimal.toRat_shortest_le .single m e).trans ?_) two_roundings_le
          (by positivity) (by positivity)
        gcongr
    _ < 10 ^ 39 := by norm_num
    _ ≤ 10 ^ 308 := pow_le_pow_right₀ (by norm_num) (by decide)
    _ < limit .double := limit_double.1

/-- A finite number of a format is printed as a double, in either of its notations. -/
theorem WrittenAs.binary {l : NumberLayout} (hwhole : l.whole ≤ 16)
    (hunit : -l.below < 1 ∧ 1 ≤ l.whole) (negative : Bool) {m : ℕ}
    {e : ℤ} (hread : IsReadable (Decimal.shortest l.format m e)) :
    ∃ y, Number.WrittenAs (.double y) (((finite negative m e).toJsonText? l).getD "null") := by
  cases m with
  | zero =>
    have hzero : IsDecimal [0] 0 := ⟨by decide, rfl, Or.inl rfl⟩
    obtain ⟨y, hy⟩ := exists_positional negative hzero (show (1 : ℤ) ≤ 16 by decide)
      fun _ => le_rfl
    exact ⟨y, hy⟩
  | succ m =>
    obtain ⟨d, hd⟩ : ∃ d, d = Decimal.shortest l.format (m + 1) e := ⟨_, rfl⟩
    have hpos := Decimal.digits_shortest_pos l.format m.succ_pos e
    rw [Nat.succ_eq_add_one, ← hd] at hpos
    rw [← hd] at hread
    obtain ⟨ds, hds, hdecimal⟩ := exists_isDecimal d.digits
    -- Were no grid to have a decimal, the text would be that of zero, in positional notation.
    have hzero : d.digits = 0 → (ds.length : ℤ) + d.exponent = 1 := by
      intro hnone
      rcases hpos with rfl | hpos
      · rcases hdecimal.leading with rfl | ⟨first, rest, rfl, hfirst⟩
        · rfl
        · have hvalue := hdecimal.value_eq
          rw [value_cons] at hvalue
          have hpow := Nat.mul_pos hfirst (Nat.pow_pos (n := rest.length) (show 0 < 10 by decide))
          omega
      · exact absurd hnone hpos.ne'
    rw [toJsonText?, ← hd, hds, Option.getD_some, List.length_map]
    · split_ifs with hlayout
      · exact exists_positional negative hdecimal (hlayout.2.trans hwhole) fun hnone =>
          (hzero hnone).le
      · refine exists_scientific negative hdecimal (Nat.pos_of_ne_zero fun hnone => ?_) hread
        rw [hzero hnone] at hlayout
        exact hlayout hunit
    · nofun

/-- **The text of a number is the text of a number.** Of a whole one it is the same. -/
theorem Number.exists_writtenAs {n : Number} (hn : n.IsSound) :
    ∃ read : Number, read.WrittenAs n.print ∧ (read = n ∨ ∃ y, read = .double y) := by
  cases n with
  | natural n => exact ⟨_, WrittenAs.natural hn, Or.inl rfl⟩
  | negative n => exact ⟨_, WrittenAs.negative hn.1 hn.2, Or.inl rfl⟩
  | double x =>
    cases x with
    | infinite negative => nomatch hn.2
    | finite negative m e =>
      obtain ⟨⟨hm, -, he⟩, -⟩ := hn
      obtain ⟨y, hy⟩ := WrittenAs.binary (l := .double) le_rfl (by decide) negative
        (isReadable_shortest_double hm he)
      exact ⟨_, hy, Or.inr ⟨y, rfl⟩⟩
  | single x =>
    cases x with
    | infinite negative => nomatch hn.2
    | finite negative m e =>
      obtain ⟨⟨hm, -, he⟩, -⟩ := hn
      obtain ⟨y, hy⟩ := WrittenAs.binary (l := .single) (by decide) (by decide) negative
        (isReadable_shortest_single hm he)
      exact ⟨_, hy, Or.inr ⟨y, rfl⟩⟩

end ModelRelay.Json
