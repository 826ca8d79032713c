import ModelRelay.Decimal.Shortest
import ModelRelay.Proofs.Decimal.Rounding

/-!
# How large the shortest decimal can be

The digits that are printed for a number stand for a decimal of the interval of reals that round to
it, so **the decimal is at most half a unit beyond the number** (`toRat_shortest_le`). The grids
that `shortest` looks at matter for how few its digits are, and for nothing here: whatever grid a
decimal comes from, it was tried against the interval, and dropping zeros leaves its value alone.

The upper bound is all that later proofs need. A decimal that is printed is read again by scaling
its digits, and it is read as a finite number as long as it does not lie far above the number that
it was printed for.
-/

set_option autoImplicit false

namespace ModelRelay.Decimal

/-- The rational number that a decimal stands for. -/
def toRat (d : Decimal) : ℚ :=
  d.digits * 10 ^ d.exponent

theorem toRat_nonneg (d : Decimal) : 0 ≤ d.toRat :=
  mul_nonneg (Nat.cast_nonneg _) (by positivity)

section Interval

variable {i : Interval} {d : Decimal}

/-- A decimal of an interval lies below its upper end, whether the end belongs to it or not. -/
theorem toRat_le_of_holds (hden : 0 < i.den) (h : i.holds d = true) :
    d.toRat ≤ (i.high : ℚ) / i.den := by
  have hden' : (0 : ℚ) < i.den := by exact_mod_cast hden
  rw [le_div_iff₀ hden', toRat]
  -- The interval is tried in whole numbers, so a power of ten stands on one side or on the other.
  by_cases hexponent : 0 ≤ d.exponent
  · have hle : d.digits * 10 ^ d.exponent.toNat * i.den ≤ i.high := by
      simp only [Interval.holds, if_pos hexponent, Nat.pow_eq, mul_one] at h
      split_ifs at h
      · exact of_decide_eq_true (Bool.and_eq_true_iff.mp h).2
      · exact (of_decide_eq_true (Bool.and_eq_true_iff.mp h).2).le
    rw [← Int.toNat_of_nonneg hexponent, zpow_natCast]
    exact_mod_cast hle
  · have hle : d.digits * i.den ≤ i.high * 10 ^ (-d.exponent).toNat := by
      simp only [Interval.holds, if_neg hexponent, Nat.pow_eq] at h
      split_ifs at h
      · exact of_decide_eq_true (Bool.and_eq_true_iff.mp h).2
      · exact (of_decide_eq_true (Bool.and_eq_true_iff.mp h).2).le
    have hneg : d.exponent = -((-d.exponent).toNat : ℤ) := by omega
    have hpos : (0 : ℚ) < 10 ^ (-d.exponent).toNat := by positivity
    rw [hneg, zpow_neg, zpow_natCast, mul_right_comm, ← div_eq_mul_inv, div_le_iff₀ hpos]
    exact_mod_cast hle

/-- Zero lies below an interval of positive numbers. -/
theorem digits_pos_of_holds (hlow : 0 < i.low) (h : i.holds d = true) : 0 < d.digits := by
  refine Nat.pos_of_ne_zero fun hzero => ?_
  have hnone : ∀ k : ℕ, 0 < i.low * 10 ^ k := fun k => Nat.mul_pos hlow (Nat.pow_pos (by decide))
  have hlow' := hnone 0
  have hlow'' := hnone (-d.exponent).toNat
  simp only [Interval.holds, hzero, Nat.pow_eq, Nat.zero_mul] at h
  split_ifs at h <;> simp_all

theorem holds_of_atGrid {count : ℕ} (h : atGrid i count = some d) : i.holds d = true := by
  simp only [atGrid] at h
  split at h
  case h_3 hlower hupper _ =>
    rw [← Option.some.inj h]
    split
    · exact hlower
    · exact hupper
  case h_6 => nomatch h
  all_goals
    rw [← Option.some.inj h]
    assumption

/-- Either no grid held a decimal, or the one that is found is of the interval. -/
theorem search_eq (i : Interval) (count left : ℕ) :
    search i count left = ⟨0, 0⟩ ∨ i.holds (search i count left) = true := by
  induction left generalizing count with
  | zero => exact Or.inl rfl
  | succ left ih =>
    rw [search]
    cases h : atGrid i count with
    | some d => exact Or.inr (holds_of_atGrid h)
    | none => exact ih (count + 1)

end Interval

/-- Zeros at the end of the digits go into the exponent, and the value stays. -/
theorem toRat_dropZeros (d : Decimal) (left : ℕ) : (dropZeros d left).toRat = d.toRat := by
  induction left generalizing d with
  | zero => rfl
  | succ left ih =>
    rw [dropZeros]
    split_ifs with hzero
    · simp only [Bool.and_eq_true, beq_iff_eq] at hzero
      have hdigits : d.digits = d.digits / 10 * 10 := by omega
      rw [ih, toRat, toRat, zpow_add₀ (by norm_num), zpow_one]
      conv_rhs => rw [hdigits]
      push_cast
      ring
    · rfl

theorem digits_pos_dropZeros {d : Decimal} (h : 0 < d.digits) (left : ℕ) :
    0 < (dropZeros d left).digits := by
  induction left generalizing d with
  | zero => exact h
  | succ left ih =>
    rw [dropZeros]
    split_ifs with hzero
    · simp only [Bool.and_eq_true, beq_iff_eq] at hzero
      exact ih (show 0 < d.digits / 10 by omega)
    · exact h

/-- The interval of a positive number lies above zero, also at a power of two, where it is narrower
below. -/
theorem low_interval_pos (f : BinaryFormat) {m : ℕ} (hm : 0 < m) (e : ℤ) :
    0 < (interval f m e).low := by
  have hunit : 0 < (Binary.fraction 1 (e - 2)).1 := by
    rw [Binary.fraction]
    split_ifs
    · exact Nat.mul_pos one_pos (Nat.pow_pos (by decide))
    · exact one_pos
  have hvalue : (Binary.fraction (4 * m) (e - 2)).1 = 4 * m * (Binary.fraction 1 (e - 2)).1 := by
    rw [Binary.fraction, Binary.fraction]
    split_ifs
    · rw [Nat.one_mul]
    · rw [Nat.mul_one]
  show 0 < (Binary.fraction (4 * m) (e - 2)).1 - _ * (Binary.fraction 1 (e - 2)).1
  rw [hvalue, ← Nat.sub_mul]
  refine Nat.mul_pos ?_ hunit
  split_ifs <;> omega

/-- No other number than zero is printed with the digit zero alone, as long as a grid has a decimal
for it. -/
theorem digits_shortest_pos (f : BinaryFormat) {m : ℕ} (hm : 0 < m) (e : ℤ) :
    shortest f m e = ⟨0, 0⟩ ∨ 0 < (shortest f m e).digits := by
  rw [shortest, if_neg hm.ne']
  rcases search_eq (interval f m e) 1 18 with hnone | hholds
  · rw [hnone]
    exact Or.inl rfl
  · exact Or.inr (digits_pos_dropZeros (digits_pos_of_holds (low_interval_pos f hm e) hholds) 18)

/-- **The decimal of a number lies at most half a unit beyond it.** -/
theorem toRat_shortest_le (f : BinaryFormat) (m : ℕ) (e : ℤ) :
    (shortest f m e).toRat ≤ (m + 1 / 2) * 2 ^ e := by
  have hnonneg : (0 : ℚ) ≤ (m + 1 / 2) * 2 ^ e := by positivity
  rw [shortest]
  split_ifs
  · simpa [toRat] using hnonneg
  · rw [toRat_dropZeros]
    rcases search_eq (interval f m e) 1 18 with hnone | hholds
    · rw [hnone]
      simpa [toRat] using hnonneg
    · have hden : 0 < (interval f m e).den := Binary.fraction_pos _ _
      refine (toRat_le_of_holds hden hholds).trans (le_of_eq ?_)
      have hvalue : ((Binary.fraction (4 * m) (e - 2)).1 : ℚ) / (Binary.fraction (4 * m) (e - 2)).2
          = (4 * m : ℕ) * 2 ^ (e - 2) := Binary.fraction_eq _ _
      have hunit : ((Binary.fraction 1 (e - 2)).1 : ℚ) / (Binary.fraction 1 (e - 2)).2
          = (1 : ℕ) * 2 ^ (e - 2) := Binary.fraction_eq _ _
      have hsame : (Binary.fraction 1 (e - 2)).2 = (Binary.fraction (4 * m) (e - 2)).2 := by
        rw [Binary.fraction, Binary.fraction]
        split <;> rfl
      rw [hsame] at hunit
      show (((Binary.fraction (4 * m) (e - 2)).1 + 2 * (Binary.fraction 1 (e - 2)).1 : ℕ) : ℚ)
        / (Binary.fraction (4 * m) (e - 2)).2 = _
      rw [Nat.cast_add, Nat.cast_mul, add_div, mul_div_assoc, hvalue, hunit,
        zpow_sub₀ two_ne_zero]
      push_cast
      ring

end ModelRelay.Decimal
