import ModelRelay.Json.Numeral
import ModelRelay.Proofs.Decimal.Rounding

/-!
# When a numeral is a double

A numeral's significand is rounded, and so is each power of ten that it is multiplied or divided by,
and so is each product. Dividing never leaves the doubles, so a numeral whose point only goes left
stands for one. Multiplying is one step, and **a decimal below the doubles' limit, with room for the
errors of the two roundings before it, is a double** (`exists_double?`).

The reader scales by steps of the greatest power of ten that a double can be, so the induction is on
those steps (`scale.induct`). It goes through downwards without any bound: each division leaves a
number that is no greater. Upwards a single step is allowed, and there the two errors count, that of
the significand and that of the power.

The condition is sufficient and not necessary. A decimal within a relative error of two units of the
limit may still be read, and for printed numbers that case is looked at by itself.
-/

set_option autoImplicit false

namespace ModelRelay.Json.Numeral

open Binary

/-! ## Scaling

The relative error of one rounding is `1 / 2 ^ 53` at most, that of the significand and that of the
power of ten alike, and what is rounded last is the exact product of the two. -/

section Scaling

variable {x : Binary} {e : ℤ}

/-- Dividing by a power of ten makes a double no greater, so it stays one. -/
theorem div_powerOfTen {k : ℕ} (hk : k ≤ 308) (hof : x.IsOf .double)
    (hx : x.isInfinite = false) :
    (div .double x (powerOfTen .double k)).IsOf .double ∧
      (div .double x (powerOfTen .double k)).isInfinite = false := by
  have hone := one_le_powerOfTen hk
  refine isOf_div isSound_double hx (powerOfTen_near hk).1 (one_pos.trans_le hone) ?_
  exact (div_le_self x.magnitude_nonneg hone).trans_lt hof.magnitude_lt

/-- Scaling never leaves the doubles: what it gives is one. -/
theorem isOf_scale {y : Binary} (hof : x.IsOf .double) (hx : x.isInfinite = false)
    (h : scale x e = some y) : y.IsOf .double ∧ y.isInfinite = false := by
  -- The cases are those of `scale`: one multiplication, one division, or steps of the greatest
  -- power that there is.
  induction x, e using scale.induct with
  | case1 x e hk power hnonneg product hinfinite =>
    rw [scale, if_pos hk] at h
    simp only [if_pos hnonneg] at h
    rw [if_pos hinfinite] at h
    nomatch h
  | case2 x e hk power hnonneg product hfinite =>
    rw [scale, if_pos hk] at h
    simp only [if_pos hnonneg] at h
    rw [if_neg hfinite] at h
    rw [← Option.some.inj h]
    exact ⟨isOf_mul isSound_double _ _, Bool.eq_false_iff.mpr hfinite⟩
  | case3 x e hk hneg =>
    rw [scale, if_pos hk] at h
    simp only [if_neg hneg] at h
    rw [← Option.some.inj h]
    exact div_powerOfTen hk hof hx
  | case4 x e hk hzero =>
    rw [scale, if_neg hk, if_pos hzero] at h
    rw [← Option.some.inj h]
    exact ⟨hof, hx⟩
  | case5 x e hk hzero hnonneg =>
    rw [scale, if_neg hk, if_neg hzero, if_pos hnonneg] at h
    nomatch h
  | case6 x e hk hzero hneg ih =>
    rw [scale, if_neg hk, if_neg hzero, if_neg hneg] at h
    obtain ⟨hof', hx'⟩ := div_powerOfTen le_rfl hof hx
    exact ih hof' hx' h

/-- Where the exponent is one that a power of ten has, scaling up is one multiplication. -/
theorem scale_up (hk : e.natAbs ≤ 308) (hnonneg : 0 ≤ e)
    (h : (mul .double x (powerOfTen .double e.natAbs)).isInfinite = false) :
    scale x e = some (mul .double x (powerOfTen .double e.natAbs)) := by
  rw [scale, if_pos hk]
  dsimp only
  rw [if_pos hnonneg, h, if_neg Bool.false_ne_true]

/-- A number that is not scaled up stays among the doubles. By induction on the divisions by the
greatest power of ten that there is. -/
theorem exists_scale_of_nonpos (hof : x.IsOf .double) (hx : x.isInfinite = false) (he : e ≤ 0) :
    ∃ y, scale x e = some y := by
  induction x, e using scale.induct with
  | case1 x e hk power hnonneg product hinfinite | case2 x e hk power hnonneg product hinfinite =>
    obtain rfl : e = 0 := le_antisymm he hnonneg
    have hone : (powerOfTen .double 0).magnitude = 1 := by
      rw [show powerOfTen .double 0 = Binary.finite false (2 ^ 52) (-52) by decide, magnitude]
      norm_num
    have hfinite : (mul .double x (powerOfTen .double 0)).isInfinite = false := by
      refine isInfinite_mul isSound_double hx (powerOfTen_near (by omega)).1 ?_
      rw [hone, mul_one]
      exact hof.magnitude_lt
    exact ⟨_, scale_up hk hnonneg hfinite⟩
  | case3 x e hk hneg =>
    refine ⟨div .double x (powerOfTen .double e.natAbs), ?_⟩
    rw [scale, if_pos hk]
    exact if_neg hneg
  | case4 x e hk hzero =>
    exact ⟨x, by rw [scale, if_neg hk, if_pos hzero]⟩
  | case5 x e hk _ hnonneg => omega
  | case6 x e hk hzero hneg ih =>
    obtain ⟨hof', hx'⟩ := div_powerOfTen le_rfl hof hx
    rw [scale, if_neg hk, if_neg hzero, if_neg hneg]
    exact ih hof' hx' (by omega)

/-- A numeral below the doubles' limit, with room for the errors of both roundings, is scaled up to
a double. -/
theorem exists_scale_of_lt {n : ℕ} (negative : Bool) (hpos : 0 < n) (he : 0 ≤ e)
    (h : (n : ℚ) * 10 ^ e * (1 + 1 / 2 ^ 53) ^ 2 < limit .double) :
    ∃ y, scale (Binary.ofNat .double negative n) e = some y := by
  obtain ⟨k, rfl⟩ := Int.eq_ofNat_of_zero_le he
  rw [zpow_natCast] at h
  have hn : (1 : ℚ) ≤ n := by exact_mod_cast hpos
  have hten : (1 : ℚ) ≤ 10 ^ k := one_le_pow₀ (by norm_num)
  have herror : (1 : ℚ) ≤ (1 + 1 / 2 ^ 53) ^ 2 := one_le_pow₀ (by norm_num)
  have hproduct : (n : ℚ) * 10 ^ k < limit .double :=
    (le_mul_of_one_le_right (by positivity) herror).trans_lt h
  have hk : k ≤ 308 := by
    by_contra hk
    have hbig : (10 : ℚ) ^ 309 ≤ 10 ^ k := pow_le_pow_right₀ (by norm_num) (by omega)
    exact absurd (hbig.trans (le_mul_of_one_le_left (by positivity) hn))
      (not_le.mpr (hproduct.trans limit_double.2))
  have hwhole : ((n : ℕ) : ℚ) / (1 : ℕ) = n := by rw [Nat.cast_one, div_one]
  have hlimit : (n : ℚ) < limit .double :=
    (le_mul_of_one_le_right (by positivity) hten).trans_lt hproduct
  have hfinite : (Binary.ofNat .double negative n).isInfinite = false :=
    isInfinite_ofFraction .double isSound_double negative one_pos
      (by rw [hwhole]; exact hlimit)
  have hnear := magnitude_ofFraction_near .double isSound_double negative n one_pos
    (by
      rw [hwhole]
      exact (zpow_le_one_of_nonpos₀ one_le_two (by decide)).trans hn)
    (by rw [hwhole]; exact hlimit)
  rw [hwhole] at hnear
  obtain ⟨hpower, hpowerNear⟩ := powerOfTen_near hk
  refine ⟨_, scale_up hk (Int.natCast_nonneg k) ?_⟩
  refine isInfinite_mul isSound_double hfinite hpower ?_
  refine lt_of_le_of_lt ?_ h
  -- Each factor is above its exact value by the relative error of one rounding at most.
  have hup : (Binary.ofNat .double negative n).magnitude ≤ n * (1 + 1 / 2 ^ 53) := by
    have := (abs_le.mp hnear).2
    have : (Binary.ofNat .double negative n).magnitude - n ≤ n * (1 / 2 ^ 53) := this
    linarith
  have hup' : (powerOfTen .double k).magnitude ≤ 10 ^ k * (1 + 1 / 2 ^ 53) := by
    have := (abs_le.mp hpowerNear).2
    linarith
  calc (Binary.ofNat .double negative n).magnitude * (powerOfTen .double k).magnitude
      ≤ (n * (1 + 1 / 2 ^ 53)) * (10 ^ k * (1 + 1 / 2 ^ 53)) := by
        gcongr
        exact magnitude_nonneg _
    _ = n * 10 ^ k * (1 + 1 / 2 ^ 53) ^ 2 := by ring

end Scaling

/-! ## The double of a significand

A significand has 64 bits at most, far below the limit, so it is rounded to a finite double before
it is scaled. -/

theorem isInfinite_ofNat (negative : Bool) {n : ℕ} (hn : n < 0x10000000000000000) :
    (Binary.ofNat .double negative n).isInfinite = false := by
  refine isInfinite_ofFraction .double isSound_double negative one_pos ?_
  have hn' : (n : ℚ) < 0x10000000000000000 := by exact_mod_cast hn
  have hpow : (0x10000000000000000 : ℚ) < 10 ^ 308 :=
    lt_of_lt_of_le (by norm_num) (pow_le_pow_right₀ (by norm_num) (show 20 ≤ 308 by decide))
  rw [Nat.cast_one, div_one]
  exact (hn'.trans hpow).trans limit_double.1

theorem isOf_ofNat (negative : Bool) (n : ℕ) : (Binary.ofNat .double negative n).IsOf .double :=
  isOf_ofFraction .double isSound_double negative n one_pos

section Doubles

variable {n : ℕ} {e : ℤ}

/-- **A numeral that is not scaled up is a double**, however small it is: what is too small is
zero. -/
theorem exists_double?_of_nonpos (negative : Bool) (hn : n < 0x10000000000000000) (he : e ≤ 0) :
    ∃ y, double? negative n e = some y :=
  exists_scale_of_nonpos (isOf_ofNat negative n) (isInfinite_ofNat negative hn) he

/-- Zero is a double with every exponent, for nothing is multiplied where nothing would come of
it. -/
theorem exists_double?_of_zero (negative : Bool) (e : ℤ) : ∃ y, double? negative 0 e = some y := by
  rcases le_total e 0 with he | he
  · exact exists_double?_of_nonpos negative (by decide) he
  · by_cases hk : e.natAbs ≤ 308
    · refine ⟨_, scale_up hk he ?_⟩
      refine isInfinite_mul isSound_double rfl (powerOfTen_near hk).1 ?_
      rw [Binary.ofNat, ofFraction, if_pos rfl, magnitude, Nat.cast_zero, zero_mul, zero_mul]
      exact lt_of_le_of_lt zero_le_one (lt_of_le_of_lt (one_le_pow₀ (by norm_num)) limit_double.1)
    · refine ⟨Binary.ofNat .double negative 0, ?_⟩
      rw [double?, scale, if_neg hk]
      rfl

/-- A decimal below the doubles' limit, with room for the errors of two roundings. -/
theorem exists_double? (negative : Bool) (hn : n < 0x10000000000000000)
    (h : (n : ℚ) * 10 ^ e * (1 + 1 / 2 ^ 53) ^ 2 < limit .double) :
    ∃ y, double? negative n e = some y := by
  rcases le_total e 0 with he | he
  · exact exists_double?_of_nonpos negative hn he
  · rcases Nat.eq_zero_or_pos n with rfl | hpos
    · exact exists_double?_of_zero negative e
    · exact exists_scale_of_lt negative hpos he h

end Doubles

end ModelRelay.Json.Numeral
