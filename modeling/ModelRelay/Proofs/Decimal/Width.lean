import ModelRelay.Decimal.Layout
import ModelRelay.Proofs.Decimal.Shortest
import ModelRelay.Proofs.Json.Numerals

/-!
# How long the text of a number can be

**No number takes more than a few dozen characters to print** (`length_toJsonText?_le`). A body that
is printed can thus not be much longer than the one it was read from, whatever numbers are in it.

Two things go into the bound. The grid of `count` digits is chosen by the magnitude of a number, so
that its points near the number have `count` digits indeed (`digits_le_of_atGrid`), and there are at
most eighteen grids to look at. And a number of a format lies between two powers of ten that are
known, so that its exponent takes three digits at most (`natAbs_magnitude_le`); only this half knows
which format it is (`Spans`).

The bounds are generous. What matters is that there are some, and a bound that is reached would tie
this module to how `shortest` breaks ties.
-/

set_option autoImplicit false

namespace ModelRelay

namespace Decimal

/-! ## Magnitudes

The magnitude of a fraction is the power of ten of its leading digit, counted with whole divisions
only. Below one it is found from the other side, by what the lower part holds of the upper. -/

theorem lt_pow_digitCount (n : ℕ) : n < 10 ^ digitCount n := by
  rw [digitCount]
  split_ifs with hn
  · rw [hn]
    exact Nat.one_pos
  · obtain ⟨ds, hds, hdecimal⟩ := Json.Numeral.exists_isDecimal n
    rw [hds, List.length_map, ← hdecimal.value_eq]
    exact Json.Numeral.value_lt hdecimal.below

/-- A positive number does not lie below the power of ten of its leading digit, which is not
zero. -/
theorem pow_digitCount_le {n : ℕ} (hn : 0 < n) : 10 ^ (digitCount n - 1) ≤ n := by
  obtain ⟨ds, hds, hdecimal⟩ := Json.Numeral.exists_isDecimal n
  rw [digitCount, if_neg hn.ne', hds, List.length_map]
  cases ds with
  | nil => exact absurd rfl hdecimal.ne_nil
  | cons d rest => exact hdecimal.pow_le hn

/-- A number below a power of ten has no more digits than its exponent says. -/
theorem digitCount_le {n k : ℕ} (h : n < 10 ^ k) : digitCount n ≤ k := by
  rw [digitCount]
  split_ifs with hn
  · exact Nat.zero_le k
  · cases k with
    | zero => exact absurd (Nat.lt_one_iff.mp h) hn
    | succ k => exact Nat.toDigits_length 10 n (k + 1) k.succ_pos h

variable {num den : ℕ}

/-- **A fraction whose parts are below a power of ten has a magnitude no greater than its
exponent**, in either direction. -/
theorem natAbs_magnitude_le {k : ℕ} (hnum : num < 10 ^ k) (hden : den ≤ 10 ^ k) (hpos : 0 < den) :
    (magnitude num den).natAbs ≤ k := by
  rw [magnitude]
  split_ifs with hle
  · have hcount : digitCount (num / den) ≤ k :=
      digitCount_le ((Nat.div_le_self num den).trans_lt hnum)
    have hone : 1 ≤ digitCount (num / den) := by
      have hquotient : 0 < num / den := Nat.div_pos hle hpos
      have hlt := lt_pow_digitCount (num / den)
      by_contra hzero
      rw [Nat.not_le, Nat.lt_one_iff] at hzero
      rw [hzero] at hlt
      omega
    omega
  · have hcount : digitCount ((den - 1) / num) ≤ k := by
      refine digitCount_le ((Nat.div_le_self _ num).trans_lt ?_)
      omega
    omega

/-- The magnitude is that of the leading digit. -/
theorem div_lt_pow_magnitude (hnum : 0 < num) (hden : 0 < den) :
    (num : ℚ) / den < 10 ^ (magnitude num den + 1) := by
  have hden' : (0 : ℚ) < den := by exact_mod_cast hden
  rw [magnitude, div_lt_iff₀ hden']
  split_ifs with hle
  · rw [sub_add_cancel, zpow_natCast]
    have hlt : num < 10 ^ digitCount (num / den) * den :=
      (Nat.div_lt_iff_lt_mul hden).mp (lt_pow_digitCount _)
    exact_mod_cast hlt
  · -- Below one: as many places behind the point as the quotient has digits.
    have hquotient : 0 < (den - 1) / num := Nat.div_pos (by omega) hnum
    obtain ⟨k, hk⟩ : ∃ k, digitCount ((den - 1) / num) = k + 1 := by
      refine Nat.exists_eq_succ_of_ne_zero fun hzero => ?_
      have hlt := lt_pow_digitCount ((den - 1) / num)
      rw [hzero] at hlt
      omega
    have hpow : 10 ^ k ≤ (den - 1) / num := by
      have hle := pow_digitCount_le hquotient
      rwa [hk] at hle
    have hlt : num * 10 ^ k < den := by
      have hle : num * 10 ^ k ≤ den - 1 :=
        (Nat.mul_le_mul_left num hpow).trans (Nat.mul_div_le _ _)
      omega
    have hexponent : -((k + 1 : ℕ) : ℤ) + 1 = -(k : ℤ) := by
      push_cast
      ring
    rw [hk, hexponent, zpow_neg, zpow_natCast, inv_mul_eq_div, lt_div_iff₀ (by positivity)]
    exact_mod_cast hlt

/-! ## Digits of a grid

A grid is the whole multiples of one power of ten. Dividing by it brings the number below
`10 ^ count`, and its two neighbours on the grid with it. -/

theorem neighbours_le (num den : ℕ) (exponent : ℤ) :
    ((neighbours num den exponent).1 : ℚ) ≤ num / den / 10 ^ exponent := by
  rw [neighbours]
  split_ifs with hexponent
  · have hpow : (10 : ℚ) ^ exponent = (10 ^ exponent.toNat : ℕ) := by
      conv_lhs => rw [← Int.toNat_of_nonneg hexponent, zpow_natCast]
      push_cast
      rfl
    refine Nat.cast_div_le.trans (le_of_eq ?_)
    rw [hpow, Nat.pow_eq, Nat.cast_mul, div_div]
  · have hpow : (10 : ℚ) ^ exponent = ((10 ^ (-exponent).toNat : ℕ) : ℚ)⁻¹ := by
      conv_lhs => rw [show exponent = -((-exponent).toNat : ℤ) by omega, zpow_neg, zpow_natCast]
      push_cast
      rfl
    refine Nat.cast_div_le.trans (le_of_eq ?_)
    rw [hpow, Nat.pow_eq, Nat.cast_mul, div_inv_eq_mul, div_mul_eq_mul_div]

/-- A decimal of a grid has the exponent of the grid, and is one of the two neighbours. -/
theorem eq_of_atGrid {i : Interval} {count : ℕ} {d : Decimal} (h : atGrid i count = some d) :
    d.exponent = magnitude i.value i.den - count + 1 ∧
      d.digits ≤ (neighbours i.value i.den (magnitude i.value i.den - count + 1)).1 + 1 := by
  simp only [atGrid] at h
  split at h
  case h_3 =>
    rw [← Option.some.inj h]
    split <;> exact ⟨rfl, by simp⟩
  case h_6 => cases h
  all_goals
    rw [← Option.some.inj h]
    exact ⟨rfl, by simp⟩

/-- **A decimal of the grid of `count` digits has about as many.** -/
theorem digits_le_of_atGrid {i : Interval} {count : ℕ} {d : Decimal} (hvalue : 0 < i.value)
    (hden : 0 < i.den) (h : atGrid i count = some d) : d.digits ≤ 10 ^ count := by
  obtain ⟨-, hdigits⟩ := eq_of_atGrid h
  refine hdigits.trans ?_
  have hunit : (0 : ℚ) < 10 ^ (magnitude i.value i.den - count + 1) := by positivity
  have hlt : ((neighbours i.value i.den (magnitude i.value i.den - count + 1)).1 : ℚ)
      < 10 ^ count :=
    calc ((neighbours i.value i.den (magnitude i.value i.den - count + 1)).1 : ℚ)
        ≤ i.value / i.den / 10 ^ (magnitude i.value i.den - count + 1) := neighbours_le _ _ _
      _ < 10 ^ (magnitude i.value i.den + 1) / 10 ^ (magnitude i.value i.den - count + 1) := by
        gcongr
        exact div_lt_pow_magnitude hvalue hden
      _ = 10 ^ count := by
        rw [← zpow_sub₀ (by norm_num), ← zpow_natCast]
        congr 1
        ring
  exact_mod_cast hlt

/-! ## The decimal that is found

The search goes through grids of one more digit each, so what it finds has the bounds of some grid;
dropping zeros moves what is left of them from the digits to the exponent. -/

/-- What the search finds comes from one of the grids that it was to look at, if it finds
anything. -/
theorem search_cases (i : Interval) (count left : ℕ) :
    search i count left = ⟨0, 0⟩ ∨
      ∃ k, count ≤ k ∧ k < count + left ∧ atGrid i k = some (search i count left) := by
  induction left generalizing count with
  | zero => exact .inl rfl
  | succ left ih =>
    rw [search]
    cases h : atGrid i count with
    | some d => exact .inr ⟨count, le_rfl, by omega, h⟩
    | none =>
      obtain hnone | ⟨k, hle, hlt, hk⟩ := ih (count + 1)
      · exact .inl hnone
      · exact .inr ⟨k, by omega, by omega, hk⟩

/-- Dropping zeros makes the digits fewer and the exponent greater, by one for each. -/
theorem dropZeros_le (d : Decimal) (left : ℕ) :
    (dropZeros d left).digits ≤ d.digits ∧ d.exponent ≤ (dropZeros d left).exponent ∧
      (dropZeros d left).exponent ≤ d.exponent + left := by
  induction left generalizing d with
  | zero => exact ⟨le_rfl, le_rfl, by simp [dropZeros]⟩
  | succ left ih =>
    rw [dropZeros]
    split_ifs
    · obtain ⟨hdigits, hlow, hhigh⟩ := ih ⟨d.digits / 10, d.exponent + 1⟩
      dsimp only at hdigits hlow hhigh
      exact ⟨hdigits.trans (Nat.div_le_self _ _), by omega, by push_cast; omega⟩
    · exact ⟨le_rfl, le_rfl, by omega⟩

/-- The numbers of a format lie between these powers of ten. -/
structure Spans (f : BinaryFormat) (k : ℕ) : Prop where
  num : ∀ {m : ℕ} {e : ℤ}, m < 2 ^ f.precision → e ≤ f.greatest →
    (Binary.fraction (4 * m) (e - 2)).1 < 10 ^ k
  den : ∀ {m : ℕ} {e : ℤ}, f.least ≤ e → (Binary.fraction (4 * m) (e - 2)).2 ≤ 10 ^ k

/-- Two comparisons of powers say that a format is spanned: one for its greatest number, and one for
the unit of its least. -/
theorem spans_of_pow_le {f : BinaryFormat} {k : ℕ}
    (hnum : 2 ^ (f.precision + 2 + (f.greatest - 2).toNat) ≤ 10 ^ k)
    (hden : 2 ^ (2 - f.least).toNat ≤ 10 ^ k) : Spans f k where
  num {m e} hm he := by
    have hm' : 4 * m < 2 ^ (f.precision + 2) := by
      rw [pow_add]
      omega
    refine lt_of_lt_of_le ?_ hnum
    rw [Binary.fraction, pow_add]
    split_ifs
    · exact Nat.mul_lt_mul_of_lt_of_le hm' (Nat.pow_le_pow_right (by decide) (by omega))
        (Nat.pow_pos (by decide))
    · exact hm'.trans_le (Nat.le_mul_of_pos_right _ (Nat.pow_pos (by decide)))
  den {m e} he := by
    rw [Binary.fraction]
    split_ifs
    · exact Nat.one_le_pow _ _ (by decide)
    · exact (Nat.pow_le_pow_right (by decide) (by omega)).trans hden

theorem spans_double : Spans .double 324 :=
  spans_of_pow_le (by decide +kernel) (by decide +kernel)

theorem spans_single : Spans .single 324 :=
  spans_of_pow_le (by decide +kernel) (by decide +kernel)

/-- **The shortest decimal of a number has eighteen digits at most, and an exponent that its format
bounds.** -/
theorem shortest_bounds {f : BinaryFormat} {k : ℕ} (hspans : Spans f k) {m : ℕ} {e : ℤ}
    (hm : m < 2 ^ f.precision) (hlow : f.least ≤ e) (hhigh : e ≤ f.greatest) :
    (shortest f m e).digits ≤ 10 ^ 18 ∧ (shortest f m e).exponent.natAbs ≤ k + 36 := by
  rw [shortest]
  split_ifs with hzero
  · exact ⟨by simp, by simp⟩
  have hden : 0 < (interval f m e).den := Binary.fraction_pos _ _
  have hvalue : 0 < (interval f m e).value := by
    have hpos : 0 < 4 * m := by omega
    show 0 < (Binary.fraction (4 * m) (e - 2)).1
    rw [Binary.fraction]
    split_ifs
    · exact Nat.mul_pos hpos (Nat.pow_pos (by decide))
    · exact hpos
  have hmagnitude : (magnitude (interval f m e).value (interval f m e).den).natAbs ≤ k :=
    natAbs_magnitude_le (hspans.num hm hhigh) (hspans.den hlow) hden
  obtain ⟨hdigits, hexponent, hexponent'⟩ := dropZeros_le (search (interval f m e) 1 18) 18
  obtain hnone | ⟨count, hone, hcount, hgrid⟩ := search_cases (interval f m e) 1 18
  · rw [hnone] at hdigits hexponent hexponent' ⊢
    dsimp only at hdigits hexponent hexponent'
    exact ⟨hdigits.trans (Nat.zero_le _), by omega⟩
  · -- The exponent is that of the grid, and zeros that are dropped add to it.
    obtain ⟨hgridExponent, -⟩ := eq_of_atGrid hgrid
    have hgridDigits := digits_le_of_atGrid hvalue hden hgrid
    refine ⟨(hdigits.trans hgridDigits).trans (Nat.pow_le_pow_right (by decide) (by omega)), ?_⟩
    omega

/-! ## Texts

A decimal is laid out with its point among the digits, or with an exponent behind them. The first
adds zeros, and a layout allows it for few of them only. -/

/-- With the point among or beside the digits, zeros fill what lies between them and the point. -/
theorem length_positional_le (whole below : ℕ) (digits fraction : List Char) {point : ℤ}
    (hwhole : point ≤ whole) (hbelow : -(below : ℤ) < point) :
    (positional digits point fraction).length
      ≤ digits.length + whole + below + fraction.length + 2 := by
  rw [positional]
  split_ifs
  · simp [zeros]
    omega
  · simp
    omega
  · simp [zeros]
    omega

theorem length_scientific_le (digits : List Char) {exponent : ℤ} {k : ℕ} (hk : 0 < k)
    (h : exponent.natAbs < 10 ^ k) :
    (scientific digits exponent).length ≤ digits.length + k + 3 := by
  have hexponent := Nat.toDigits_length 10 _ k hk h
  rw [scientific.eq_def]
  dsimp only
  rw [List.length_append, List.length_cons, List.length_cons]
  split
  · simp only [List.length_cons]
    omega
  · omega

end Decimal

open Decimal

namespace Binary

theorem length_withSign_le (negative : Bool) (magnitude : List Char) :
    (withSign negative magnitude).length ≤ magnitude.length + 1 := by
  rw [withSign, String.length_ofList]
  split <;> simp

/-- **A number is printed in at most fifty characters.** -/
theorem length_toJsonText?_le {l : NumberLayout} (hspans : Spans l.format 324)
    (hwhole : l.whole ≤ 16) (hbelow : l.below ≤ 6) {x : Binary} {text : String}
    (hof : x.IsOf l.format) (h : x.toJsonText? l = some text) : text.length ≤ 50 := by
  cases x with
  | infinite negative => nomatch h
  | finite negative m e =>
    cases m with
    | zero =>
      rw [← Option.some.inj h]
      exact (length_withSign_le negative _).trans (by decide)
    | succ m =>
      obtain ⟨hm, hlow, hhigh⟩ := hof
      obtain ⟨hdigits, hexponent⟩ := shortest_bounds hspans hm hlow hhigh
      have hcount : (Nat.toDigits 10 (shortest l.format (m + 1) e).digits).length ≤ 19 :=
        Nat.toDigits_length 10 _ 19 (by decide) (hdigits.trans_lt (by decide))
      rw [toJsonText?] at h
      · rw [← Option.some.inj h]
        refine (length_withSign_le negative _).trans ?_
        -- Either layout is short: the one by its bounds on the exponent, the other by its digits.
        split_ifs with hlayout
        · have hpositional := length_positional_le 16 6
            (Nat.toDigits 10 (shortest l.format (m + 1) e).digits) ['.', '0']
            (hlayout.2.trans hwhole) (by omega)
          rw [List.length_cons, List.length_singleton] at hpositional
          omega
        · have hscientific := length_scientific_le
            (Nat.toDigits 10 (shortest l.format (m + 1) e).digits) (show 0 < 3 by decide)
            (show ((Nat.toDigits 10 (shortest l.format (m + 1) e).digits).length
              + (shortest l.format (m + 1) e).exponent - 1).natAbs < 10 ^ 3 by omega)
          omega
      · nofun

end Binary

end ModelRelay
