import ModelRelay.Decimal.Binary
import Mathlib.Tactic

/-!
# Rounding

What a fraction comes to in a binary format, as a bound on the error. The significand is the
quotient by a power of two, to the nearest whole number, so **a rounded fraction is off by half a
unit in its last place at most** (`ofFraction_near`), and it is a number of the format unless it
lies half a unit or more above the greatest of them. Products, quotients and powers of ten are
rounded fractions, and their bounds follow.

The bound is put together from the three steps of the rounding. The exponent is guessed from the
binary logarithms of the two parts, which leaves it one off at most, and one comparison settles it
(`exponentOf_bounds`). Dividing by the unit of that exponent and rounding to the nearest is off by
half of it (`roundDiv_shifted_near`). If this rounds up to the next power of two, the significand
has a digit too many and the exponent takes it (`renormalised_spec`), which changes the spelling and
not the value.

Nothing is said here of ties. That they go to even digits matters for which of two neighbours is
taken and not for the distance to either.

Sizes are compared as rationals. The powers of two and ten stay powers throughout; written out, they
would have hundreds of digits.
-/

set_option autoImplicit false

namespace ModelRelay

/-- A format in which there are numbers. -/
structure BinaryFormat.IsSound (f : BinaryFormat) : Prop where
  precision_pos : 0 < f.precision
  least_le : f.least ≤ f.greatest

namespace Binary

/-- The size of a finite number. -/
def magnitude : Binary → ℚ
  | .finite _ significand exponent => significand * 2 ^ exponent
  | .infinite _ => 0

/-- A number with an exponent is a fraction whose lower part is a power of two or one. -/
theorem fraction_pos (significand : ℕ) (exponent : ℤ) : 0 < (fraction significand exponent).2 := by
  rw [fraction]
  split
  · exact Nat.one_pos
  · exact Nat.pos_of_ne_zero (by simp)

/-- The fraction of a number with an exponent has its value, on either side of zero. -/
theorem fraction_eq (significand : ℕ) (exponent : ℤ) :
    ((fraction significand exponent).1 : ℚ) / (fraction significand exponent).2
      = significand * 2 ^ exponent := by
  rw [fraction]
  split
  · rename_i h
    obtain ⟨n, rfl⟩ := Int.eq_ofNat_of_zero_le h
    simp
  · rename_i h
    obtain ⟨n, rfl⟩ : ∃ n : ℕ, exponent = -n := ⟨(-exponent).toNat, by omega⟩
    simp [zpow_neg, div_eq_mul_inv]

/-! ## Rounding a quotient

Everything rounded is a quotient of natural numbers, and the one fact about it is that the remainder
is what is lost. -/

section Quotient

variable {num den : ℕ}

/-- A quotient to the nearest whole number is off by a half at most, and on a tie by a half
whichever way it goes. -/
theorem roundDiv_near (hden : 0 < den) : |(roundDiv num den : ℚ) - num / den| ≤ 1 / 2 := by
  have hd : (0 : ℚ) < den := by exact_mod_cast hden
  have hq : (num : ℚ) / den = (num / den : ℕ) + (num % den : ℕ) / den := by
    have h : (num : ℚ) = den * (num / den : ℕ) + (num % den : ℕ) := by
      exact_mod_cast (Nat.div_add_mod num den).symm
    rw [h]
    field_simp
  -- What is rounded away is the remainder, so its half is all that the cases turn on.
  have hlow : (0 : ℚ) ≤ (num % den : ℕ) / den := by positivity
  have hhigh : ((num % den : ℕ) : ℚ) / den ≤ 1 := by
    rw [div_le_one hd]
    exact_mod_cast (Nat.mod_lt num hden).le
  have habove (h : den ≤ 2 * (num % den)) : (1 : ℚ) / 2 ≤ (num % den : ℕ) / den := by
    rw [div_le_div_iff₀ two_pos hd, one_mul, mul_comm]
    exact_mod_cast h
  have hbelow (h : 2 * (num % den) ≤ den) : ((num % den : ℕ) : ℚ) / den ≤ 1 / 2 := by
    rw [div_le_div_iff₀ hd two_pos, one_mul, mul_comm]
    exact_mod_cast h
  rw [hq, abs_le, roundDiv]
  split_ifs with h1 h2 h3
  · have := hbelow h1.le
    constructor <;> linarith
  · have := habove h2.le
    push_cast
    constructor <;> linarith
  · have := hbelow (not_lt.mp h2)
    constructor <;> linarith
  · have := habove (not_lt.mp h1)
    push_cast
    constructor <;> linarith

/-- Rounding does not lead beyond a whole number that the quotient lies below. -/
theorem roundDiv_le_of_lt {bound : ℕ} (h : num < bound * den) : roundDiv num den ≤ bound := by
  have hq : num / den < bound := Nat.div_lt_of_lt_mul (by rwa [Nat.mul_comm] at h)
  rw [roundDiv]
  split_ifs <;> omega

/-! ## The exponent of a fraction

The unit of the last place is a power of two, and a fraction is brought to it by a shift of one of
its parts. Which unit it is depends on where the fraction lies among the powers of two. -/

/-- Shifting a fraction by a power of two. -/
def shifted (num den : ℕ) (exponent : ℤ) : ℕ × ℕ :=
  if 0 ≤ exponent then (num, den * Nat.pow 2 exponent.toNat)
  else (num * Nat.pow 2 (-exponent).toNat, den)

theorem shifted_pos (hden : 0 < den) (exponent : ℤ) : 0 < (shifted num den exponent).2 := by
  rw [shifted]
  split
  · exact Nat.mul_pos hden (Nat.pos_of_ne_zero (by simp))
  · exact hden

/-- A shift divides by the power of two, whichever of the two parts it multiplies. -/
theorem shifted_eq (num den : ℕ) (exponent : ℤ) :
    ((shifted num den exponent).1 : ℚ) / (shifted num den exponent).2
      = num / den / 2 ^ exponent := by
  rw [shifted]
  split
  · rename_i h
    obtain ⟨n, rfl⟩ := Int.eq_ofNat_of_zero_le h
    simp [div_div]
  · rename_i h
    obtain ⟨n, rfl⟩ : ∃ n : ℕ, exponent = -n := ⟨(-exponent).toNat, by omega⟩
    simp [zpow_neg]
    ring

/-- Rounding a shifted fraction is off by half of what it was shifted by at most. -/
theorem roundDiv_shifted_near (num : ℕ) (hden : 0 < den) (unit : ℤ) :
    |(roundDiv (shifted num den unit).1 (shifted num den unit).2 : ℚ) * 2 ^ unit - num / den|
      ≤ 2 ^ unit / 2 := by
  have hround : |(roundDiv (shifted num den unit).1 (shifted num den unit).2 : ℚ)
      - (shifted num den unit).1 / (shifted num den unit).2| ≤ 1 / 2 :=
    roundDiv_near (shifted_pos hden unit)
  rw [shifted_eq] at hround
  generalize roundDiv (shifted num den unit).1 (shifted num den unit).2 = rounded at hround ⊢
  have hpos : (0 : ℚ) < 2 ^ unit := by positivity
  have hscale : (rounded : ℚ) * 2 ^ unit - num / den
      = (rounded - num / den / 2 ^ unit) * 2 ^ unit := by
    field_simp
  rw [hscale, abs_mul, abs_of_pos hpos]
  nlinarith

/-- A fraction below the power of two that the precision reaches has a significand that reaches it
at most. It can do so: rounding up may lead there. -/
theorem roundDiv_shifted_le (hden : 0 < den) {precision : ℕ} {unit : ℤ}
    (h : (num : ℚ) / den < 2 ^ ((precision : ℤ) + unit)) :
    roundDiv (shifted num den unit).1 (shifted num den unit).2 ≤ 2 ^ precision := by
  apply roundDiv_le_of_lt
  have hs : (0 : ℚ) < (shifted num den unit).2 := by exact_mod_cast shifted_pos hden unit
  rw [← Nat.cast_lt (α := ℚ), Nat.cast_mul, ← div_lt_iff₀ hs, shifted_eq,
    div_lt_iff₀ (by positivity), Nat.cast_pow, Nat.cast_ofNat, ← zpow_natCast,
    ← zpow_add₀ two_ne_zero]
  exact h

/-- A positive number lies between the power of two of its logarithm and the next. -/
theorem two_zpow_log2 {n : ℕ} (h : 0 < n) :
    (2 : ℚ) ^ (n.log2 : ℤ) ≤ n ∧ (n : ℚ) < 2 ^ ((n.log2 : ℤ) + 1) := by
  constructor
  · exact_mod_cast Nat.log2_self_le h.ne'
  · exact_mod_cast Nat.lt_log2_self

/-- The significand of a fraction is of full precision, unless its exponent is the least that the
format has. -/
theorem exponentOf_bounds (f : BinaryFormat) (hf : f.IsSound) (hnum : 0 < num) (hden : 0 < den) :
    (num : ℚ) / den < 2 ^ ((f.precision : ℤ) + exponentOf f num den) ∧
      (exponentOf f num den = f.least ∨
        (2 : ℚ) ^ ((f.precision : ℤ) - 1 + exponentOf f num den) ≤ num / den) := by
  have h2 : (1 : ℚ) < 2 := one_lt_two
  have hd : (0 : ℚ) < den := by exact_mod_cast hden
  obtain ⟨hnumLow, hnumHigh⟩ := two_zpow_log2 hnum
  obtain ⟨hdenLow, hdenHigh⟩ := two_zpow_log2 hden
  let guess : ℤ := (num.log2 : ℤ) - (den.log2 : ℤ) - ((f.precision : ℤ) - 1)
  -- The logarithms settle the exponent but for one.
  have hhigh : (num : ℚ) / den < 2 ^ ((f.precision : ℤ) + guess) := by
    rw [div_lt_iff₀ hd]
    calc (num : ℚ) < 2 ^ ((num.log2 : ℤ) + 1) := hnumHigh
      _ = 2 ^ ((f.precision : ℤ) + guess) * 2 ^ (den.log2 : ℤ) := by
        rw [← zpow_add₀ two_ne_zero]
        congr 1
        simp only [guess]
        ring
      _ ≤ _ := by gcongr
  have hlow : (2 : ℚ) ^ ((f.precision : ℤ) - 1 + (guess - 1)) < num / den := by
    rw [lt_div_iff₀ hd]
    calc _ < (2 : ℚ) ^ ((f.precision : ℤ) - 1 + (guess - 1)) * 2 ^ ((den.log2 : ℤ) + 1) := by
          gcongr
      _ = 2 ^ (num.log2 : ℤ) := by
        rw [← zpow_add₀ two_ne_zero]
        congr 1
        simp only [guess]
        ring
      _ ≤ num := hnumLow
  -- What the definition compares is whether the guess is one too great.
  have htest : (shifted num den guess).2 * Nat.pow 2 (f.precision - 1) ≤ (shifted num den guess).1
      ↔ (2 : ℚ) ^ ((f.precision : ℤ) - 1 + guess) ≤ num / den := by
    have hs : (0 : ℚ) < (shifted num den guess).2 := by exact_mod_cast shifted_pos hden guess
    have hprecision : ((f.precision - 1 : ℕ) : ℤ) = f.precision - 1 := by
      have := hf.precision_pos
      omega
    rw [← Nat.cast_le (α := ℚ), Nat.cast_mul, mul_comm, ← le_div_iff₀ hs, shifted_eq,
      le_div_iff₀ (by positivity), zpow_add₀ two_ne_zero, ← hprecision, zpow_natCast]
    simp
  obtain ⟨exact, hexact, hupper, hlower⟩ : ∃ exact : ℤ,
      exponentOf f num den = max exact f.least ∧
        (num : ℚ) / den < 2 ^ ((f.precision : ℤ) + exact) ∧
        (2 : ℚ) ^ ((f.precision : ℤ) - 1 + exact) ≤ num / den := by
    by_cases h : (shifted num den guess).2 * Nat.pow 2 (f.precision - 1)
        ≤ (shifted num den guess).1
    · refine ⟨guess, ?_, hhigh, htest.mp h⟩
      exact congrArg (max · f.least) (if_pos h)
    · refine ⟨guess - 1, congrArg (max · f.least) (if_neg h), ?_, hlow.le⟩
      rw [htest, not_le] at h
      rwa [show (f.precision : ℤ) + (guess - 1) = f.precision - 1 + guess by ring]
  rw [hexact]
  rcases le_total exact f.least with hle | hle
  · rw [max_eq_right hle]
    exact ⟨hupper.trans_le (by gcongr; exact h2.le), Or.inl rfl⟩
  · rw [max_eq_left hle]
    exact ⟨hupper, Or.inr hlower⟩

/-! ## A fraction in a format -/

/-- A number that the format has. -/
def IsOf (f : BinaryFormat) : Binary → Prop
  | .finite _ significand exponent =>
    significand < 2 ^ f.precision ∧ f.least ≤ exponent ∧ exponent ≤ f.greatest
  | .infinite _ => True

/-- From here on a format has no number: half a unit above its greatest. -/
def limit (f : BinaryFormat) : ℚ :=
  (2 ^ f.precision - 1 / 2) * 2 ^ f.greatest

/-- Rounding up may lead to the next power of two, which has the next exponent. -/
def renormalised (f : BinaryFormat) (rounded : ℕ) (unit : ℤ) : ℕ × ℤ :=
  if rounded = Nat.pow 2 f.precision then (Nat.pow 2 (f.precision - 1), unit + 1)
  else (rounded, unit)

/-- Renormalising keeps the value, and leaves a significand that fits. -/
theorem renormalised_spec (f : BinaryFormat) (hf : f.IsSound) {rounded : ℕ} (unit : ℤ)
    (hle : rounded ≤ 2 ^ f.precision) :
    ((renormalised f rounded unit).1 : ℚ) * 2 ^ (renormalised f rounded unit).2
        = rounded * 2 ^ unit ∧
      (renormalised f rounded unit).1 < 2 ^ f.precision ∧
      ((renormalised f rounded unit).2 = unit ∨
        (renormalised f rounded unit).2 = unit + 1 ∧ rounded = 2 ^ f.precision) := by
  by_cases h : rounded = Nat.pow 2 f.precision
  · rw [renormalised, if_pos h]
    refine ⟨?_, Nat.pow_lt_pow_right one_lt_two (Nat.sub_lt hf.precision_pos one_pos),
      Or.inr ⟨rfl, h⟩⟩
    obtain ⟨p, hp⟩ := Nat.exists_eq_succ_of_ne_zero hf.precision_pos.ne'
    rw [h, Nat.pow_eq, Nat.pow_eq, hp, zpow_add_one₀ two_ne_zero]
    simp [pow_succ]
    ring
  · rw [renormalised, if_neg h]
    exact ⟨rfl, lt_of_le_of_ne hle h, Or.inl rfl⟩

/-- Rounding as its three steps: the exponent, the significand, and the carry between them. -/
theorem ofFraction_eq (f : BinaryFormat) (negative : Bool) (hnum : 0 < num) (den : ℕ) :
    ofFraction f negative num den =
      let unit := exponentOf f num den
      let r := renormalised f (roundDiv (shifted num den unit).1 (shifted num den unit).2) unit
      if f.greatest < r.2 then .infinite negative else .finite negative r.1 r.2 := by
  rw [ofFraction, if_neg hnum.ne']
  simp only [shifted]
  split <;> rfl

/-- **What a fraction comes to in a format**: a number of the format, off by half a unit in its last
place at most, or an infinity if it lies half a unit or more above the greatest number. -/
theorem ofFraction_near (f : BinaryFormat) (hf : f.IsSound) (negative : Bool) (hnum : 0 < num)
    (hden : 0 < den) :
    ofFraction f negative num den = .infinite negative ∧
        limit f ≤ num / den ∨
      ∃ significand exponent unit, ofFraction f negative num den
          = .finite negative significand exponent ∧
        IsOf f (.finite negative significand exponent) ∧
        (unit = f.least ∨ (2 : ℚ) ^ ((f.precision : ℤ) - 1 + unit) ≤ num / den) ∧
        |(significand : ℚ) * 2 ^ exponent - num / den| ≤ 2 ^ unit / 2 := by
  obtain ⟨hupper, hlower⟩ := exponentOf_bounds f hf hnum hden
  have hleast : f.least ≤ exponentOf f num den := le_max_right _ _
  have hresult := ofFraction_eq f negative hnum den
  dsimp only at hresult
  generalize exponentOf f num den = unit at hupper hlower hleast hresult
  have hnear := roundDiv_shifted_near num hden unit
  have hle := roundDiv_shifted_le hden hupper
  generalize roundDiv (shifted num den unit).1 (shifted num den unit).2 = rounded
    at hnear hle hresult
  obtain ⟨hvalue, hlt, hexponent⟩ := renormalised_spec f hf unit hle
  generalize renormalised f rounded unit = r at hresult hvalue hlt hexponent
  by_cases hbig : f.greatest < r.2
  · left
    -- Too great an exponent means too great a fraction, be it the fraction's own or the one that it
    -- was rounded up to.
    refine ⟨hresult.trans (if_pos hbig), ?_⟩
    rw [limit]
    have hone : (1 : ℚ) ≤ 2 ^ f.precision := one_le_pow₀ one_le_two
    rcases hexponent with heq | ⟨heq, hpower⟩
    · have hlow := hlower.resolve_left fun hunit => by
        have := hf.least_le
        omega
      have hmono : (2 : ℚ) ^ ((f.precision : ℤ) + f.greatest)
          ≤ 2 ^ ((f.precision : ℤ) - 1 + unit) :=
        zpow_le_zpow_right₀ one_le_two (by omega)
      rw [zpow_add₀ two_ne_zero, zpow_natCast] at hmono
      have hgreatest : (0 : ℚ) < 2 ^ f.greatest := by positivity
      nlinarith
    · rw [hpower, abs_le] at hnear
      have hmono : (2 : ℚ) ^ f.greatest ≤ 2 ^ unit := zpow_le_zpow_right₀ one_le_two (by omega)
      push_cast at hnear
      nlinarith [hnear.2]
  · right
    refine ⟨r.1, r.2, unit, hresult.trans (if_neg hbig), ⟨hlt, ?_, not_lt.mp hbig⟩, hlower,
      hvalue ▸ hnear⟩
    omega

/-- **Whatever is rounded to a format is a number of it**, if it is not infinite. -/
theorem isOf_ofFraction (f : BinaryFormat) (hf : f.IsSound) (negative : Bool) (num : ℕ)
    (hden : 0 < den) : IsOf f (ofFraction f negative num den) := by
  rcases Nat.eq_zero_or_pos num with rfl | hnum
  · exact ⟨by positivity, le_rfl, hf.least_le⟩
  · rcases ofFraction_near f hf negative hnum hden with ⟨h, -⟩ | ⟨_, _, _, h, hof, -⟩
    · rw [h]
      trivial
    · rw [h]
      exact hof

/-- Half a unit above the greatest number a fraction is rounded down still. -/
theorem isInfinite_ofFraction (f : BinaryFormat) (hf : f.IsSound) (negative : Bool)
    (hden : 0 < den) (h : (num : ℚ) / den < limit f) :
    (ofFraction f negative num den).isInfinite = false := by
  rcases Nat.eq_zero_or_pos num with rfl | hnum
  · rfl
  · rcases ofFraction_near f hf negative hnum hden with ⟨-, hle⟩ | ⟨_, _, _, hfinite, -⟩
    · exact absurd h (not_lt.mpr hle)
    · rw [hfinite]
      rfl

/-- Where significands are of full precision, the relative error of rounding is bounded. -/
theorem magnitude_ofFraction_near (f : BinaryFormat) (hf : f.IsSound) (negative : Bool) (num : ℕ)
    (hden : 0 < den) (hlow : (2 : ℚ) ^ ((f.precision : ℤ) - 1 + f.least) ≤ num / den)
    (hhigh : (num : ℚ) / den < limit f) :
    |(ofFraction f negative num den).magnitude - num / den|
      ≤ num / den * (1 / 2 ^ f.precision) := by
  have hnum : 0 < num := by
    by_contra h
    rw [Nat.eq_zero_of_not_pos h, Nat.cast_zero, zero_div] at hlow
    exact absurd hlow (not_le.mpr (by positivity))
  rcases ofFraction_near f hf negative hnum hden with ⟨-, hle⟩ | ⟨m, e, unit, h, -, hunit, hnear⟩
  · exact absurd hhigh (not_lt.mpr hle)
  · rw [h]
    refine hnear.trans ?_
    have hle : (2 : ℚ) ^ ((f.precision : ℤ) - 1 + unit) ≤ num / den := by
      rcases hunit with rfl | hunit
      · exact hlow
      · exact hunit
    rw [mul_one_div, le_div_iff₀ (by positivity)]
    refine le_trans (le_of_eq ?_) hle
    rw [zpow_add₀ two_ne_zero, zpow_sub₀ two_ne_zero, zpow_natCast]
    simp
    ring

end Quotient

/-! ## Arithmetic

Each operation makes the exact fraction first and rounds it once, so its error is that of one
rounding, and it is infinite only if its exact value is beyond the limit. -/

/-- The sign is kept apart from the size. -/
theorem magnitude_nonneg (x : Binary) : 0 ≤ x.magnitude := by
  cases x with
  | finite _ m e => exact mul_nonneg (Nat.cast_nonneg m) (by positivity)
  | infinite _ => exact le_rfl

/-- A number of a format lies below its limit, for the limit is half a unit beyond the greatest of
them. -/
theorem IsOf.magnitude_lt {f : BinaryFormat} {x : Binary} (h : x.IsOf f) :
    x.magnitude < limit f := by
  cases x with
  | finite _ m e =>
    obtain ⟨hm, -, he⟩ := h
    have hm' : (m : ℚ) ≤ 2 ^ f.precision - 1 := by
      rw [le_sub_iff_add_le]
      exact_mod_cast hm
    have hmono : (2 : ℚ) ^ e ≤ 2 ^ f.greatest := zpow_le_zpow_right₀ one_le_two he
    have hpos : (0 : ℚ) < 2 ^ f.greatest := by positivity
    calc (m : ℚ) * 2 ^ e ≤ m * 2 ^ f.greatest := by gcongr
      _ ≤ (2 ^ f.precision - 1) * 2 ^ f.greatest := by gcongr
      _ < limit f := by
        rw [limit]
        nlinarith
  | infinite _ =>
    have hone : (1 : ℚ) ≤ 2 ^ f.precision := one_le_pow₀ one_le_two
    exact mul_pos (by linarith) (by positivity)

section Arithmetic

variable {f : BinaryFormat} {x y : Binary}

theorem mul_finite (f : BinaryFormat) (s t : Bool) (m n : ℕ) (p q : ℤ) :
    mul f (.finite s m p) (.finite t n q)
      = ofFraction f (s != t) (fraction (m * n) (p + q)).1 (fraction (m * n) (p + q)).2 := rfl

theorem div_finite (f : BinaryFormat) (s t : Bool) (m n : ℕ) (p q : ℤ) :
    div f (.finite s m p) (.finite t n q)
      = ofFraction f (s != t) ((fraction m p).1 * (fraction n q).2)
          ((fraction m p).2 * (fraction n q).1) := rfl

theorem isOf_mul (hf : f.IsSound) (x y : Binary) : (mul f x y).IsOf f := by
  cases x <;> cases y
  case finite.finite => exact isOf_ofFraction f hf _ _ (fraction_pos _ _)
  all_goals trivial

theorem isInfinite_mul (hf : f.IsSound) (hx : x.isInfinite = false) (hy : y.isInfinite = false)
    (h : x.magnitude * y.magnitude < limit f) : (mul f x y).isInfinite = false := by
  cases x with
  | infinite _ => nomatch hx
  | finite s m p =>
    cases y with
    | infinite _ => nomatch hy
    | finite t n q =>
      rw [mul_finite]
      refine isInfinite_ofFraction f hf _ (fraction_pos _ _) ?_
      rw [fraction_eq]
      refine lt_of_eq_of_lt ?_ h
      rw [magnitude, magnitude, zpow_add₀ two_ne_zero]
      push_cast
      ring

theorem isOf_convert (hf : f.IsSound) (x : Binary) : (convert f x).IsOf f := by
  cases x with
  | finite negative m e => exact isOf_ofFraction f hf _ _ (fraction_pos m e)
  | infinite _ => trivial

theorem isInfinite_convert (hf : f.IsSound) (hx : x.isInfinite = false)
    (h : x.magnitude < limit f) : (convert f x).isInfinite = false := by
  cases x with
  | finite negative m e =>
    exact isInfinite_ofFraction f hf _ (fraction_pos m e) ((fraction_eq m e).trans_lt h)
  | infinite _ => exact absurd hx (by simp [isInfinite])

/-- A quotient is a number of the format too, if it is not one by zero and lies below the limit. -/
theorem isOf_div (hf : f.IsSound) (hx : x.isInfinite = false) (hy : y.isInfinite = false)
    (hpos : 0 < y.magnitude) (h : x.magnitude / y.magnitude < limit f) :
    (div f x y).IsOf f ∧ (div f x y).isInfinite = false := by
  cases x with
  | infinite _ => nomatch hx
  | finite s m p =>
    cases y with
    | infinite _ => nomatch hy
    | finite t n q =>
      have hc : 0 < (fraction n q).1 := by
        by_contra hzero
        have heq := fraction_eq n q
        rw [Nat.eq_zero_of_not_pos hzero, Nat.cast_zero, zero_div] at heq
        rw [magnitude, ← heq] at hpos
        exact lt_irrefl 0 hpos
      have hden := Nat.mul_pos (fraction_pos m p) hc
      rw [div_finite]
      refine ⟨isOf_ofFraction f hf _ _ hden, isInfinite_ofFraction f hf _ hden ?_⟩
      refine lt_of_eq_of_lt ?_ h
      rw [magnitude, magnitude, ← fraction_eq, ← fraction_eq, div_div_div_eq]
      push_cast
      ring

end Arithmetic

theorem isSound_double : BinaryFormat.double.IsSound := ⟨by decide, by decide⟩

theorem isSound_single : BinaryFormat.single.IsSound := ⟨by decide, by decide⟩

/-! ## Powers of ten

A decimal is scaled by a power of ten that is itself rounded. These are the bounds on that first
rounding; the second is the product or the quotient. -/

/-- The greatest power of ten that is a double, and the least that is none. -/
theorem limit_double : (10 : ℚ) ^ 308 < limit .double ∧ limit .double < 10 ^ 309 := by
  -- The powers stay names: no tactic is to write out their digits.
  obtain ⟨ten, hten⟩ : ∃ n : ℕ, n = 10 ^ 308 := ⟨_, rfl⟩
  obtain ⟨two, htwo⟩ : ∃ n : ℕ, n = 2 ^ 971 := ⟨_, rfl⟩
  have hlow : 2 * ten + two < 2 ^ 54 * two := by
    rw [hten, htwo]
    decide +kernel
  have hhigh : 2 ^ 53 * two < 10 * ten := by
    rw [hten, htwo]
    decide +kernel
  have hlow' : (2 : ℚ) * ten + two < 2 ^ 54 * two := by exact_mod_cast hlow
  have hhigh' : (2 : ℚ) ^ 53 * two < 10 * ten := by exact_mod_cast hhigh
  have htwo' : (0 : ℚ) ≤ two := Nat.cast_nonneg two
  have hlimit : limit .double = (2 ^ 53 - 1 / 2) * two := by
    rw [htwo, Nat.cast_pow, Nat.cast_ofNat]
    rfl
  have hten' : (10 : ℚ) ^ 308 = ten := by rw [hten, Nat.cast_pow, Nat.cast_ofNat]
  have hsucc : (10 : ℚ) ^ 309 = 10 ^ 308 * 10 := pow_succ _ _
  rw [hsucc, hten', hlimit]
  clear hten htwo hlow hhigh hten' hlimit hsucc
  constructor <;> linarith

theorem ten_pow_lt_limit {k : ℕ} (hk : k ≤ 308) : (10 : ℚ) ^ k < limit .double :=
  (pow_le_pow_right₀ (by norm_num) hk).trans_lt limit_double.1

/-- What a single cannot exceed, a double does not. A power of ten stands between the two limits. -/
theorem limit_single_le : limit .single ≤ limit .double :=
  calc limit .single ≤ (10 : ℚ) ^ 39 := by norm_num [limit, BinaryFormat.single]
    _ ≤ limit .double := (ten_pow_lt_limit (by decide)).le

/-- A power of ten that is a double, up to rounding. -/
theorem powerOfTen_near {k : ℕ} (hk : k ≤ 308) :
    (powerOfTen .double k).isInfinite = false ∧
      |(powerOfTen .double k).magnitude - 10 ^ k| ≤ 10 ^ k * (1 / 2 ^ 53) := by
  have hlimit := ten_pow_lt_limit hk
  have hone : (1 : ℚ) ≤ 10 ^ k := one_le_pow₀ (by norm_num)
  constructor
  · refine isInfinite_ofFraction .double isSound_double _ one_pos ?_
    simpa using hlimit
  · have hnear := magnitude_ofFraction_near .double isSound_double false (10 ^ k) one_pos
      (by
        refine le_trans ?_ (le_of_le_of_eq hone (by simp))
        exact zpow_le_one_of_nonpos₀ one_le_two (by decide))
      (by simpa using hlimit)
    simpa [powerOfTen, ofNat, BinaryFormat.double] using hnear

theorem one_le_powerOfTen {k : ℕ} (hk : k ≤ 308) : 1 ≤ (powerOfTen .double k).magnitude := by
  rcases Nat.eq_zero_or_pos k with rfl | hpos
  · have hone : powerOfTen .double 0 = .finite false (2 ^ 52) (-52) := by decide
    rw [hone, magnitude]
    norm_num
  · have hnear := (powerOfTen_near hk).2
    have hten : (10 : ℚ) ≤ 10 ^ k := le_self_pow₀ (by norm_num) hpos.ne'
    rw [abs_le] at hnear
    linarith [hnear.1]

end Binary
end ModelRelay
