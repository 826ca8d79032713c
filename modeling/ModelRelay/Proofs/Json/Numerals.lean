import ModelRelay.Json.Printer
import ModelRelay.Json.Reader
import ModelRelay.Proofs.Json.Scaling
import ModelRelay.Proofs.Text.Utf8

/-!
# Numerals in a text

`Numeral.write` spells out a numeral by its parts, and **the reader takes the same parts off the
text** (`Reader.numeral?_write`), whatever ends the value behind them. The proof goes backwards
along the text: the exponent is read off what ends the value, the fraction off the exponent, and the
whole digits off both, and at each joint it is enough to know which byte comes first.

What number the parts stand for is then a matter of their digits: a significand that takes in as
many of them as fit 64 bits never exceeds what they spell (`grow_spec`), and is all of it where all
of it fits. The two forms that a printer writes are worked out, digits with a point among them and
digits with an exponent; the forms that only a caller writes are not needed here.
-/

set_option autoImplicit false

namespace ModelRelay.Json

namespace Numeral

/-! ## Digits

The number that a list of digits spells is a fold from the left, while a text is taken apart from
the left too: each lemma splits off the power of ten that the digits behind it count for. -/

/-- What is already read is shifted by the digits that follow. -/
theorem foldl_eq (n : ℕ) (ds : List ℕ) :
    ds.foldl (fun n d => n * 10 + d) n = n * 10 ^ ds.length + value ds := by
  induction ds generalizing n with
  | nil => simp [value]
  | cons d rest ih =>
    have hvalue : value (d :: rest) = (0 * 10 + d) * 10 ^ rest.length + value rest := ih _
    rw [List.foldl_cons, ih, hvalue, List.length_cons]
    ring

theorem value_cons (d : ℕ) (ds : List ℕ) : value (d :: ds) = d * 10 ^ ds.length + value ds := by
  rw [value, List.foldl_cons, foldl_eq]
  ring

theorem value_append (ds es : List ℕ) :
    value (ds ++ es) = value ds * 10 ^ es.length + value es := by
  rw [value, List.foldl_append, foldl_eq]
  rfl

theorem value_lt {ds : List ℕ} (h : ∀ d ∈ ds, d < 10) : value ds < 10 ^ ds.length := by
  induction ds with
  | nil => exact Nat.one_pos
  | cons d rest ih =>
    obtain ⟨hd, hrest⟩ := List.forall_mem_cons.mp h
    have hlt := ih hrest
    rw [value_cons, List.length_cons, pow_succ]
    nlinarith

/-- What goes into a significand never exceeds what the digits spell, and is all of it where that
fits 64 bits. -/
theorem grow_spec (taken : ℕ) {n : ℕ} {ds : List ℕ} (hn : n < 0x10000000000000000)
    (hds : ∀ d ∈ ds, d < 10) :
    ∃ m more left, grow n taken ds = (m, taken + more, left) ∧ more + left = ds.length ∧
      m < 0x10000000000000000 ∧ m * 10 ^ left ≤ n * 10 ^ ds.length + value ds ∧
      (n * 10 ^ ds.length + value ds < 0x10000000000000000 →
        m = n * 10 ^ ds.length + value ds ∧ left = 0) := by
  induction ds generalizing n taken with
  | nil => exact ⟨n, 0, 0, rfl, rfl, hn, by simp [value], fun _ => by simp [value]⟩
  | cons d rest ih =>
    obtain ⟨hd, hrest⟩ := List.forall_mem_cons.mp hds
    have hvalue : n * 10 ^ (d :: rest).length + value (d :: rest)
        = (n * 10 + d) * 10 ^ rest.length + value rest := by
      rw [value_cons, List.length_cons]
      ring
    rw [hvalue, grow]
    split_ifs with hlarger
    · obtain ⟨m, more, left, hgrow, hlength, hm, hle, hall⟩ := ih (taken + 1) hlarger hrest
      refine ⟨m, more + 1, left, ?_, ?_, hm, hle, hall⟩
      · rw [hgrow, add_assoc, add_comm 1 more]
      · rw [List.length_cons]
        omega
    · -- The digit does not fit: it and all behind it are left out, which only lowers the number.
      have hone : 1 ≤ 10 ^ rest.length := Nat.one_le_pow _ _ (by decide)
      refine ⟨n, 0, rest.length + 1, rfl, by simp, hn, ?_, fun hlt => ?_⟩
      · rw [pow_succ]
        nlinarith
      · nlinarith

/-- The digits of a number as they are written: no zero stands in front of others. -/
structure IsDecimal (ds : List ℕ) (n : ℕ) : Prop where
  below : ∀ d ∈ ds, d < 10
  value_eq : value ds = n
  leading : ds = [0] ∨ ∃ d rest, ds = d :: rest ∧ 0 < d

theorem exists_isDecimal (n : ℕ) :
    ∃ ds, Nat.toDigits 10 n = ds.map Nat.digitChar ∧ IsDecimal ds n := by
  induction n using Nat.strong_induction_on with
  | _ n ih =>
    rw [Nat.toDigits_eq_if (by decide)]
    split_ifs with hn
    · refine ⟨[n], rfl, ⟨by simpa using hn, by simp [value], ?_⟩⟩
      rcases Nat.eq_zero_or_pos n with rfl | hpos
      · exact Or.inl rfl
      · exact Or.inr ⟨n, [], rfl, hpos⟩
    · obtain ⟨ds, hds, hbelow, hvalue, hleading⟩ := ih (n / 10) (by omega)
      refine ⟨ds ++ [n % 10], by rw [hds, List.map_append]; rfl, ⟨?_, ?_, Or.inr ?_⟩⟩
      · intro d hd
        rcases List.mem_append.mp hd with hd | hd
        · exact hbelow d hd
        · rw [List.mem_singleton.mp hd]
          omega
      · rw [value_append, hvalue]
        simp only [value, List.foldl_cons, List.foldl_nil, List.length_singleton]
        omega
      · rcases hleading with rfl | ⟨d, rest, rfl, hd⟩
        · have hzero : 0 = n / 10 := hvalue
          omega
        · exact ⟨d, rest ++ [n % 10], rfl, hd⟩

theorem IsDecimal.ne_nil {ds : List ℕ} {n : ℕ} (h : IsDecimal ds n) : ds ≠ [] := by
  rcases h.leading with rfl | ⟨d, rest, rfl, -⟩ <;> exact List.cons_ne_nil _ _

/-- As its first digit is not zero, a number is no less than the power of ten below its digits. -/
theorem IsDecimal.pow_le {d n : ℕ} {rest : List ℕ} (h : IsDecimal (d :: rest) n) (hn : 0 < n) :
    10 ^ rest.length ≤ n := by
  have hd : 0 < d := by
    rcases h.leading with hzero | ⟨d', rest', heq, hd⟩
    · rw [hzero] at h
      exact absurd h.value_eq hn.ne
    · rw [(List.cons.inj heq).1]
      exact hd
  rw [← h.value_eq, value_cons]
  calc 10 ^ rest.length = 1 * 10 ^ rest.length := (one_mul _).symm
    _ ≤ d * 10 ^ rest.length := by gcongr; exact hd
    _ ≤ _ := Nat.le_add_right _ _

/-! ## Writing

A numeral is kept by its parts, as the reader splits it. Writing lays the parts out in a row, and
the grammar says which parts may stand there at all. -/

/-- The characters of a numeral behind its sign. An exponent always shows its own. -/
def write (n : Numeral) : List Char :=
  n.whole.map Nat.digitChar
    ++ (if n.fraction.isEmpty then [] else '.' :: n.fraction.map Nat.digitChar)
    ++ match n.exponent with
      | none => []
      | some (below, digits) => 'e' :: (if below then '-' else '+') :: digits.map Nat.digitChar

/-- A numeral of the JSON grammar. -/
structure IsValid (n : Numeral) : Prop where
  whole : ∀ d ∈ n.whole, d < 10
  leading : n.whole = [0] ∨ ∃ d rest, n.whole = d :: rest ∧ 0 < d
  fraction : ∀ d ∈ n.fraction, d < 10
  exponent : ∀ below digits, n.exponent = some (below, digits) →
    digits ≠ [] ∧ ∀ d ∈ digits, d < 10

end Numeral

namespace Reader

/-- Nothing, or what ends a value: a comma or a closing bracket. -/
def Ends (s : List UInt8) : Prop :=
  ∀ b ∈ s.head?, b = 0x2C ∨ b = 0x5D ∨ b = 0x7D

/-- The bytes of some characters. -/
def encode (cs : List Char) : List UInt8 :=
  cs.flatMap String.utf8EncodeChar

theorem encode_append (cs ds : List Char) : encode (cs ++ ds) = encode cs ++ encode ds :=
  List.flatMap_append

theorem encode_cons (c : Char) (cs : List Char) :
    encode (c :: cs) = String.utf8EncodeChar c ++ encode cs :=
  List.flatMap_cons

theorem encode_digitChar {d : ℕ} (hd : d < 10) (s : List Char) :
    encode (d.digitChar :: s) = UInt8.ofNat (0x30 + d) :: encode s := by
  rw [encode_cons]
  interval_cases d <;> rfl

theorem isDigit_digit {d : ℕ} (hd : d < 10) : isDigit (UInt8.ofNat (0x30 + d)) = true := by
  interval_cases d <;> rfl

theorem spanDigits_encode {ds : List ℕ} (hds : ∀ d ∈ ds, d < 10) {rest : List UInt8}
    (hrest : ∀ b ∈ rest.head?, isDigit b = false) :
    spanDigits (encode (ds.map Nat.digitChar) ++ rest) = (ds, rest) := by
  induction ds with
  | nil =>
    cases rest with
    | nil => rfl
    | cons b rest =>
      have hb := hrest b rfl
      show spanDigits (b :: rest) = _
      rw [spanDigits, List.takeWhile_cons, List.dropWhile_cons, hb]
      rfl
  | cons d ds ih =>
    obtain ⟨hd, hds⟩ := List.forall_mem_cons.mp hds
    have hvalue : (UInt8.ofNat (0x30 + d)).toNat - 0x30 = d := by interval_cases d <;> rfl
    obtain ⟨hdigits, hleft⟩ := Prod.mk.inj (ih hds)
    rw [List.map_cons, encode_digitChar hd, List.cons_append, spanDigits, List.takeWhile_cons,
      List.dropWhile_cons, isDigit_digit hd, if_pos rfl, if_pos rfl, List.map_cons, hvalue,
      hdigits, hleft]

theorem fraction?_of_ne {s : List UInt8} (h : ∀ b ∈ s.head?, b ≠ 0x2E) :
    fraction? s = some ([], s) := by
  rw [fraction?]
  intro t heq
  exact h 0x2E (by rw [heq]; rfl) rfl

theorem exponent?_of_ne {s : List UInt8} (h : ∀ b ∈ s.head?, b ≠ 0x65 ∧ b ≠ 0x45) :
    exponent? s = some (none, s) := by
  cases s with
  | nil => rfl
  | cons b rest =>
    obtain ⟨hlower, hupper⟩ := h b rfl
    simp [exponent?, hlower, hupper]

theorem exponent?_encode (below : Bool) {ds : List ℕ} (hne : ds ≠ []) (hds : ∀ d ∈ ds, d < 10)
    {rest : List UInt8} (hrest : ∀ b ∈ rest.head?, isDigit b = false) :
    exponent? (encode ('e' :: (if below then '-' else '+') :: ds.map Nat.digitChar) ++ rest)
      = some (some (below, ds), rest) := by
  have hspan := spanDigits_encode hds hrest
  have hsign : encode ('e' :: (if below then '-' else '+') :: ds.map Nat.digitChar) ++ rest
      = 0x65 :: (if below then 0x2D else 0x2B) :: (encode (ds.map Nat.digitChar) ++ rest) := by
    cases below <;> rfl
  rw [hsign]
  cases ds with
  | nil => exact absurd rfl hne
  | cons d more => cases below <;> simp [exponent?, hspan, -List.map_cons]

/-- What ends a value continues no numeral: it is no digit, no point, no `e` and no blank. -/
theorem Ends.head {s : List UInt8} (h : Ends s) {b : UInt8} (hb : b ∈ s.head?) :
    isDigit b = false ∧ b ≠ 0x2E ∧ b ≠ 0x65 ∧ b ≠ 0x45 ∧ isSpace b = false := by
  rcases h b hb with rfl | rfl | rfl <;> decide

/-- **A numeral is read back from its characters.** -/
theorem numeral?_write {n : Numeral} (hn : n.IsValid) {rest : List UInt8} (hrest : Ends rest) :
    numeral? n.negative (encode n.write ++ rest) = some (n, rest) := by
  obtain ⟨negative, whole, fraction, exponent⟩ := n
  obtain ⟨hwhole, hleading, hfraction, hexponent⟩ := hn
  dsimp only at hwhole hleading hfraction hexponent
  -- What is written behind the whole digits, and behind the fraction.
  obtain ⟨tail, htail⟩ : ∃ tail, tail =
      match (motive := Option (Bool × List ℕ) → List Char) exponent with
      | none => []
      | some (below, digits) => 'e' :: (if below then '-' else '+') :: digits.map Nat.digitChar :=
    ⟨_, rfl⟩
  have hexp : exponent? (encode tail ++ rest) = some (exponent, rest) := by
    rw [htail]
    match exponent, hexponent with
    | none, _ => exact exponent?_of_ne fun b hb => ⟨(hrest.head hb).2.2.1, (hrest.head hb).2.2.2.1⟩
    | some (below, digits), hexponent =>
      obtain ⟨hne, hdigits⟩ := hexponent below digits rfl
      exact exponent?_encode below hne hdigits fun b hb => (hrest.head hb).1
  have htailHead : ∀ b ∈ (encode tail ++ rest).head?, isDigit b = false ∧ b ≠ 0x2E := by
    rw [htail]
    match exponent with
    | none => exact fun b hb => ⟨(hrest.head hb).1, (hrest.head hb).2.1⟩
    | some (below, digits) =>
      intro b hb
      obtain rfl : 0x65 = b := Option.some.inj hb
      decide
  obtain ⟨middle, hmiddle⟩ : ∃ middle, middle =
      (if fraction.isEmpty then [] else '.' :: fraction.map Nat.digitChar) := ⟨_, rfl⟩
  have hfrac : fraction? (encode middle ++ (encode tail ++ rest))
      = some (fraction, encode tail ++ rest) := by
    rw [hmiddle]
    cases fraction with
    | nil => exact fraction?_of_ne fun b hb => (htailHead b hb).2
    | cons d more =>
      have hspan := spanDigits_encode hfraction fun b hb => (htailHead b hb).1
      have hpoint : encode ('.' :: (d :: more).map Nat.digitChar) ++ (encode tail ++ rest)
          = 0x2E :: (encode ((d :: more).map Nat.digitChar) ++ (encode tail ++ rest)) := rfl
      simp only [List.isEmpty_cons, Bool.false_eq_true, if_false, hpoint, fraction?, hspan]
  have hmiddleHead : ∀ b ∈ (encode middle ++ (encode tail ++ rest)).head?, isDigit b = false := by
    rw [hmiddle]
    cases fraction with
    | nil => exact fun b hb => (htailHead b hb).1
    | cons d more =>
      intro b hb
      obtain rfl : 0x2E = b := Option.some.inj hb
      decide
  have hwrite : Numeral.write ⟨negative, whole, fraction, exponent⟩
      = whole.map Nat.digitChar ++ middle ++ tail := by
    rw [hmiddle, htail]
    rfl
  have hspan := spanDigits_encode hwhole hmiddleHead
  -- The reader refuses a zero with digits behind it, so the first digit decides which way it goes.
  rw [hwrite, encode_append, encode_append, List.append_assoc, List.append_assoc, numeral?, hspan]
  rcases hleading with rfl | ⟨d, digits, rfl, hd⟩
  · simp only [hfrac, hexp]
  · cases d with
    | zero => exact absurd hd (lt_irrefl 0)
    | succ d => simp only [hfrac, hexp]

end Reader

namespace Numeral

/-! ## What a numeral stands for

The reader gathers digits while they fit 64 bits and counts the others in the exponent. What it
finds is a double then, and the lemmas say of which significand and exponent. -/

section Number

variable (negative : Bool) {whole fraction : List ℕ}

/-- The number of a numeral that shows a fraction and no exponent is a double: its point only goes
left, so that nothing can overflow. -/
theorem toNumber?_of_fraction (hwhole : ∀ d ∈ whole, d < 10) (hlength : whole.length ≤ 19)
    (hfraction : ∀ d ∈ fraction, d < 10) (hne : fraction ≠ []) :
    ∃ y, toNumber? ⟨negative, whole, fraction, none⟩ = some (.double y) := by
  have hfits : 0 * 10 ^ whole.length + value whole < 0x10000000000000000 := by
    rw [Nat.zero_mul, Nat.zero_add]
    refine (value_lt hwhole).trans_le ((Nat.pow_le_pow_right (by decide) hlength).trans ?_)
    decide
  obtain ⟨m, more, left, hgrow, -, hm, -, hall⟩ := grow_spec 0 (show 0 < _ by decide) hwhole
  obtain ⟨m', more', left', hgrow', -, hm', -, -⟩ := grow_spec 0 hm hfraction
  obtain ⟨-, rfl⟩ := hall hfits
  obtain ⟨y, hy⟩ := exists_double?_of_nonpos negative hm'
    (show ((0 : ℕ) : ℤ) - ((0 + more' : ℕ) : ℤ) ≤ 0 by omega)
  refine ⟨y, ?_⟩
  have hempty : fraction.isEmpty = false := List.isEmpty_eq_false_iff.mpr hne
  simp only [toNumber?, hgrow, hempty, Bool.false_and, if_neg Bool.false_ne_true, hgrow', hy,
    Option.map_some]

/-- The number of a numeral in scientific form: its significand may lack digits that do not fit, and
never exceeds what is written. -/
theorem toNumber?_of_exponent (below : Bool) {d : ℕ} {digits : List ℕ} (hd : d < 10)
    (hfraction : ∀ d ∈ fraction, d < 10) (hshort : value digits < 0x80000000) :
    ∃ m left : ℕ, m < 0x10000000000000000 ∧ m * 10 ^ left ≤ value (d :: fraction) ∧
      (value (d :: fraction) < 0x10000000000000000 → m = value (d :: fraction) ∧ left = 0) ∧
      toNumber? ⟨negative, [d], fraction, some (below, digits)⟩
        = (double? negative m ((if below then -(value digits : ℤ) else value digits)
            - fraction.length + left)).map .double := by
  have hvalue : value (d :: fraction) = d * 10 ^ fraction.length + value fraction := value_cons d _
  have hfirst : grow 0 0 [d] = (d, 1, 0) := by
    rw [grow, if_pos (by omega), grow, Nat.zero_mul, Nat.zero_add]
  obtain ⟨m, more, left, hgrow, hlength, hm, hle, hall⟩ :=
    grow_spec 0 (show d < 0x10000000000000000 by omega) hfraction
  refine ⟨m, left, hm, hvalue ▸ hle, hvalue ▸ hall, ?_⟩
  have hshift : (if below then ((0 : ℕ) : ℤ) - ((0 + more : ℕ) : ℤ) - (value digits : ℤ)
        else ((0 : ℕ) : ℤ) - ((0 + more : ℕ) : ℤ) + (value digits : ℤ))
      = (if below then -(value digits : ℤ) else value digits) - fraction.length + left := by
    split_ifs <;> omega
  simp only [toNumber?, hfirst, Option.isNone_some, Bool.and_false, Bool.false_and,
    if_neg Bool.false_ne_true, hgrow, if_neg (not_le.mpr hshort), hshift]

/-- An exponent that does not fit 31 bits and is below zero leaves nothing but a zero. -/
theorem toNumber?_of_far {digits : List ℕ} (hfar : 0x80000000 ≤ value digits) :
    ∃ y, toNumber? ⟨negative, whole, fraction, some (true, digits)⟩ = some (.double y) := by
  refine ⟨Binary.ofNat .double negative 0, ?_⟩
  simp only [toNumber?, Option.isNone_some, Bool.and_false, Bool.false_and,
    if_neg Bool.false_ne_true, if_pos hfar, Bool.not_true]

end Number

end Numeral

end ModelRelay.Json
