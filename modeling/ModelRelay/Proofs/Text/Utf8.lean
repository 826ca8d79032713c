import ModelRelay.Text.Utf8
import Mathlib.Data.String.Basic
import Mathlib.Tactic.IntervalCases

/-!
# Text that is written reads as the same text

The bytes of a string are the bytes of its characters, one after the other, and the reader takes
them off one character at a time. So **it reads back every string** (`longestText_toUTF8`). The
cases of one character are the four lengths that it may have; those of three and four bytes have
leading bytes with bounds of their own for the byte that follows, which no character breaks.

The bounds rule out the longer spellings of a character and the codes of surrogates. For a character
they hold by its own range: the arithmetic says that a byte below the bound would make it a smaller
code, and one above the bound a surrogate or a code beyond the last.

Bytes that are not the bytes of a string are not treated here.
-/

set_option autoImplicit false

namespace ModelRelay.Utf8

/-- A byte that carries six bits of a character, `n` modulo 64. -/
theorem gather_tail {low high : UInt8} {n : Nat} (bits more : Nat) (rest : List UInt8)
    (hlow : low.toNat ≤ n % 64 + 128) (hhigh : n % 64 + 128 ≤ high.toNat) :
    gather low high bits (more + 1) (UInt8.ofNat (n % 64 + 128) :: rest)
      = gather 0x80 0xBF (bits * 64 + n % 64) more rest := by
  have hbyte : (UInt8.ofNat (n % 64 + 128)).toNat = n % 64 + 128 := by
    apply UInt8.toNat_ofNat_of_lt'
    show _ < 256
    omega
  have hin : (low ≤ UInt8.ofNat (n % 64 + 128) && UInt8.ofNat (n % 64 + 128) ≤ high) = true := by
    simp only [Bool.and_eq_true, decide_eq_true_eq, UInt8.le_iff_toNat_le, hbyte]
    exact ⟨hlow, hhigh⟩
  rw [gather, if_pos hin, hbyte, Nat.add_sub_cancel]

theorem gather_rest (n bits more : Nat) (rest : List UInt8) :
    gather 0x80 0xBF bits (more + 1) (UInt8.ofNat (n % 64 + 128) :: rest)
      = gather 0x80 0xBF (bits * 64 + n % 64) more rest := by
  apply gather_tail
  · show 128 ≤ _
    omega
  · show _ ≤ 191
    omega

theorem next_of_lead {b : UInt8} {l : Lead} {rest left : List UInt8} {code : Nat}
    (hb : 0x80 ≤ b.toNat) (hlead : lead? b = some l)
    (hgather : gather l.low l.high l.bits l.more rest = (some code, left)) :
    next (b :: rest) = .char (Char.ofNat code) left := by
  have hnot : ¬ b < 0x80 := by
    rw [UInt8.lt_iff_toNat_lt]
    exact not_lt.mpr hb
  rw [next, if_neg hnot, hlead]
  simp only [hgather]

/-! ## Leading bytes

The first byte says how many follow, and holds the highest bits. Each of the three kinds is looked
at over its whole range. -/

section Lead

variable {n : Nat}

theorem lead?_two (hlow : 2 ≤ n) (hhigh : n < 32) :
    lead? (UInt8.ofNat (n + 192)) = some ⟨1, 0x80, 0xBF, n⟩ := by
  interval_cases n <;> rfl

/-- Two bytes follow; the first of them is bounded where the leading byte is the lowest, and where
surrogates would be. -/
theorem lead?_three (hhigh : n < 16) :
    lead? (UInt8.ofNat (n + 224))
      = some ⟨2, if n = 0 then 0xA0 else 0x80, if n = 13 then 0x9F else 0xBF, n⟩ := by
  interval_cases n <;> rfl

/-- Three bytes follow; the first of them is bounded where the leading byte is the lowest or the
highest. -/
theorem lead?_four (hhigh : n < 5) :
    lead? (UInt8.ofNat (n + 240))
      = some ⟨3, if n = 0 then 0x90 else 0x80, if n = 4 then 0x8F else 0xBF, n⟩ := by
  interval_cases n <;> rfl

end Lead

/-! ## Characters

The four lengths of a character, each with its range of codes. -/

/-- **A character is read back from its bytes**, whatever follows them. -/
theorem next_utf8EncodeChar (c : Char) (rest : List UInt8) :
    next (String.utf8EncodeChar c ++ rest) = .char c rest := by
  have hvalid : c.val.toNat < 0xD800 ∨ 0xDFFF < c.val.toNat ∧ c.val.toNat < 0x110000 := c.valid
  have hc : Char.ofNat c.val.toNat = c := Char.ofNat_toNat c
  rw [String.utf8EncodeChar]
  generalize c.val.toNat = v at hvalid hc ⊢
  have hbyte : ∀ n, n < 256 → (UInt8.ofNat n).toNat = n := fun n => UInt8.toNat_ofNat_of_lt'
  split_ifs with h₁ h₂ h₃
  · have hlt : UInt8.ofNat v < 0x80 := by
      rw [UInt8.lt_iff_toNat_lt, hbyte v (by omega)]
      show v < 128
      omega
    rw [List.singleton_append, next, if_pos hlt, hbyte v (by omega), hc]
  · -- Two bytes: eleven bits, of which five are in the first.
    have hhead : 0x80 ≤ (UInt8.ofNat (v / 64 % 32 + 192)).toNat := by
      rw [hbyte _ (by omega)]
      omega
    have hlead := lead?_two (show 2 ≤ v / 64 % 32 by omega) (by omega)
    have hgather := gather_rest v (v / 64 % 32) 0 rest
    have hcode : v / 64 % 32 * 64 + v % 64 = v := by omega
    rw [hcode] at hgather
    exact (next_of_lead hhead hlead hgather).trans (congrArg (Step.char · rest) hc)
  · -- Three bytes: sixteen bits, of which four are in the first.
    have hhead : 0x80 ≤ (UInt8.ofNat (v / 4096 % 16 + 224)).toNat := by
      rw [hbyte _ (by omega)]
      omega
    have hlead := lead?_three (show v / 4096 % 16 < 16 by omega)
    have hgather : gather (if v / 4096 % 16 = 0 then 0xA0 else 0x80)
        (if v / 4096 % 16 = 13 then 0x9F else 0xBF) (v / 4096 % 16) 2
        (UInt8.ofNat (v / 64 % 64 + 128) :: UInt8.ofNat (v % 64 + 128) :: rest)
          = (some v, rest) := by
      rw [gather_tail, gather_rest]
      · show (some _, rest) = _
        congr 2
        omega
      · split_ifs
        · show 160 ≤ _
          omega
        · show 128 ≤ _
          omega
      · split_ifs
        · show _ ≤ 159
          omega
        · show _ ≤ 191
          omega
    exact (next_of_lead hhead hlead hgather).trans (congrArg (Step.char · rest) hc)
  · -- Four bytes: twenty-one bits, of which three are in the first.
    have hhead : 0x80 ≤ (UInt8.ofNat (v / 262144 % 8 + 240)).toNat := by
      rw [hbyte _ (by omega)]
      omega
    have hlead := lead?_four (show v / 262144 % 8 < 5 by omega)
    have hgather : gather (if v / 262144 % 8 = 0 then 0x90 else 0x80)
        (if v / 262144 % 8 = 4 then 0x8F else 0xBF) (v / 262144 % 8) 3
        (UInt8.ofNat (v / 4096 % 64 + 128) :: UInt8.ofNat (v / 64 % 64 + 128) ::
          UInt8.ofNat (v % 64 + 128) :: rest)
          = (some v, rest) := by
      rw [gather_tail, gather_rest, gather_rest]
      · show (some _, rest) = _
        congr 2
        omega
      · split_ifs
        · show 144 ≤ _
          omega
        · show 128 ≤ _
          omega
      · split_ifs
        · show _ ≤ 143
          omega
        · show _ ≤ 191
          omega
    exact (next_of_lead hhead hlead hgather).trans (congrArg (Step.char · rest) hc)

/-! ## Strings

The reader gathers characters while it can, and a string has nothing else. -/

/-- A character that is read is gathered, and the reader goes on behind it. -/
theorem longestFrom_of_next {s rest : List UInt8} {c : Char} (h : next s = .char c rest)
    (read : List Char) : longestFrom read s = longestFrom (c :: read) rest := by
  rw [longestFrom]
  split
  · rename_i hdone
    cases h.symm.trans hdone
  · rename_i hbroken
    cases h.symm.trans hbroken
  · rename_i hchar
    obtain ⟨rfl, rfl⟩ := Step.char.inj (h.symm.trans hchar)
    rfl

theorem longestFrom_flatMap (read cs : List Char) :
    longestFrom read (cs.flatMap String.utf8EncodeChar) = (read.reverse ++ cs, true) := by
  induction cs generalizing read with
  | nil =>
    rw [List.flatMap_nil, List.append_nil, longestFrom]
    rfl
  | cons c rest ih =>
    rw [List.flatMap_cons, longestFrom_of_next (next_utf8EncodeChar c _), ih, List.reverse_cons,
      List.append_assoc]
    rfl

theorem toList_toUTF8 (s : String) :
    s.toUTF8.data.toList = s.toList.flatMap String.utf8EncodeChar := by
  show s.toByteArray.data.toList = _
  rw [← String.utf8Encode_toList, List.utf8Encode]
  simp

/-- **Every string is read back from its bytes.** -/
theorem longestText_toUTF8 (s : String) : longestText s.toUTF8.data.toList = (s.toList, true) := by
  rw [toList_toUTF8, longestText, longestFrom_flatMap]
  rfl

/-- A byte of ASCII is a character, and the character is that byte. -/
theorem utf8EncodeChar_ofNat {b : UInt8} (h : b < 0x80) :
    String.utf8EncodeChar (Char.ofNat b.toNat) = [b] := by
  have hall : ∀ n < 0x80, String.utf8EncodeChar (Char.ofNat n) = [UInt8.ofNat n] := by decide
  have hbyte := hall b.toNat h
  rwa [UInt8.ofNat_toNat] at hbyte

/-- **ASCII is text**, and the text has these bytes. -/
theorem exists_strict?_of_ascii {bytes : List UInt8} (h : ∀ b ∈ bytes, b < 0x80) :
    ∃ s, strict? bytes = some s ∧ s.toUTF8.data.toList = bytes := by
  have hbytes : (bytes.map fun b => Char.ofNat b.toNat).flatMap String.utf8EncodeChar = bytes := by
    rw [List.flatMap_map]
    induction bytes with
    | nil => rfl
    | cons b rest ih =>
      rw [List.forall_mem_cons] at h
      rw [List.flatMap_cons, utf8EncodeChar_ofNat h.1, ih h.2]
      rfl
  refine ⟨String.ofList (bytes.map fun b => Char.ofNat b.toNat), ?_, ?_⟩
  · have hread := longestFrom_flatMap [] (bytes.map fun b => Char.ofNat b.toNat)
    rw [hbytes] at hread
    rw [strict?, longestText, hread]
    rfl
  · rw [toList_toUTF8, String.toList_ofList, hbytes]

end ModelRelay.Utf8
