/-!
# Reading UTF-8

Bytes that arrive from outside need not be text. `next` takes the first character off a list of
bytes, or says that what stands there begins none; in that case it drops the longest run of bytes
that could have begun a character, so that replacing each such run by U+FFFD gives the customary
lossy text. Everything else here is a loop over `next`.
-/

set_option autoImplicit false

namespace ModelRelay.Utf8

/-- What a leading byte announces: how many bytes follow it, the bounds of the first of them
(overlong forms, surrogates and code points above U+10FFFF are cut off there), and its own bits. -/
structure Lead where
  more : Nat
  low : UInt8
  high : UInt8
  bits : Nat

/-- The announcement of a leading byte above U+007F, if it is one. -/
def lead? (b : UInt8) : Option Lead :=
  if 0xC2 ≤ b && b ≤ 0xDF then some ⟨1, 0x80, 0xBF, b.toNat - 0xC0⟩
  else if b == 0xE0 then some ⟨2, 0xA0, 0xBF, 0⟩
  else if b == 0xED then some ⟨2, 0x80, 0x9F, 0xD⟩
  else if 0xE1 ≤ b && b ≤ 0xEF then some ⟨2, 0x80, 0xBF, b.toNat - 0xE0⟩
  else if b == 0xF0 then some ⟨3, 0x90, 0xBF, 0⟩
  else if b == 0xF4 then some ⟨3, 0x80, 0x8F, 4⟩
  else if 0xF1 ≤ b && b ≤ 0xF3 then some ⟨3, 0x80, 0xBF, b.toNat - 0xF0⟩
  else none

/-- Collects the bytes that continue a character. `none` when one is missing; what is left then
starts with the first byte that does not belong. -/
def gather (low high : UInt8) (bits : Nat) : Nat → List UInt8 → Option Nat × List UInt8
  | 0, rest => (some bits, rest)
  | _ + 1, [] => (none, [])
  | more + 1, b :: rest =>
    if low ≤ b && b ≤ high then gather 0x80 0xBF (bits * 64 + (b.toNat - 0x80)) more rest
    else (none, b :: rest)

/-- What stands at the head of a list of bytes. -/
inductive Step where
  | done
  | char (c : Char) (rest : List UInt8)
  | broken (rest : List UInt8)

/-- Takes the first character off. -/
def next : List UInt8 → Step
  | [] => .done
  | b :: rest =>
    if b < 0x80 then .char (Char.ofNat b.toNat) rest
    else match lead? b with
      | none => .broken rest
      | some l => match gather l.low l.high l.bits l.more rest with
        | (some code, rest) => .char (Char.ofNat code) rest
        | (none, rest) => .broken rest

theorem gather_length_le (low high : UInt8) (bits more : Nat) (s : List UInt8) :
    (gather low high bits more s).2.length ≤ s.length := by
  induction more generalizing low high bits s with
  | zero => simp [gather]
  | succ n ih =>
    cases s with
    | nil => simp [gather]
    | cons b rest =>
      simp only [gather]
      split
      · exact Nat.le_trans (ih ..) (by simp)
      · simp

/-- A step onto a character leaves fewer bytes. -/
theorem length_lt_of_next_char {s rest : List UInt8} {c : Char} (h : next s = .char c rest) :
    rest.length < s.length := by
  cases s with
  | nil => simp [next] at h
  | cons b t =>
    simp only [next] at h
    split at h
    · cases h; simp
    · split at h
      · simp at h
      · next l _ =>
        have hle := gather_length_le l.low l.high l.bits l.more t
        split at h
        · next heq => cases h; rw [heq] at hle; simpa using Nat.lt_succ_of_le hle
        · simp at h

/-- A step over bytes that begin no character leaves fewer bytes. -/
theorem length_lt_of_next_broken {s rest : List UInt8} (h : next s = .broken rest) :
    rest.length < s.length := by
  cases s with
  | nil => simp [next] at h
  | cons b t =>
    simp only [next] at h
    split at h
    · simp at h
    · split at h
      · cases h; simp
      · next l _ =>
        have hle := gather_length_le l.low l.high l.bits l.more t
        split at h
        · simp at h
        · next heq => cases h; rw [heq] at hle; simpa using Nat.lt_succ_of_le hle

/-- Reads characters in front of `read`, which holds those already read, the last one first. -/
def longestFrom (read : List Char) (s : List UInt8) : List Char × Bool :=
  match h : next s with
  | .done => (read.reverse, true)
  | .broken _ => (read.reverse, false)
  | .char c rest =>
    have := length_lt_of_next_char h
    longestFrom (c :: read) rest
termination_by s.length

/-- The characters up to the first place that is not UTF-8, and whether there was no such place. -/
def longestText (s : List UInt8) : List Char × Bool :=
  longestFrom [] s

/-- Reads every character in front of `read`, with U+FFFD for each run of bytes that begins none. -/
def lossyFrom (read : List Char) (s : List UInt8) : List Char :=
  match h : next s with
  | .done => read.reverse
  | .broken rest =>
    have := length_lt_of_next_broken h
    lossyFrom ('\uFFFD' :: read) rest
  | .char c rest =>
    have := length_lt_of_next_char h
    lossyFrom (c :: read) rest
termination_by s.length

/-- The text of some bytes, with U+FFFD for what is none. -/
def lossy (s : List UInt8) : String :=
  String.ofList (lossyFrom [] s)

/-- The text of some bytes that are all text. -/
def strict? (s : List UInt8) : Option String :=
  match longestText s with
  | (cs, true) => some (String.ofList cs)
  | (_, false) => none

end ModelRelay.Utf8
