import Mathlib.Tactic
import ModelRelay.Chat.Tokens

/-!
# What a prompt costs, without a limit and with one

`Price` counts in natural numbers, where nothing can be lost. `Tokens` counts in words, whose sums
carry no further than 32 bits; `Tokens.ofPrompt?` is the same count by steps that notice when a word
does not hold a number of characters or a sum. Below a price of 2^30 it notices nothing
(`counts_prompt`): a text of 2^32 characters would cost as much by itself, and no sum along the way
is larger than the last.

`Counts` puts the three side by side: the watched count comes to the word that the count comes to,
and this word is the number. Each part of a prompt has its lemma, in the order in which they are
added up. A sum saturates where it is too large, so that the relay's own count never fails; the
watched one exists to say that below the limit saturation plays no part.
-/

set_option autoImplicit false

namespace ModelRelay.Chat

/-! ## Prices

The same rules as for the relay's own count, in numbers that have no limit. -/

/-- What a block is charged for: its text if it is a block of text, a flat price for an image, and
anything else for its JSON text. -/
def chargeBlock {α : Type} (nothing perImage : α) (ofText : String → α) (block : Json) : α :=
  match blockType? block with
  | some "text" => ((block.get? "text").bind Json.string?).elim nothing ofText
  | some "image" | some "image_url" => perImage
  | _ => ofText block.print

namespace Price

/-- One for every four characters, begun or full. -/
def ofText (s : String) : ℕ :=
  (s.length + 3) / 4

def ofPart : ContentPart → ℕ
  | .text s => ofText s
  | .image _ => 85

def ofBlock : Json → ℕ :=
  chargeBlock 0 85 ofText

def ofContent : Content → ℕ
  | .text s => ofText s
  | .parts ps => (ps.map ofPart).sum
  | .blocks bs => (bs.map ofBlock).sum
  | .null => 0

def ofSystem (system : Option SystemPrompt) : ℕ :=
  system.elim 0 fun prompt => 3 + ofText prompt.joinedText

def ofMessage (m : Message) : ℕ :=
  3 + ofContent m.content

def ofPrompt (r : Request) : ℕ :=
  3 + ofSystem r.system + (r.messages.map ofMessage).sum

end Price

namespace Tokens

/-! ## Counting with a watch on the limit -/

/-- The sum of two words, if it is a word. -/
def add? (a b : UInt32) : Option UInt32 :=
  if a.toNat + b.toNat < UInt32.size then some (a + b) else none

def ofText? (s : String) : Option UInt32 :=
  if s.length < UInt32.size then
    let chars := s.length.toUInt32
    add? (chars / 4) (if chars % 4 = 0 then 0 else 1)
  else none

def ofPart? : ContentPart → Option UInt32
  | .text s => ofText? s
  | .image _ => some perImage

def ofBlock? : Json → Option UInt32 :=
  chargeBlock (some 0) (some perImage) ofText?

def ofContent? : Content → Option UInt32
  | .text s => ofText? s
  | .parts ps => ps.foldlM (fun total p => do add? total (← ofPart? p)) 0
  | .blocks bs => bs.foldlM (fun total b => do add? total (← ofBlock? b)) 0
  | .null => some 0

def ofSystem? (system : Option SystemPrompt) : Option UInt32 :=
  match system with
  | some prompt => do add? perMessage (← ofText? prompt.joinedText)
  | none => some 0

/-- The tokens of a request's prompt, if every number on the way to them is a word. -/
def ofPrompt? (r : Request) : Option UInt32 := do
  let start ← add? priming (← ofSystem? r.system)
  r.messages.foldlM
    (fun total m => do add? (← add? total perMessage) (← ofContent? m.content)) start

/-! ## Where nothing is lost

A sum of non-negative numbers is fair only if every sum on the way to it is. That is why one bound,
on the whole prompt, is enough. -/

/-- A text below this price has a number of characters that is a word. -/
def fairPrice : ℕ := 0x40000000

theorem fairPrice_lt : fairPrice < UInt32.size := by decide

/-- A watched count comes to a word, and that word is the number. -/
def Counts (watched : Option UInt32) (word : UInt32) (number : ℕ) : Prop :=
  watched = some word ∧ word.toNat = number

theorem counts_add {a b : UInt32} (h : a.toNat + b.toNat < UInt32.size) :
    Counts (add? a b) (a + b) (a.toNat + b.toNat) :=
  ⟨if_pos h, (UInt32.toNat_add a b).trans (Nat.mod_eq_of_lt h)⟩

theorem Counts.add {watched : Option UInt32} {a word : UInt32} {n : ℕ}
    (h : Counts watched word n) (hfit : a.toNat + n < fairPrice) :
    Counts (do add? a (← watched)) (a + word) (a.toNat + n) := by
  obtain ⟨rfl, rfl⟩ := h
  exact counts_add (Nat.lt_trans hfit fairPrice_lt)

/-- **A fold loses nothing if no step does and the last sum is fair.** -/
theorem counts_fold {α : Type} {step? : UInt32 → α → Option UInt32} {step : UInt32 → α → UInt32}
    {price : α → ℕ} (h : ∀ {x total}, total.toNat + price x < fairPrice →
      Counts (step? total x) (step total x) (total.toNat + price x))
    {xs : List α} {start : UInt32} (hfit : start.toNat + (xs.map price).sum < fairPrice) :
    Counts (xs.foldlM step? start) (xs.foldl step start) (start.toNat + (xs.map price).sum) := by
  induction xs generalizing start with
  | nil => exact ⟨rfl, rfl⟩
  | cons x rest ih =>
    rw [List.map_cons, List.sum_cons, ← Nat.add_assoc] at hfit ⊢
    obtain ⟨hstep, hword⟩ := h (x := x) (Nat.lt_of_le_of_lt (Nat.le_add_right _ _) hfit)
    rw [← hword] at hfit ⊢
    rw [List.foldlM_cons, hstep]
    exact ih hfit

/-- The items of a turn, one after the other. -/
theorem counts_items {α : Type} {count? : α → Option UInt32} {count : α → UInt32} {price : α → ℕ}
    (h : ∀ {x}, price x < fairPrice → Counts (count? x) (count x) (price x)) {xs : List α}
    (hfit : (xs.map price).sum < fairPrice) :
    Counts (xs.foldlM (fun total x => do add? total (← count? x)) 0)
      ((xs.map count).foldl (· + ·) 0) (xs.map price).sum := by
  rw [List.foldl_map, ← Nat.zero_add (xs.map price).sum] at *
  exact counts_fold
    (fun hx => (h (Nat.lt_of_le_of_lt (Nat.le_add_left _ _) hx)).add hx) hfit

/-! ## The parts of a prompt

From a text up to a turn. -/

/-- A text of a fair price has a number of characters that is a word, and a fourth of it, rounded
up, is its price. -/
theorem counts_text {s : String} (h : Price.ofText s < fairPrice) :
    Counts (ofText? s) (ofText s) (Price.ofText s) := by
  have hlength : s.length < UInt32.size := by
    change (s.length + 3) / 4 < 0x40000000 at h
    show s.length < 0x100000000
    omega
  have hchars : s.length.toUInt32.toNat = s.length := UInt32.toNat_ofNat_of_lt' hlength
  have hquarter : (s.length.toUInt32 / 4).toNat = s.length / 4 := by
    rw [UInt32.toNat_div, hchars]
    rfl
  have hfull : s.length.toUInt32 % 4 = 0 ↔ s.length % 4 = 0 := by
    rw [← UInt32.toNat_inj, UInt32.toNat_mod, hchars]
    rfl
  have hsum : Price.ofText s = (s.length.toUInt32 / 4).toNat
      + (if s.length.toUInt32 % 4 = 0 then 0 else 1 : UInt32).toNat := by
    rw [hquarter, Price.ofText]
    simp only [hfull]
    split
    · show _ = _ + 0
      omega
    · show _ = _ + 1
      omega
  rw [hsum] at h ⊢
  rw [ofText?, if_pos hlength]
  exact counts_add (Nat.lt_trans h fairPrice_lt)

theorem counts_part {p : ContentPart} (h : Price.ofPart p < fairPrice) :
    Counts (ofPart? p) (ofPart p) (Price.ofPart p) := by
  cases p with
  | text s => exact counts_text h
  | image i => exact ⟨rfl, rfl⟩

/-- The relay's own price of a block goes by the same rule. -/
theorem ofBlock_eq (block : Json) : ofBlock block = chargeBlock 0 perImage ofText block := by
  have helim (s : Option String) : (s.map ofText).getD 0 = s.elim 0 ofText := by
    cases s <;> rfl
  rw [chargeBlock, ← helim]
  rfl

theorem counts_block {block : Json} (h : Price.ofBlock block < fairPrice) :
    Counts (ofBlock? block) (ofBlock block) (Price.ofBlock block) := by
  rw [ofBlock_eq]
  unfold Price.ofBlock ofBlock? chargeBlock at *
  revert h
  split
  · cases (block.get? "text").bind Json.string? with
    | none => exact fun _ => ⟨rfl, rfl⟩
    | some s => exact counts_text
  · exact fun _ => ⟨rfl, rfl⟩
  · exact fun _ => ⟨rfl, rfl⟩
  · exact counts_text

theorem counts_content {content : Content} (h : Price.ofContent content < fairPrice) :
    Counts (ofContent? content) (ofContent content) (Price.ofContent content) := by
  cases content with
  | text s => exact counts_text h
  | parts ps => exact counts_items counts_part h
  | blocks bs => exact counts_items counts_block h
  | null => exact ⟨rfl, rfl⟩

theorem counts_system {system : Option SystemPrompt} (h : Price.ofSystem system < fairPrice) :
    Counts (ofSystem? system) (ofSystem system) (Price.ofSystem system) := by
  cases system with
  | none => exact ⟨rfl, rfl⟩
  | some prompt =>
    have htext := counts_text (s := prompt.joinedText)
      (Nat.lt_of_le_of_lt (Nat.le_add_left _ 3) h)
    exact htext.add h

/-- A turn costs its content and a little more, whatever has been counted before it. -/
theorem counts_message {total : UInt32} {m : Message}
    (h : total.toNat + Price.ofMessage m < fairPrice) :
    Counts (do add? (← add? total perMessage) (← ofContent? m.content))
      (total + perMessage + ofContent m.content) (total.toNat + Price.ofMessage m) := by
  rw [Price.ofMessage, ← Nat.add_assoc] at h ⊢
  obtain ⟨hturn, hword⟩ : Counts (add? total perMessage) (total + perMessage) (total.toNat + 3) :=
    counts_add (Nat.lt_of_le_of_lt (Nat.le_add_right _ _) (Nat.lt_trans h fairPrice_lt))
  rw [← hword] at h ⊢
  rw [hturn]
  exact (counts_content (Nat.lt_of_le_of_lt (Nat.le_add_left _ _) h)).add h

/-- **A prompt of a fair price is counted without loss.** -/
theorem counts_prompt {r : Request} (h : Price.ofPrompt r < fairPrice) :
    Counts (ofPrompt? r) (ofPrompt r) (Price.ofPrompt r) := by
  have hpriming : 3 + Price.ofSystem r.system < fairPrice :=
    Nat.lt_of_le_of_lt (Nat.le_add_right _ _) h
  obtain ⟨hsystem, hprice⟩ := counts_system (Nat.lt_of_le_of_lt (Nat.le_add_left _ 3) hpriming)
  rw [← hprice] at hpriming
  obtain ⟨hstart, hword⟩ : Counts (add? priming (ofSystem r.system)) _ _ :=
    counts_add (Nat.lt_trans hpriming fairPrice_lt)
  rw [ofPrompt?, hsystem]
  show Counts (add? priming (ofSystem r.system) >>= _) _ _
  rw [hstart, Price.ofPrompt, ← hprice]
  rw [Price.ofPrompt, ← hprice] at h
  exact hword ▸ counts_fold counts_message (hword.symm ▸ h)

end Tokens

end ModelRelay.Chat
