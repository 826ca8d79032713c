import Mathlib.Data.List.Infix
import Mathlib.Data.List.TakeWhile
import ModelRelay.Chat.Links

/-!
# Where a text is cut

A text is taken apart twice: once for its links, and once for what is left without them. Both go by
the same cuts, and the cuts are those of the leftmost, longest links (`Decomposes`). **What is left
holds no link**: behind a link stands a blank or nothing at all, so two gaps never grow together
into the beginning of one.

`Decomposes` says what the cuts of a text are without saying how they are found, and a text has one
decomposition only (`Decomposes.unique`). The search goes through the text once and holds the gap
that it is in; the induction carries that no link begins in this gap (`decomposes_findFrom`).
Everything else is proved of decompositions and never of the search: what is left, which images
there are, and that no character is lost.

Blanks are trimmed off what is left and off nothing else, so that the comparison of characters
leaves blanks out.
-/

set_option autoImplicit false

namespace ModelRelay

/-! ## Trimming

What is trimmed off is blank, and what is left neither begins nor ends with a blank. These two facts
say all of it. -/

namespace Text

variable {s words : List Char}

/-- What is left of a text without the blanks at its ends. -/
structure IsTrimmed (s words : List Char) : Prop where
  within : ∃ before after, s = before ++ words ++ after ∧
    (∀ c ∈ before, isBlank c = true) ∧ ∀ c ∈ after, isBlank c = true
  first : ∀ c ∈ words.head?, isBlank c = false
  last : ∀ c ∈ words.getLast?, isBlank c = false

/-- Dropping blanks from the front, and then from the back, trims a text. -/
theorem isTrimmed_trimChars (s : List Char) : IsTrimmed s (trimChars s) := by
  have hends : ∀ t : List Char, ∀ c ∈ (t.dropWhile isBlank).head?, isBlank c = false := by
    intro t c hc
    have hhead := List.head?_dropWhile_not isBlank t
    rw [Option.mem_def.mp hc] at hhead
    simpa using hhead
  have hback : s.dropWhile isBlank
      = trimChars s ++ ((s.dropWhile isBlank).reverse.takeWhile isBlank).reverse := by
    rw [trimChars, ← List.reverse_append, List.takeWhile_append_dropWhile, List.reverse_reverse]
  refine ⟨⟨s.takeWhile isBlank, ((s.dropWhile isBlank).reverse.takeWhile isBlank).reverse, ?_,
    fun c hc => List.mem_takeWhile_imp hc, fun c hc => ?_⟩, fun c hc => ?_, fun c hc => ?_⟩
  · rw [List.append_assoc, ← hback, List.takeWhile_append_dropWhile]
  · exact List.mem_takeWhile_imp (List.mem_reverse.mp hc)
  · refine hends s c ?_
    obtain ⟨words, hwords⟩ := List.head?_eq_some_iff.mp hc
    rw [hback, hwords]
    rfl
  · rw [trimChars, List.getLast?_reverse] at hc
    exact hends _ c hc

namespace IsTrimmed

/-- Nothing more can be trimmed. -/
theorem trimChars_eq (h : IsTrimmed s words) : trimChars words = words := by
  have hkept : ∀ t : List Char, (∀ c ∈ t.head?, isBlank c = false) → t.dropWhile isBlank = t := by
    intro t ht
    cases t with
    | nil => rfl
    | cons c t => exact List.dropWhile_cons_of_neg (by simp [ht c rfl])
  rw [trimChars, hkept words h.first, hkept words.reverse, List.reverse_reverse]
  simpa using h.last

theorem isInfix (h : IsTrimmed s words) : words <:+: s := by
  obtain ⟨before, after, rfl, -⟩ := h.within
  exact ⟨before, after, rfl⟩

theorem filter_notBlank (h : IsTrimmed s words) :
    words.filter (!isBlank ·) = s.filter (!isBlank ·) := by
  obtain ⟨before, after, rfl, hbefore, hafter⟩ := h.within
  have hblank : ∀ t : List Char, (∀ c ∈ t, isBlank c = true) → t.filter (!isBlank ·) = [] :=
    fun t ht => List.filter_eq_nil_iff.mpr fun c hc => by simp [ht c hc]
  rw [List.filter_append, List.filter_append, hblank before hbefore, hblank after hafter,
    List.nil_append, List.append_nil]

end IsTrimmed

end Text

namespace Chat.Links

open Text (isBlank trimChars IsTrimmed isTrimmed_trimChars)

/-! ## Links and cuts

A link ends where the text does, or at a blank. It is the longest one at its place because it cannot
go over a blank. -/

/-- A scheme of the web, and at least one character behind it that is no blank. -/
def IsLink (u : List Char) : Prop :=
  ∃ body, (u = "http://".toList ++ body ∨ u = "https://".toList ++ body) ∧ body ≠ [] ∧
    ∀ c ∈ body, isBlank c = false

/-- The cuts of a text: each link with the gap before it, and the gap after the last. No link begins
further left than the first, and none that begins where it does is longer. -/
inductive Decomposes : List Char → List (List Char × List Char) → List Char → Prop where
  | last {s : List Char} (free : ∀ u, IsLink u → ¬ u <:+: s) : Decomposes s [] s
  | link {gap u rest tail : List Char} {cuts : List (List Char × List Char)} (isLink : IsLink u)
      (leftmost : ∀ before v after, IsLink v → gap ++ (u ++ rest) = before ++ (v ++ after) →
        gap.length ≤ before.length)
      (longest : ∀ v, IsLink v → v <+: u ++ rest → v.length ≤ u.length)
      (behind : Decomposes rest cuts tail) :
      Decomposes (gap ++ (u ++ rest)) ((gap, u) :: cuts) tail

/-- A text that ends, or goes on with a blank. -/
def Breaks (s : List Char) : Prop :=
  ∀ c ∈ s.head?, isBlank c = true

variable {s u rest gap tail : List Char} {cuts : List (List Char × List Char)}

namespace IsLink

theorem notBlank (h : IsLink u) : ∀ c ∈ u, isBlank c = false := by
  obtain ⟨body, hscheme, -, hbody⟩ := h
  rcases hscheme with rfl | rfl
  · have hscheme : "http://".toList.all (!isBlank ·) = true := by decide
    exact List.forall_mem_append.mpr ⟨by simpa using hscheme, hbody⟩
  · have hscheme : "https://".toList.all (!isBlank ·) = true := by decide
    exact List.forall_mem_append.mpr ⟨by simpa using hscheme, hbody⟩

theorem ne_nil (h : IsLink u) : u ≠ [] := by
  obtain ⟨body, hscheme, -, -⟩ := h
  rcases hscheme with rfl | rfl <;> simp

/-- A link goes on up to the next blank. -/
theorem concat (h : IsLink u) {c : Char} (hc : isBlank c = false) : IsLink (u ++ [c]) := by
  obtain ⟨body, hscheme, -, hbody⟩ := h
  refine ⟨body ++ [c], ?_, by simp, List.forall_mem_append.mpr ⟨hbody, by simpa using hc⟩⟩
  rcases hscheme with rfl | rfl
  · exact .inl (List.append_assoc ..)
  · exact .inr (List.append_assoc ..)

/-- What goes on with a blank holds no more of the link before it. -/
theorem length_le (hrest : Breaks rest) {v : List Char} (hv : IsLink v)
    (hhead : v <+: u ++ rest) : v.length ≤ u.length := by
  by_contra hlonger
  obtain ⟨more, rfl⟩ : u <+: v :=
    List.prefix_of_prefix_length_le (List.prefix_append u rest) hhead (by omega)
  cases more with
  | nil => simp at hlonger
  | cons c more =>
    obtain ⟨after, hafter⟩ := (List.prefix_append_right_inj u).mp hhead
    have hblank := hrest c (by rw [← hafter]; rfl)
    have hlink := hv.notBlank c (by simp)
    simp [hlink] at hblank

end IsLink

/-! ## The link at the head of a text

What is found at one place, in both directions: it is a link, and if there is a link it is found. -/

/-- What comes behind a run of characters that are no blanks begins with one, if with anything. -/
theorem breaks_dropWhile (s : List Char) : Breaks (s.dropWhile isLinkChar) := by
  intro c hc
  have hhead := List.head?_dropWhile_not isLinkChar s
  rw [Option.mem_def.mp hc] at hhead
  simpa [isLinkChar] using hhead

/-- What is found is the scheme, the separator and all that is no blank behind it. -/
theorem body?_ok {scheme link : List Char} (h : body? scheme s = some (link, rest)) :
    ∃ body, s = "://".toList ++ (body ++ rest) ∧ link = scheme ++ ("://".toList ++ body) ∧
      body ≠ [] ∧ (∀ c ∈ body, isBlank c = false) ∧ Breaks rest := by
  unfold body? at h
  split at h
  · next s =>
    split at h
    · exact absurd h (by simp)
    · next body hbody =>
      obtain ⟨rfl, rfl⟩ := Prod.mk.inj (Option.some.inj h)
      refine ⟨_, ?_, rfl, hbody, fun c hc => ?_, breaks_dropWhile s⟩
      · rw [List.takeWhile_append_dropWhile]
        rfl
      · simpa [isLinkChar] using List.mem_takeWhile_imp hc
  · exact absurd h (by simp)

/-- What is found at the head of a text is a link, and the rest goes on with a blank. -/
theorem at?_ok (h : at? s = some (u, rest)) : s = u ++ rest ∧ IsLink u ∧ Breaks rest := by
  unfold at? at h
  split at h
  · obtain ⟨body, rfl, rfl, hne, hbody, hrest⟩ := body?_ok h
    exact ⟨by simp, ⟨body, .inr rfl, hne, hbody⟩, hrest⟩
  · obtain ⟨body, rfl, rfl, hne, hbody, hrest⟩ := body?_ok h
    exact ⟨by simp, ⟨body, .inl rfl, hne, hbody⟩, hrest⟩
  · exact absurd h (by simp)

theorem body?_isSome (scheme : List Char) {body : List Char} (hne : body ≠ [])
    (hbody : ∀ c ∈ body, isBlank c = false) (after : List Char) :
    (body? scheme ("://".toList ++ (body ++ after))).isSome = true := by
  obtain ⟨c, body, rfl⟩ := List.exists_cons_of_ne_nil hne
  have hc : isLinkChar c = true := by simpa [isLinkChar] using hbody c List.mem_cons_self
  have htake : (c :: body ++ after).takeWhile isLinkChar
      = c :: (body ++ after).takeWhile isLinkChar := by
    rw [List.cons_append, List.takeWhile_cons_of_pos hc]
  simp only [body?, String.reduceToList, List.cons_append, List.nil_append] at htake ⊢
  simp [htake]

/-- A link at the head of a text is found, though perhaps a longer one. -/
theorem IsLink.at?_isSome (hu : IsLink u) (after : List Char) :
    (at? (u ++ after)).isSome = true := by
  obtain ⟨body, hscheme, hne, hbody⟩ := hu
  rcases hscheme with rfl | rfl
  · exact body?_isSome "http".toList hne hbody after
  · exact body?_isSome "https".toList hne hbody after

/-- Where no link is found at the head of a text, there is none. -/
theorem not_prefix_of_at?_eq_none (h : at? s = none) (hu : IsLink u) : ¬ u <+: s := by
  rintro ⟨after, rfl⟩
  have hfound := hu.at?_isSome after
  simp [h] at hfound

/-! ## The cuts of a text

The search, equation by equation, and then as a whole. -/

theorem findFrom_link (h : at? s = some (u, rest)) :
    findFrom gap cuts s = findFrom [] ((gap.reverse, u) :: cuts) rest := by
  rw [findFrom]
  split
  · next link behind hat =>
    obtain ⟨rfl, rfl⟩ := Prod.mk.inj (Option.some.inj (hat.symm.trans h))
    rfl
  · next hat =>
    rw [h] at hat
    cases hat

theorem findFrom_nil : findFrom gap cuts [] = (cuts.reverse, gap.reverse) := by
  rw [findFrom]
  split
  · next hat => exact absurd hat (by simp [at?])
  · rfl

theorem findFrom_cons {c : Char} (h : at? (c :: s) = none) :
    findFrom gap cuts (c :: s) = findFrom (c :: gap) cuts s := by
  rw [findFrom]
  split
  · next hat =>
    rw [h] at hat
    cases hat
  · rfl

/-- Goes on cutting where no link begins in the gap that is held. -/
theorem decomposes_findFrom (gap : List Char) (cuts : List (List Char × List Char)) (s : List Char)
    (hgap : ∀ before v after, IsLink v → gap.reverse ++ s = before ++ (v ++ after) →
      gap.length ≤ before.length) :
    ∃ more, (findFrom gap cuts s).1 = cuts.reverse ++ more ∧
      Decomposes (gap.reverse ++ s) more (findFrom gap cuts s).2 := by
  induction hn : s.length using Nat.strong_induction_on generalizing gap cuts s with
  | _ n ih =>
  subst hn
  cases hat : at? s with
  | some found =>
    obtain ⟨u, rest⟩ := found
    obtain ⟨rfl, hlink, hrest⟩ := at?_ok hat
    rw [findFrom_link hat]
    obtain ⟨more, hmore, hbehind⟩ := ih _ (at?_length hat) [] ((gap.reverse, u) :: cuts) rest
      (fun _ _ _ _ _ => Nat.zero_le _) rfl
    refine ⟨(gap.reverse, u) :: more, by simp [hmore], .link hlink ?_ ?_ hbehind⟩
    · simpa using hgap
    · exact fun v hv => hv.length_le hrest
  | none =>
    cases s with
    | nil =>
      rw [findFrom_nil, List.append_nil]
      refine ⟨[], (List.append_nil _).symm, .last fun u hu hwithin => ?_⟩
      obtain ⟨before, after, hcut⟩ := hwithin
      have hbefore := hgap before u after hu (by simpa using hcut.symm)
      have hlength := congrArg List.length hcut
      simp only [List.length_append, List.length_reverse] at hlength
      exact hu.ne_nil (List.length_eq_zero_iff.mp (by omega))
    | cons c s =>
      rw [findFrom_cons hat, show gap.reverse ++ c :: s = (c :: gap).reverse ++ s by simp]
      refine ih _ (by simp) (c :: gap) cuts s (fun before v after hv hcut => ?_) rfl
      rw [show (c :: gap).reverse ++ s = gap.reverse ++ c :: s by simp] at hcut
      -- A link that began here would have been found.
      refine Nat.lt_of_le_of_ne (hgap before v after hv hcut) fun hsame => ?_
      obtain ⟨-, hcut⟩ := List.append_inj hcut (by simpa using hsame)
      exact not_prefix_of_at?_eq_none hat hv ⟨after, hcut.symm⟩

/-- **The search finds the cuts of a text.** -/
theorem decomposes_find (s : List Char) : Decomposes s (find s).1 (find s).2 := by
  obtain ⟨more, hmore, hcuts⟩ := decomposes_findFrom [] [] s fun _ _ _ _ _ => Nat.zero_le _
  rw [find, hmore]
  exact hcuts

namespace Decomposes

/-- A text has one decomposition. -/
theorem unique (h : Decomposes s cuts tail) {cuts' : List (List Char × List Char)}
    {tail' : List Char} (h' : Decomposes s cuts' tail') : cuts = cuts' ∧ tail = tail' := by
  induction h generalizing cuts' tail' with
  | last free =>
    cases h' with
    | last _ => exact ⟨rfl, rfl⟩
    | @link gap u rest _ _ hlink _ _ _ =>
      exact absurd ⟨gap, rest, List.append_assoc ..⟩ (free u hlink)
  | @link gap u rest _ _ hlink leftmost longest _ ih =>
    generalize hs : gap ++ (u ++ rest) = s at h'
    cases h' with
    | last free => exact absurd ⟨gap, rest, hs ▸ List.append_assoc ..⟩ (free u hlink)
    | @link gap' u' rest' _ _ hlink' leftmost' longest' hbehind' =>
      -- Neither link begins before the other, and neither is longer.
      obtain ⟨rfl, hcut⟩ := List.append_inj hs <| Nat.le_antisymm
        (leftmost gap' u' rest' hlink' hs) (leftmost' gap u rest hlink hs.symm)
      obtain ⟨rfl, rfl⟩ := List.append_inj hcut <| Nat.le_antisymm
        (longest' u hlink ⟨rest, hcut⟩) (longest u' hlink' ⟨rest', hcut.symm⟩)
      obtain ⟨rfl, rfl⟩ := ih hbehind'
      exact ⟨rfl, rfl⟩

theorem find_eq (h : Decomposes s cuts tail) : find s = (cuts, tail) :=
  Prod.ext ((decomposes_find s).unique h).1 ((decomposes_find s).unique h).2

/-! ## What is left

The gaps are put together. Each but the first begins with a blank, since a link ends before it. -/

theorem breaks (h : Decomposes s cuts tail) (hs : Breaks s) :
    Breaks (cuts.flatMap Prod.fst ++ tail) := by
  cases h with
  | last _ => exact hs
  | @link gap u rest _ _ hlink _ _ _ =>
    cases gap with
    | cons c gap => exact hs
    | nil =>
      -- A link begins with no blank.
      obtain ⟨c, u, rfl⟩ := List.exists_cons_of_ne_nil hlink.ne_nil
      have hblank := hs c rfl
      simp [hlink.notBlank c List.mem_cons_self] at hblank

end Decomposes

/-- A link that reaches beyond a gap would have to go over a blank. -/
theorem infix_of_infix_append (hs : Breaks s) (hu : IsLink u) (h : u <:+: gap ++ s) :
    u <:+: gap ∨ u <:+: s := by
  obtain ⟨before, after, h⟩ := h
  rw [List.append_assoc] at h
  obtain ⟨more, rfl, hcut⟩ | ⟨more, rfl, hcut⟩ := List.append_eq_append_iff.mp h
  · -- It begins in the gap.
    obtain ⟨across, rfl, -⟩ | ⟨across, rfl, hacross⟩ := List.append_eq_append_iff.mp hcut
    · exact .inl ⟨before, across, List.append_assoc ..⟩
    · cases across with
      | nil => exact .inl ⟨before, [], by simp⟩
      | cons c across =>
        have hblank := hs c (by rw [hacross]; rfl)
        simp [hu.notBlank c (by simp)] at hblank
  · exact .inr ⟨more, after, by rw [hcut, List.append_assoc]⟩

namespace Decomposes

/-- **What is left of a text without its links holds no link.** -/
theorem free (h : Decomposes s cuts tail) {v : List Char} (hv : IsLink v) :
    ¬ v <:+: cuts.flatMap Prod.fst ++ tail := by
  induction h with
  | last free => exact free v hv
  | @link gap u rest tail cuts hlink leftmost longest hbehind ih =>
    have hrest : Breaks rest := by
      intro c hc
      obtain ⟨rest, rfl⟩ := List.head?_eq_some_iff.mp hc
      by_contra hblank
      have hlonger := longest (u ++ [c]) (hlink.concat (by simpa using hblank)) ⟨rest, by simp⟩
      exact absurd hlonger (by simp)
    rw [List.flatMap_cons, List.append_assoc]
    intro hwithin
    rcases infix_of_infix_append (hbehind.breaks hrest) hv hwithin with hgap | hbeyond
    · obtain ⟨before, after, rfl⟩ := hgap
      have hbefore := leftmost before v (after ++ (u ++ rest)) hv (by simp)
      simp only [List.length_append] at hbefore
      exact hv.ne_nil (List.length_eq_zero_iff.mp (by omega))
    · exact ih hbeyond

end Decomposes

/-! ## Parts

A text becomes at most one part of text, and one image for each link. -/

/-- The characters that a part is made of. -/
def said : ContentPart → List Char
  | .text s => s.toList
  | .image image => image.url.toList

namespace Decomposes

theorem isLink (h : Decomposes s cuts tail) : ∀ cut ∈ cuts, IsLink cut.2 := by
  induction h with
  | last _ => exact fun cut hcut => absurd hcut List.not_mem_nil
  | link hlink _ _ _ ih => exact List.forall_mem_cons.mpr ⟨hlink, ih⟩

/-- The gaps and the links make up the text. -/
theorem perm (h : Decomposes s cuts tail) :
    (cuts.flatMap Prod.fst ++ tail ++ cuts.flatMap Prod.snd).Perm s := by
  induction h with
  | last _ => simp
  | @link gap u rest tail cuts _ _ _ _ ih =>
    have hcuts : ((gap, u) :: cuts).flatMap Prod.fst ++ tail ++ ((gap, u) :: cuts).flatMap Prod.snd
        = gap ++ ((cuts.flatMap Prod.fst ++ tail) ++ (u ++ cuts.flatMap Prod.snd)) := by
      simp
    rw [hcuts]
    refine List.Perm.append_left gap ?_
    exact (List.perm_append_comm_assoc ..).trans (ih.append_left u)

variable {text : String}

/-- The parts of a text, by its decomposition. -/
theorem split_eq (h : Decomposes text.toList cuts tail) :
    split text = (if trimChars (cuts.flatMap Prod.fst ++ tail) = [] then []
      else [.text (String.ofList (trimChars (cuts.flatMap Prod.fst ++ tail)))]) ++
        cuts.map fun cut => .image ⟨String.ofList cut.2, none⟩ := by
  simp only [split, remove, list, h.find_eq, List.map_map, List.isEmpty_iff]
  split <;> rfl

theorem image_mem_split_iff (h : Decomposes text.toList cuts tail) {image : ImageUrl} :
    .image image ∈ split text ↔ ∃ cut ∈ cuts, image = ⟨String.ofList cut.2, none⟩ := by
  rw [h.split_eq, List.mem_append, List.mem_map]
  constructor
  · rintro (himage | ⟨cut, hcut, himage⟩)
    · split at himage <;> simp at himage
    · exact ⟨cut, hcut, (ContentPart.image.inj himage).symm⟩
  · rintro ⟨cut, hcut, rfl⟩
    exact .inr ⟨cut, hcut, rfl⟩

/-- Trimming aside, the parts of a text say what the text does. -/
theorem said_split_perm (h : Decomposes text.toList cuts tail) :
    (((split text).flatMap said).filter (!isBlank ·)).Perm (text.toList.filter (!isBlank ·)) := by
  have hsaid : (split text).flatMap said
      = trimChars (cuts.flatMap Prod.fst ++ tail) ++ cuts.flatMap Prod.snd := by
    rw [h.split_eq, List.flatMap_append, List.flatMap_map]
    congr 1
    · split
      · next hnone => rw [hnone]; rfl
      · simp [said]
    · simp [said]
  rw [hsaid, List.filter_append, (isTrimmed_trimChars _).filter_notBlank, ← List.filter_append]
  exact h.perm.filter _

theorem occursIn_iff (h : Decomposes text.toList cuts tail) :
    occursIn text = true ↔ ∃ image, .image image ∈ split text := by
  have hcuts : occursIn text = true ↔ cuts ≠ [] := by simp [occursIn, h.find_eq]
  rw [hcuts]
  constructor
  · intro hne
    obtain ⟨cut, hcut⟩ := List.exists_mem_of_ne_nil cuts hne
    exact ⟨_, h.image_mem_split_iff.mpr ⟨cut, hcut, rfl⟩⟩
  · rintro ⟨image, himage⟩
    obtain ⟨cut, hcut, -⟩ := h.image_mem_split_iff.mp himage
    exact List.ne_nil_of_mem hcut

/-- The URL of an image is a link. -/
theorem isLink_url (h : Decomposes text.toList cuts tail) {image : ImageUrl}
    (himage : .image image ∈ split text) : IsLink image.url.toList := by
  obtain ⟨cut, hcut, rfl⟩ := h.image_mem_split_iff.mp himage
  rw [show (String.ofList cut.2).toList = cut.2 from String.toList_ofList]
  exact h.isLink cut hcut

/-- What is left of a text, as the text that is one of its parts. -/
theorem exists_words (h : Decomposes text.toList cuts tail) :
    ∃ words : String, IsTrimmed (cuts.flatMap Prod.fst ++ tail) words.toList ∧
      split text = (if words = "" then [] else [.text words]) ++
        cuts.map fun cut => .image ⟨String.ofList cut.2, none⟩ := by
  refine ⟨String.ofList (trimChars (cuts.flatMap Prod.fst ++ tail)), ?_, ?_⟩
  · rw [String.toList_ofList]
    exact isTrimmed_trimChars _
  · rw [h.split_eq]
    simp only [← String.toList_eq_nil_iff, String.toList_ofList]

end Decomposes

/-- A text that holds no link, and has no blank at its ends, is one part. -/
theorem split_of_free {words : String} (hfree : ∀ u, IsLink u → ¬ u <:+: words.toList)
    (htrimmed : IsTrimmed s words.toList) (hne : words ≠ "") : split words = [.text words] := by
  have hwhole : Decomposes words.toList [] words.toList := .last hfree
  rw [hwhole.split_eq, List.flatMap_nil, List.nil_append, htrimmed.trimChars_eq,
    if_neg (mt String.toList_eq_nil_iff.mp hne), String.ofList_toList]
  rfl

/-- **A text is split at its leftmost, longest links**, and so is nothing else: what is left of it
without them, trimmed, is the text part, which holds no link and is left alone when it is split once
more. Every character that is no blank is in one part.

The search cuts a text into links and what lies between them, and any decomposition of this kind is
that one (`Decomposes.unique`), since a link is settled by where it begins. Trimming and joining
what is left makes no new link, as a blank stands wherever one was cut out. -/
theorem split_cuts_at_links (text : String) :
    ∃ cuts tail, Decomposes text.toList cuts tail ∧
      (∀ cuts' tail', Decomposes text.toList cuts' tail' → cuts' = cuts ∧ tail' = tail) ∧
      ∃ words : String, IsTrimmed (cuts.flatMap Prod.fst ++ tail) words.toList ∧
        split text = (if words = "" then [] else [.text words]) ++
          cuts.map (fun cut => .image ⟨String.ofList cut.2, none⟩) ∧
        (∀ u, IsLink u → ¬ u <:+: words.toList) ∧
        (words ≠ "" → split words = [.text words]) ∧
        (∀ image, .image image ∈ split text →
          ("http://".toList <+: image.url.toList ∨ "https://".toList <+: image.url.toList) ∧
            ∀ c ∈ image.url.toList, isBlank c = false) ∧
        (((split text).flatMap said).filter (!isBlank ·)).Perm (text.toList.filter (!isBlank ·)) ∧
        (occursIn text = true ↔ ∃ image, .image image ∈ split text) := by
  have hcuts := decomposes_find text.toList
  generalize (find text.toList).1 = cuts, (find text.toList).2 = tail at hcuts
  obtain ⟨words, htrimmed, hsplit⟩ := hcuts.exists_words
  have hfree : ∀ u, IsLink u → ¬ u <:+: words.toList := fun u hu hwithin =>
    hcuts.free hu (hwithin.trans htrimmed.isInfix)
  refine ⟨cuts, tail, hcuts, fun _ _ h => h.unique hcuts, words, htrimmed, hsplit, hfree,
    split_of_free hfree htrimmed, fun image himage => ?_, hcuts.said_split_perm,
    hcuts.occursIn_iff⟩
  have hlink := hcuts.isLink_url himage
  refine ⟨?_, hlink.notBlank⟩
  obtain ⟨body, hscheme, -⟩ := hlink
  exact hscheme.imp (fun h => ⟨body, h.symm⟩) fun h => ⟨body, h.symm⟩

/-- Two pieces of a text do not become a link when the one between them goes. -/
example : split "http:/http://a /b" = [.text "http:/ /b", .image ⟨"http://a", none⟩] := by
  decide +kernel

end Chat.Links

end ModelRelay
