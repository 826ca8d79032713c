import ModelRelay.Chat.Content
import ModelRelay.Text.Blank

/-!
# Links in a text

Callers paste links to images into their text. A link begins with `http://` or `https://` and goes
on up to the next blank; the leftmost link is found first. `find` cuts a text at its links, and
`split` makes parts of it: the text between the links, trimmed, and behind it one image per link.
-/

set_option autoImplicit false

namespace ModelRelay.Chat.Links

def isLinkChar (c : Char) : Bool :=
  !Text.isBlank c

/-- The link at the head of a text behind its scheme, and the rest. -/
def body? (scheme : List Char) : List Char → Option (List Char × List Char)
  | ':' :: '/' :: '/' :: s =>
    match s.takeWhile isLinkChar with
    | [] => none
    | body => some (scheme ++ ':' :: '/' :: '/' :: body, s.dropWhile isLinkChar)
  | _ => none

/-- The link at the head of a text, and the rest. -/
def at? : List Char → Option (List Char × List Char)
  | 'h' :: 't' :: 't' :: 'p' :: 's' :: s => body? ['h', 't', 't', 'p', 's'] s
  | 'h' :: 't' :: 't' :: 'p' :: s => body? ['h', 't', 't', 'p'] s
  | _ => none

theorem body?_length {scheme s link rest : List Char} (h : body? scheme s = some (link, rest)) :
    rest.length < s.length := by
  unfold body? at h
  split at h
  · next s =>
    split at h
    · simp at h
    · simp only [Option.some.injEq, Prod.mk.injEq] at h
      obtain ⟨_, rfl⟩ := h
      have := (List.dropWhile_sublist (l := s) isLinkChar).length_le
      simp
      omega
  · simp at h

theorem at?_length {s link rest : List Char} (h : at? s = some (link, rest)) :
    rest.length < s.length := by
  unfold at? at h
  split at h
  · have := body?_length h; simp; omega
  · have := body?_length h; simp; omega
  · simp at h

/-- Goes on cutting: `gap` holds the text since the last link, last character first, and `cuts` the
links so far with the text before each, the last one first. -/
def findFrom (gap : List Char) (cuts : List (List Char × List Char)) (s : List Char) :
    List (List Char × List Char) × List Char :=
  match h : at? s with
  | some (link, rest) =>
    have := at?_length h
    findFrom [] ((gap.reverse, link) :: cuts) rest
  | none =>
    match s with
    | [] => (cuts.reverse, gap.reverse)
    | c :: rest => findFrom (c :: gap) cuts rest
termination_by s.length

/-- Cuts a text at its links: each link with the text before it, and the text after the last. -/
def find (s : List Char) : List (List Char × List Char) × List Char :=
  findFrom [] [] s

/-- The text without its links. -/
def remove (s : List Char) : List Char :=
  let (cuts, tail) := find s
  cuts.flatMap Prod.fst ++ tail

/-- The links of a text in their order. -/
def list (s : List Char) : List (List Char) :=
  (find s).1.map Prod.snd

/-- A text as parts: what is left of it without its links, unless that is blank, and its links. -/
def split (s : String) : List ContentPart :=
  let words := Text.trimChars (remove s.toList)
  let images := (list s.toList).map fun link => ContentPart.image ⟨String.ofList link, none⟩
  if words.isEmpty then images else .text (String.ofList words) :: images

/-- There is a link somewhere. -/
def occursIn (s : String) : Bool :=
  !(find s.toList).1.isEmpty

end ModelRelay.Chat.Links
