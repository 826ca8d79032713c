import ModelRelay.Text.Utf8
import ModelRelay.Yaml.Scalar

/-!
# Anchors, tags and directives as they are written

The small words of YAML: the name behind `&` or `*`, the tag behind `!`, and the lines that begin
with `%`. Each reader takes a cursor at the word and gives the cursor behind it.
-/

set_option autoImplicit false

namespace ModelRelay.Yaml

/-! ## Anchors -/

/-- What may follow the name of an anchor besides a gap. -/
def isAnchorEnd (ch : Char) : Bool :=
  ['?', ':', ',', ']', '}', '%', '@', '\x60'].contains ch

/-- Reads the name of an anchor, with the cursor at its indicator. -/
def anchorName? (c : Cursor) : Option (String × Cursor) :=
  let (name, c) := (c.skip 1).span isWordChar
  if !name.isEmpty && (c.gapAhead 0 || c.head?.any isAnchorEnd) then some (String.ofList name, c)
  else none

/-! ## Tags -/

/-- A tag as it is written: a handle, and a suffix that goes behind what the handle stands for. The
empty handle stands for nothing. -/
structure Tag where
  handle : String
  suffix : String
deriving DecidableEq, Repr

namespace Tag

/-- A character of a tag; brackets and commas only where nothing else can end the tag. -/
def isUriChar (bracketed : Bool) (ch : Char) : Bool :=
  isWordChar ch || ";/?:@&=+$.%!~*'()".toList.contains ch ||
    (bracketed && [',', '[', ']'].contains ch)

/-- The byte that a percent sign and two digits stand for. -/
def octet? (c : Cursor) : Option UInt8 :=
  match c.rest with
  | '%' :: a :: b :: _ => (Quoted.hexNumber? [a, b]).map Nat.toUInt8
  | _ => none

/-- Reads escaped bytes, of which there are some, and gives them reversed. -/
def octetsFrom (bytes : List UInt8) : Nat → Cursor → Option (List UInt8 × Cursor)
  | 0, c => some (bytes, c)
  | fuel + 1, c =>
    if c.isAt '%' then do
      let b ← octet? c
      octetsFrom (b :: bytes) fuel (c.skip 3)
    else some (bytes, c)

/-- Reads the characters of a tag, reversed. Escaped bytes spell characters. -/
def uriFrom (bracketed : Bool) (text : List Char) : Nat → Cursor → Option (List Char × Cursor)
  | 0, c => some (text, c)
  | fuel + 1, c =>
    match c.head? with
    | none => some (text, c)
    | some ch =>
      if !isUriChar bracketed ch then some (text, c)
      else if ch == '%' then do
        let (bytes, c) ← octetsFrom [] c.rest.length c
        let s ← Utf8.strict? bytes.reverse
        uriFrom bracketed (s.toList.reverse ++ text) fuel c
      else uriFrom bracketed (ch :: text) fuel (c.skip 1)

def uri? (bracketed : Bool) (start : List Char) (c : Cursor) : Option (String × Cursor) :=
  (uriFrom bracketed start.reverse c.rest.length c).map fun (text, c) =>
    (String.ofList text.reverse, c)

/-- Reads a handle: an exclamation mark, and a word with another mark behind it. Without the second
mark it is only the start of a tag. -/
def handle? (c : Cursor) : Option (List Char × Cursor) :=
  if !c.isAt '!' then none
  else
    let (word, c) := (c.skip 1).span isWordChar
    if c.isAt '!' then some ('!' :: word ++ ['!'], c.skip 1) else some ('!' :: word, c)

/-- Reads a tag between angle brackets. -/
def verbatim? (c : Cursor) : Option (Tag × Cursor) := do
  let (suffix, c) ← uri? true [] (c.skip 2)
  if suffix.isEmpty || !c.isAt '>' then none
  return (⟨"", suffix⟩, c.skip 1)

/-- Reads a tag with a handle, or with the mark alone. -/
def shorthand? (c : Cursor) : Option (Tag × Cursor) := do
  let (handle, c) ← handle? c
  match handle with
  | '!' :: rest@(_ :: _) =>
    if rest.getLast? == some '!' then
      let (suffix, c) ← uri? false [] c
      if suffix.isEmpty then none
      return (⟨String.ofList handle, suffix⟩, c)
    else
      let (suffix, c) ← uri? false rest c
      return (⟨"!", suffix⟩, c)
  | _ =>
    let (suffix, c) ← uri? false [] c
    return (if suffix.isEmpty then ⟨"", "!"⟩ else ⟨"!", suffix⟩, c)

/-- Reads a tag, with the cursor at its mark. A gap follows it, or a comma between brackets. -/
def read (flow : Bool) (c : Cursor) : Option (Tag × Cursor) := do
  let (tag, c) ← if c.ahead? 1 == some '<' then verbatim? c else shorthand? c
  if c.gapAhead 0 || (flow && c.isAt ',') then return (tag, c)
  none

end Tag

/-! ## Directives -/

/-- A line that begins with a percent sign. -/
inductive Directive where
  | version (major minor : Nat)
  /-- What a handle stands for. -/
  | handle (handle start : String)
deriving DecidableEq, Repr

namespace Directive

/-- A number of at most nine digits. -/
def number? (c : Cursor) : Option (Nat × Cursor) :=
  let (digits, c) := c.span Char.isDigit
  if digits.isEmpty || 9 < digits.length then none
  else some (digits.foldl (fun n d => n * 10 + (d.toNat - '0'.toNat)) 0, c)

def version? (c : Cursor) : Option (Directive × Cursor) := do
  let (major, c) ← number? (c.skipWhile isBlank)
  if !c.isAt '.' then none
  let (minor, c) ← number? (c.skip 1)
  return (.version major minor, c)

/-- Reads the two words of a handle's directive, each with a gap behind it. -/
def handle? (c : Cursor) : Option (Directive × Cursor) := do
  let (word, c) ← Tag.handle? (c.skipWhile isBlank)
  if word.getLast? != some '!' || !c.isAtBlank then none
  let (start, c) ← Tag.uri? true [] (c.skipWhile isBlank)
  if start.isEmpty || !c.gapAhead 0 then none
  return (.handle (String.ofList word) start, c)

/-- Reads a directive, with the cursor at its percent sign. The rest of its line is empty or a
comment. -/
def read (c : Cursor) : Option (Directive × Cursor) := do
  let (name, c) := (c.skip 1).span isWordChar
  if !c.gapAhead 0 then none
  let (directive, c) ←
    match String.ofList name with
    | "YAML" => version? c
    | "TAG" => handle? c
    | _ => none
  let c := c.skipWhile isBlank
  let c := if c.isAt '#' then c.skipWhile (!isBreak ·) else c
  if c.isAtEnd || c.isAtBreak then return (directive, c.skipBreak)
  none

end Directive

end ModelRelay.Yaml
