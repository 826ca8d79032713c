import ModelRelay.Json.Reader
import ModelRelay.Yaml.Cursor

/-!
# Scalars as they are written

A scalar is written plain, between quotes, or as a block of lines. Where a plain or a quoted scalar
goes on over lines, its lines are folded: one break between them reads as a blank, and of several
the first is dropped. Each reader takes a cursor at the scalar and gives its text and the cursor
behind it, or nothing if the scalar is not well written.
-/

set_option autoImplicit false

namespace ModelRelay.Yaml

/-- How a scalar is written. -/
inductive Style where
  | plain
  | singleQuoted
  | doubleQuoted
  | literal
  | folded
deriving DecidableEq, Repr

/-! ## Folding -/

/-- What stands between two pieces of a scalar. The lists are reversed. -/
structure Gap where
  blanks : List Char := []
  /-- The line ends in it. -/
  broken : Bool := false
  firstBreak : Option Char := none
  furtherBreaks : List Char := []

namespace Gap

/-- What a gap reads as. -/
def fold (g : Gap) : List Char :=
  if !g.broken then g.blanks.reverse
  else match g.firstBreak, g.furtherBreaks with
    | some '\n', [] => [' ']
    | some '\n', breaks => breaks.reverse
    | first, breaks => first.toList ++ breaks.reverse

/-- Takes in a line's end. Blanks before it count for nothing. -/
def addBreak (g : Gap) (ch : Char) : Gap :=
  if g.broken then { g with furtherBreaks := ch :: g.furtherBreaks }
  else { broken := true, firstBreak := some ch }

/-- Takes in a blank. At the start of a line it counts for nothing. -/
def addBlank (g : Gap) (ch : Char) : Gap :=
  if g.broken then g else { g with blanks := ch :: g.blanks }

/-- Reads a gap on; `fuel` is a number of characters. A tab left of a column is no indentation. -/
def readFrom (column : Nat) (g : Gap) : Nat → Cursor → Option (Gap × Cursor)
  | 0, c => some (g, c)
  | fuel + 1, c =>
    match c.head? with
    | none => some (g, c)
    | some ch =>
      if isBlank ch then
        if g.broken && c.column < column && ch == '\t' then none
        else readFrom column (g.addBlank ch) fuel (c.skip 1)
      else if isBreak ch then readFrom column (g.addBreak ch) fuel c.skipBreak
      else some (g, c)

def read (column : Nat) (g : Gap) (c : Cursor) : Option (Gap × Cursor) :=
  readFrom column g c.rest.length c

end Gap

/-! ## Plain scalars -/

namespace Plain

/-- A character that ends a plain scalar inside brackets. -/
def isBracketOrComma (ch : Char) : Bool :=
  [',', '[', ']', '{', '}'].contains ch

/-- Reads the characters of a plain scalar up to a gap or its end. Inside brackets a colon may not
stand before what ends a scalar. -/
def runFrom (flow : Bool) (run : List Char) : Nat → Cursor → Option (List Char × Cursor)
  | 0, c => some (run, c)
  | fuel + 1, c =>
    match c.head? with
    | none => some (run, c)
    | some ch =>
      if isGap ch then some (run, c)
      else if flow && ch == ':' && (c.ahead? 1).any (fun n => n == '?' || isBracketOrComma n) then
        none
      else if ch == ':' && c.gapAhead 1 then some (run, c)
      else if flow && isBracketOrComma ch then some (run, c)
      else runFrom flow (ch :: run) fuel (c.skip 1)

/-- Reads a plain scalar on. The flag tells whether a line's end follows it. -/
def readFrom (flow : Bool) (column : Nat) (text : List Char) (gap : Gap) :
    Nat → Cursor → Option (List Char × Bool × Cursor)
  | 0, c => some (text, gap.broken, c)
  | fuel + 1, c =>
    if c.isAtDocumentMark || c.isAt '#' then some (text, gap.broken, c)
    else do
      let (run, c) ← runFrom flow [] c.rest.length c
      if run.isEmpty then return (text, gap.broken, c)
      let text := run ++ gap.fold.reverse ++ text
      if !(c.isAtBlank || c.isAtBreak) then return (text, false, c)
      let (gap, c) ← Gap.read column {} c
      if !flow && c.column < column then return (text, gap.broken, c)
      readFrom flow column text gap fuel c

/-- Reads a plain scalar whose lines begin at a column or right of it. -/
def read (flow : Bool) (column : Nat) (c : Cursor) : Option (String × Bool × Cursor) :=
  (readFrom flow column [] {} (c.rest.length + 1) c).map fun (text, broken, c) =>
    (String.ofList text.reverse, broken, c)

end Plain

/-! ## Quoted scalars -/

namespace Quoted

/-- The number that hexadecimal digits spell. -/
def hexNumber? (digits : List Char) : Option Nat :=
  digits.foldlM
    (fun n d => (Json.Reader.hexValue? d.toNat.toUInt8).bind fun v =>
      if d.toNat < 128 then some (n * 16 + v) else none) 0

/-- The character that an escape with a number stands for, and how long the escape is. -/
def numbered? (count : Nat) (c : Cursor) : Option (Char × Nat) := do
  let digits := (c.rest.drop 2).take count
  if digits.length < count then none
  let n ← hexNumber? digits
  if n < 0xD800 ∨ (0xDFFF < n ∧ n ≤ 0x10FFFF) then some (Char.ofNat n, count + 2) else none

/-- The character that an escape stands for, and how long the escape is. -/
def escape? (c : Cursor) : Option (Char × Nat) :=
  match c.ahead? 1 with
  | some '0' => some ('\x00', 2)
  | some 'a' => some ('\x07', 2)
  | some 'b' => some ('\x08', 2)
  | some 't' | some '\t' => some ('\t', 2)
  | some 'n' => some ('\n', 2)
  | some 'v' => some ('\x0b', 2)
  | some 'f' => some ('\x0c', 2)
  | some 'r' => some ('\r', 2)
  | some 'e' => some ('\x1b', 2)
  | some ' ' => some (' ', 2)
  | some '"' => some ('"', 2)
  | some '/' => some ('/', 2)
  | some '\\' => some ('\\', 2)
  | some 'N' => some ('\u0085', 2)
  | some '_' => some ('\u00a0', 2)
  | some 'L' => some ('\u2028', 2)
  | some 'P' => some ('\u2029', 2)
  | some 'x' => numbered? 2 c
  | some 'u' => numbered? 4 c
  | some 'U' => numbered? 8 c
  | _ => none

/-- The quote that a style is written with. -/
def mark (single : Bool) : Char :=
  if single then '\'' else '"'

/-- Reads characters up to a gap, the closing quote, or behind an escaped line's end, which the
flag tells. -/
def runFrom (single : Bool) (run : List Char) : Nat → Cursor → Option (List Char × Bool × Cursor)
  | 0, c => some (run, false, c)
  | fuel + 1, c =>
    match c.head? with
    | none => some (run, false, c)
    | some ch =>
      if isGap ch then some (run, false, c)
      else if single && ch == '\'' && c.ahead? 1 == some '\'' then
        runFrom single ('\'' :: run) fuel (c.skip 2)
      else if ch == mark single then some (run, false, c)
      else if !single && ch == '\\' then
        if (c.ahead? 1).any isBreak then some (run, true, (c.skip 1).skipBreak)
        else match escape? c with
          | some (meant, length) => runFrom single (meant :: run) fuel (c.skip length)
          | none => none
      else runFrom single (ch :: run) fuel (c.skip 1)

/-- Reads a quoted scalar on, up to its closing quote. -/
def readFrom (single : Bool) (text : List Char) : Nat → Cursor → Option (List Char × Cursor)
  | 0, _ => none
  | fuel + 1, c =>
    if c.isAtDocumentMark || c.isAtEnd then none
    else do
      let (run, escaped, c) ← runFrom single [] c.rest.length c
      let text := run ++ text
      if c.isAt (mark single) then return (text, c.skip 1)
      let (gap, c) ← Gap.read 0 { broken := escaped } c
      readFrom single (gap.fold.reverse ++ text) fuel c

/-- Reads a quoted scalar, with the cursor at its opening quote. -/
def read (single : Bool) (c : Cursor) : Option (String × Cursor) :=
  (readFrom single [] (c.rest.length + 1) (c.skip 1)).map fun (text, c) =>
    (String.ofList text.reverse, c)

end Quoted

/-! ## Blocks of lines -/

namespace Block

/-- What becomes of the breaks at the end of a block. -/
inductive Chomping where
  | strip
  | clip
  | keep
deriving DecidableEq, Repr

def chomping? : Option Char → Option Chomping
  | some '+' => some .keep
  | some '-' => some .strip
  | _ => none

/-- An indentation that the head of a block gives. Zero is none. -/
def increment? (ch : Option Char) : Option Nat :=
  ch.bind fun d => if d.isDigit then some (d.toNat - '0'.toNat) else none

/-- The head of a block: its chomping and its indentation, in either order. -/
def header? (c : Cursor) : Option (Chomping × Option Nat × Cursor) := do
  let (chomping, increment, c) :=
    match chomping? c.head?, increment? c.head? with
    | some chomping, _ =>
      match increment? (c.ahead? 1) with
      | some n => (chomping, some n, c.skip 2)
      | none => (chomping, none, c.skip 1)
    | none, some n =>
      match chomping? (c.ahead? 1) with
      | some chomping => (chomping, some n, c.skip 2)
      | none => (.clip, some n, c.skip 1)
    | none, none => (.clip, none, c)
  if increment == some 0 then none
  let c := c.skipWhile isBlank
  let c := if c.isAt '#' then c.skipWhile (!isBreak ·) else c
  if !(c.isAtEnd || c.isAtBreak) then none
  return (chomping, increment, c.skipBreak)

/-- Reads empty lines. The indentation is known, or else the widest line gives it; a tab may not
stand in its place. Gives the breaks, reversed, and the widest column. -/
def breaksFrom (indent : Option Nat) (widest : Nat) (breaks : List Char) :
    Nat → Cursor → Option (List Char × Nat × Cursor)
  | 0, c => some (breaks, widest, c)
  | fuel + 1, c =>
    let room := match indent with
      | some n => n - c.column
      | none => c.rest.length
    let c := c.skip ((c.rest.take room).takeWhile (· == ' ')).length
    let widest := max widest c.column
    if c.isAt '\t' && indent.all (c.column < ·) then none
    else match c.head? with
      | some ch =>
        if isBreak ch then breaksFrom indent widest (ch :: breaks) fuel c.skipBreak
        else some (breaks, widest, c)
      | none => some (breaks, widest, c)

def breaks (indent : Option Nat) (c : Cursor) : Option (List Char × Nat × Cursor) :=
  breaksFrom indent 0 [] (c.rest.length + 1) c

/-- What stands between two lines of a block: the first break and the further ones, reversed. In a
folded block the first is folded if the lines on both sides begin without a blank. -/
def join (isFolded blankBefore blankBehind : Bool) (first : Option Char) (further : List Char) :
    List Char :=
  if isFolded && first == some '\n' && !blankBefore && !blankBehind then
    if further.isEmpty then [' '] else further.reverse
  else first.toList ++ further.reverse

/-- Reads the lines of a block at a column, and chomps. -/
def linesFrom (isFolded : Bool) (chomping : Chomping) (column : Nat) (text : List Char)
    (blankBefore : Bool) (first : Option Char) (further : List Char) :
    Nat → Cursor → Option (List Char × Cursor)
  | 0, _ => none
  | fuel + 1, c =>
    if c.column == column && !c.isAtEnd then do
      let text := (join isFolded blankBefore c.isAtBlank first further).reverse ++ text
      let blankBefore := c.isAtBlank
      let (line, c) := c.span (!isBreak ·)
      let first := c.head?
      let (further, _, c) ← breaks (some column) c.skipBreak
      linesFrom isFolded chomping column (line.reverse ++ text) blankBefore first further fuel c
    else
      match chomping with
      | .strip => some (text, c)
      | .clip => some (first.toList ++ text, c)
      | .keep => some (further ++ first.toList ++ text, c)

/-- Reads a block, with the cursor behind its indicator. Its lines stand right of a parent's
column, if there is one. -/
def read (isFolded : Bool) (parent : Option Nat) (c : Cursor) : Option (String × Cursor) := do
  let (chomping, increment, c) ← header? c
  let indent := increment.map (parent.getD 0 + ·)
  let (further, widest, c) ← breaks indent c
  let least := (parent.map (· + 1)).getD 0
  let column := indent.getD (max 1 (max widest least))
  let (text, c) ← linesFrom isFolded chomping column [] false none further (c.rest.length + 1) c
  return (String.ofList text.reverse, c)

end Block

end ModelRelay.Yaml
