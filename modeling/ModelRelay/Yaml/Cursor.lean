/-!
# Places in a YAML text

A cursor is what is left of a text, and where in the text that begins. Lines and columns matter in
YAML, so every step of reading moves the cursor through one of the functions here. The text is
brought into one form first: whatever ends a line in it is one line feed, except for the two
separators that keep their own character.
-/

set_option autoImplicit false

namespace ModelRelay.Yaml

/-- A character that a text may hold. -/
def isAllowed (c : Char) : Bool :=
  let n := c.toNat
  n == 0x09 || n == 0x0A || n == 0x0D || (0x20 ≤ n && n ≤ 0x7E) || n == 0x85 ||
    (0xA0 ≤ n && n ≤ 0xFFFD && n != 0xFEFF) || 0x10000 ≤ n

/-- The text with each line's end as one character; `read` is what stands before it, reversed. -/
def joinBreaksFrom (read : List Char) : List Char → List Char
  | [] => read.reverse
  | '\r' :: '\n' :: rest => joinBreaksFrom ('\n' :: read) rest
  | c :: rest =>
    joinBreaksFrom ((if c = '\r' || c = '\u0085' then '\n' else c) :: read) rest

/-- A text in the form that is read, without the mark of its byte order. -/
def normalize? (s : String) : Option (List Char) :=
  let cs := match s.toList with
    | '\ufeff' :: rest => rest
    | cs => cs
  if cs.all isAllowed then some (joinBreaksFrom [] cs) else none

def isBreak (c : Char) : Bool :=
  c == '\n' || c == '\u2028' || c == '\u2029'

def isBlank (c : Char) : Bool :=
  c == ' ' || c == '\t'

/-- A blank, or the end of a line. -/
def isGap (c : Char) : Bool :=
  isBlank c || isBreak c

/-- A character of names: of anchors, handles and directives. -/
def isWordChar (c : Char) : Bool :=
  c.isAlphanum || c == '_' || c == '-'

structure Cursor where
  rest : List Char
  /-- How many characters stand before it. -/
  index : Nat := 0
  line : Nat := 0
  column : Nat := 0
deriving Repr

namespace Cursor

def head? (c : Cursor) : Option Char :=
  c.rest.head?

/-- The character some places further on. -/
def ahead? (c : Cursor) (n : Nat) : Option Char :=
  (c.rest.drop n).head?

def isAt (c : Cursor) (ch : Char) : Bool :=
  c.rest.head? == some ch

def isAtEnd (c : Cursor) : Bool :=
  c.rest.isEmpty

/-- Some places further on there is a blank, the end of a line, or nothing. -/
def gapAhead (c : Cursor) (n : Nat) : Bool :=
  match c.ahead? n with
  | some ch => isGap ch
  | none => true

/-- The character here is a line's end. -/
def isAtBreak (c : Cursor) : Bool :=
  c.head?.any isBreak

def isAtBlank (c : Cursor) : Bool :=
  c.head?.any isBlank

/-- Moves over some characters of one line. -/
def skip (c : Cursor) (n : Nat) : Cursor :=
  let passed := min n c.rest.length
  { c with rest := c.rest.drop n, index := c.index + passed, column := c.column + passed }

/-- Moves over a line's end. -/
def skipBreak (c : Cursor) : Cursor :=
  match c.rest with
  | [] => c
  | _ :: rest => ⟨rest, c.index + 1, c.line + 1, 0⟩

/-- The characters of one line that a test holds for, and the cursor behind them. -/
def span (c : Cursor) (test : Char → Bool) : List Char × Cursor :=
  let run := c.rest.takeWhile test
  (run, { c with rest := c.rest.dropWhile test, index := c.index + run.length
                 column := c.column + run.length })

def skipWhile (c : Cursor) (test : Char → Bool) : Cursor :=
  (c.span test).2

/-- A line of three dashes or points, which begins or ends a document. -/
def isAtMark (c : Cursor) (ch : Char) : Bool :=
  c.column == 0 && c.rest.take 3 == [ch, ch, ch] && c.gapAhead 3

def isAtDocumentMark (c : Cursor) : Bool :=
  c.isAtMark '-' || c.isAtMark '.'

end Cursor

end ModelRelay.Yaml
