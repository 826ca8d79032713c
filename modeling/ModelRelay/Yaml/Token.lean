import ModelRelay.Yaml.Tag

/-!
# Tokens of a YAML text

A text falls into tokens: scalars and names, indicators, and marks of where indented blocks begin
and end, which the columns tell. Whether a scalar is a key shows only when a colon follows it. So
the place of what may be a key is remembered, and the mark of a key goes in there once the colon
comes. The colon has to come on the same line and within 1024 characters.
-/

set_option autoImplicit false

namespace ModelRelay.Yaml

inductive Token where
  | directive (d : Directive)
  | documentStart
  | documentEnd
  | blockSequence
  | blockMapping
  | blockEnd
  | flowSequence
  | flowSequenceEnd
  | flowMapping
  | flowMappingEnd
  /-- A dash before an item. -/
  | entry
  /-- A comma between items. -/
  | comma
  | key
  | value
  | alias (name : String)
  | anchor (name : String)
  | tag (tag : Tag)
  | scalar (style : Style) (text : String)
deriving DecidableEq, Repr

/-- What may turn out to be a key. -/
structure KeyPlace where
  /-- How many tokens stand before it. -/
  tokens : Nat
  /-- In its place there can be nothing but a key. -/
  required : Bool
  index : Nat
  line : Nat
  column : Nat

/-- How far a text has fallen into tokens. -/
structure Scan where
  cursor : Cursor
  tokens : Array Token := #[]
  /-- The columns of the blocks that are open, the innermost first. -/
  blocks : List Nat := []
  /-- A key may begin here. -/
  keyAllowed : Bool := true
  /-- What may be a key, of the brackets or block that are open. -/
  key : Option KeyPlace := none
  /-- The same of each bracket's outside, the innermost first. -/
  outerKeys : List (Option KeyPlace) := []

namespace Scan

/-- The cursor is between brackets, where columns say nothing. -/
def inFlow (s : Scan) : Bool :=
  !s.outerKeys.isEmpty

def push (s : Scan) (t : Token) : Scan :=
  { s with tokens := s.tokens.push t }

/-- Puts a token in at a place. -/
def insert (s : Scan) (place : Nat) (t : Token) : Scan :=
  { s with tokens := (s.tokens.extract 0 place).push t ++ s.tokens.extract place s.tokens.size }

/-! ## Gaps -/

/-- Passes blanks, comments and line ends. After a line's end a key may begin. A tab is passed only
where it is no indentation. -/
def passFrom (flow keyAllowed : Bool) : Nat → Cursor → Cursor × Bool
  | 0, c => (c, keyAllowed)
  | fuel + 1, c =>
    let c := c.skipWhile fun ch => ch == ' ' || ((flow || !keyAllowed) && ch == '\t')
    let c := if c.isAt '#' then c.skipWhile (!isBreak ·) else c
    if c.isAtBreak then passFrom flow (keyAllowed || !flow) fuel c.skipBreak else (c, keyAllowed)

def pass (s : Scan) : Scan :=
  let (cursor, keyAllowed) := passFrom s.inFlow s.keyAllowed (s.cursor.rest.length + 1) s.cursor
  { s with cursor, keyAllowed }

/-! ## Keys -/

/-- The colon can come no more. -/
def isStale (c : Cursor) (k : KeyPlace) : Bool :=
  k.line < c.line || k.index + 1024 < c.index

/-- Gives up what can be no key any more, unless it has to be one. -/
def dropStale (c : Cursor) : Option KeyPlace → Option (Option KeyPlace)
  | none => some none
  | some k => if !isStale c k then some (some k) else if k.required then none else some none

def dropAllStale (s : Scan) : Option Scan := do
  let key ← dropStale s.cursor s.key
  let outerKeys ← s.outerKeys.mapM (dropStale s.cursor)
  return { s with key, outerKeys }

/-- Gives up what could have been a key, unless it has to be one. -/
def dropKey (s : Scan) : Option Scan :=
  if s.key.any (·.required) then none else some { s with key := none }

/-- Remembers that what begins here may be a key. -/
def noteKey (s : Scan) : Option Scan :=
  if !s.keyAllowed then some s
  else do
    let s ← s.dropKey
    let c := s.cursor
    let required := !s.inFlow && s.blocks.head? == some c.column
    return { s with key := some ⟨s.tokens.size, required, c.index, c.line, c.column⟩ }

def allowKey (s : Scan) (allowed : Bool) : Scan :=
  { s with keyAllowed := allowed }

/-! ## Blocks -/

/-- Closes the blocks right of a column; all of them if there is none. -/
def closeBlocks (s : Scan) (column : Option Nat) : Scan :=
  if s.inFlow then s
  else
    let isRight (block : Nat) : Bool := column.all (· < block)
    let closed := (s.blocks.takeWhile isRight).length
    { s with blocks := s.blocks.drop closed
             tokens := s.tokens ++ (List.replicate closed Token.blockEnd).toArray }

/-- Opens a block at a column that is right of the open ones, with its token at a place. -/
def openBlock (s : Scan) (column place : Nat) (t : Token) : Scan :=
  if s.inFlow || s.blocks.head?.any (column ≤ ·) then s
  else { s.insert place t with blocks := column :: s.blocks }

/-! ## Tokens -/

/-- Takes an indicator of some characters. -/
def indicator (s : Scan) (length : Nat) (t : Token) : Scan :=
  { s.push t with cursor := s.cursor.skip length }

/-- What stands at the left margin closes all blocks. -/
def atMargin (s : Scan) : Option Scan :=
  ((s.closeBlocks none).dropKey).map (·.allowKey false)

def directive (s : Scan) : Option Scan := do
  let s ← s.atMargin
  let (d, cursor) ← Directive.read s.cursor
  return { s.push (.directive d) with cursor }

def documentMark (s : Scan) (t : Token) : Option Scan := do
  return (← s.atMargin).indicator 3 t

def openBracket (s : Scan) (t : Token) : Option Scan := do
  let s ← s.noteKey
  let s := { s with outerKeys := s.key :: s.outerKeys, key := none }
  return (s.allowKey true).indicator 1 t

def closeBracket (s : Scan) (t : Token) : Option Scan := do
  let s ← s.dropKey
  let s := match s.outerKeys with
    | key :: outerKeys => { s with key, outerKeys }
    | [] => s
  return (s.allowKey false).indicator 1 t

def comma (s : Scan) : Option Scan := do
  return ((← s.dropKey).allowKey true).indicator 1 .comma

/-- A dash. In a block it opens or goes on a sequence. -/
def entry (s : Scan) : Option Scan := do
  if !s.inFlow && !s.keyAllowed then none
  let s ← (s.openBlock s.cursor.column s.tokens.size .blockSequence).dropKey
  return (s.allowKey true).indicator 1 .entry

/-- A question mark, with which a key of any form begins. -/
def markedKey (s : Scan) : Option Scan := do
  if !s.inFlow && !s.keyAllowed then none
  let s ← (s.openBlock s.cursor.column s.tokens.size .blockMapping).dropKey
  return (s.allowKey !s.inFlow).indicator 1 .key

/-- A colon. What may have been a key before it is one. -/
def value (s : Scan) : Option Scan :=
  match s.key with
  | some k =>
    let s := (s.insert k.tokens .key).openBlock k.column k.tokens .blockMapping
    some (({ s with key := none }.allowKey false).indicator 1 .value)
  | none =>
    if !s.inFlow && !s.keyAllowed then none
    else
      let s := s.openBlock s.cursor.column s.tokens.size .blockMapping
      some ((s.allowKey !s.inFlow).indicator 1 .value)

def named (s : Scan) (token : String → Token) : Option Scan := do
  let s ← s.noteKey
  let (name, cursor) ← anchorName? s.cursor
  return { (s.allowKey false).push (token name) with cursor }

def tag (s : Scan) : Option Scan := do
  let s ← s.noteKey
  let (tag, cursor) ← Tag.read s.inFlow s.cursor
  return { (s.allowKey false).push (.tag tag) with cursor }

def block (s : Scan) (isFolded : Bool) : Option Scan := do
  let s ← s.dropKey
  let (text, cursor) ← Block.read isFolded s.blocks.head? (s.cursor.skip 1)
  let style := if isFolded then Style.folded else .literal
  return { (s.allowKey true).push (.scalar style text) with cursor }

def quoted (s : Scan) (single : Bool) : Option Scan := do
  let s ← s.noteKey
  let (text, cursor) ← Quoted.read single s.cursor
  let style := if single then Style.singleQuoted else .doubleQuoted
  return { (s.allowKey false).push (.scalar style text) with cursor }

/-- A plain scalar. If its line ends with it, a key may begin behind it. -/
def plain (s : Scan) : Option Scan := do
  let s ← s.noteKey
  let column := (s.blocks.head?.map (· + 1)).getD 0
  let (text, broken, cursor) ← Plain.read s.inFlow column s.cursor
  return { (s.allowKey broken).push (.scalar .plain text) with cursor }

/-- A character that no plain scalar begins with, or not without another behind it. -/
def isIndicator (ch : Char) : Bool :=
  "-?:,[]{}#&*!|>'\"%@\x60".toList.contains ch

/-- A plain scalar begins here. -/
def atPlain (s : Scan) (ch : Char) : Bool :=
  let c := s.cursor
  !(isGap ch || isIndicator ch) || (ch == '-' && !(c.ahead? 1).any isBlank) ||
    (!s.inFlow && (ch == '?' || ch == ':') && !c.gapAhead 1)

/-- Takes the token that begins with a character. -/
def token (s : Scan) (ch : Char) : Option Scan :=
  let c := s.cursor
  if c.column == 0 && ch == '%' then s.directive
  else if c.isAtMark '-' then s.documentMark .documentStart
  else if c.isAtMark '.' then s.documentMark .documentEnd
  else if ch == '[' then s.openBracket .flowSequence
  else if ch == '{' then s.openBracket .flowMapping
  else if ch == ']' then s.closeBracket .flowSequenceEnd
  else if ch == '}' then s.closeBracket .flowMappingEnd
  else if ch == ',' then s.comma
  else if ch == '-' && c.gapAhead 1 then s.entry
  else if ch == '?' && (s.inFlow || c.gapAhead 1) then s.markedKey
  else if ch == ':' && (s.inFlow || c.gapAhead 1) then s.value
  else if ch == '*' then s.named .alias
  else if ch == '&' then s.named .anchor
  else if ch == '!' then s.tag
  else if ch == '|' && !s.inFlow then s.block false
  else if ch == '>' && !s.inFlow then s.block true
  else if ch == '\'' then s.quoted true
  else if ch == '"' then s.quoted false
  else if s.atPlain ch then s.plain
  else none

/-- Takes one token after the other up to the end, where all blocks close. -/
def run : Nat → Scan → Option (Array Token)
  | 0, _ => none
  | fuel + 1, s => do
    let s ← s.pass.dropAllStale
    let s := s.closeBlocks (some s.cursor.column)
    match s.cursor.head? with
    | some ch => run fuel (← s.token ch)
    | none => return (← s.atMargin).tokens

end Scan

/-- The tokens of a text, if it falls into tokens. -/
def Token.ofText? (s : String) : Option (List Token) := do
  let cs ← normalize? s
  let tokens ← Scan.run (cs.length + 1) { cursor := { rest := cs } }
  return tokens.toList

end ModelRelay.Yaml
