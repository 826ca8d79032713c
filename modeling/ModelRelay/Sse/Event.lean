import ModelRelay.Text.Utf8

/-!
# Server-sent events

Reading the text of an event stream. A line ends with LF, CRLF or CR; a CR at the very end may
still be the first half of a CRLF, so it ends nothing. A line is a field, a comment, or empty, and
an empty line dispatches the event that the fields before it describe, if one of them was `data`.
What follows the last empty line is no event. Bytes that are no text end the stream with a failure
once everything before them has been read.
-/

set_option autoImplicit false

namespace ModelRelay.Sse

/-- An event: its name and its data, lines joined by LF. -/
structure Event where
  name : String
  data : String
deriving DecidableEq, Repr

namespace Event

/-- Cuts a text into its finished lines; `line` holds the current one, last character first. -/
def linesFrom (lines : List (List Char)) (line : List Char) : List Char → List (List Char)
  | [] => lines.reverse
  | ['\r'] => lines.reverse
  | '\r' :: '\n' :: rest => linesFrom (line.reverse :: lines) [] rest
  | '\r' :: rest => linesFrom (line.reverse :: lines) [] rest
  | '\n' :: rest => linesFrom (line.reverse :: lines) [] rest
  | c :: rest => linesFrom lines (c :: line) rest

/-- The finished lines of a text. -/
def lines (s : List Char) : List (List Char) :=
  linesFrom [] [] s

/-- A field of a line: its name and its value less one space behind the colon. -/
def field (line : List Char) : List Char × List Char :=
  let name := line.takeWhile (· != ':')
  match line.drop name.length with
  | ':' :: ' ' :: value => (name, value)
  | ':' :: value => (name, value)
  | _ => (name, [])

/-- The fields of an event so far: the name, and the lines of data, the last one first. -/
structure Draft where
  name : List Char := []
  data : List (List Char) := []

/-- The text that lines of data make up. -/
def joinLines : List (List Char) → List Char
  | [] => []
  | [line] => line
  | line :: rest => line ++ '\n' :: joinLines rest

/-- The event of a draft. Without a line of data there is none; without a name it is a message. -/
def Draft.finish? (d : Draft) : Option Event :=
  if d.data.isEmpty then none
  else some
    { name := if d.name.isEmpty then "message" else String.ofList d.name
      data := String.ofList (joinLines d.data.reverse) }

/-- Adds a line that is not empty. A line that begins with a colon is a comment. -/
def Draft.add (d : Draft) (line : List Char) : Draft :=
  match field line with
  | (['e', 'v', 'e', 'n', 't'], value) => { d with name := value }
  | (['d', 'a', 't', 'a'], value) => { d with data := value :: d.data }
  | _ => d

/-- The events that lines describe, behind those already read. -/
def ofLinesFrom (events : List Event) (d : Draft) : List (List Char) → List Event
  | [] => events.reverse
  | [] :: rest =>
    match d.finish? with
    | some event => ofLinesFrom (event :: events) {} rest
    | none => ofLinesFrom events {} rest
  | line :: rest => ofLinesFrom events (d.add line) rest

/-- The events of a text. A byte order mark in front is passed over. -/
def ofChars (s : List Char) : List Event :=
  let s := match s with
    | '\uFEFF' :: rest => rest
    | s => s
  ofLinesFrom [] {} (lines s)

/-- The events of some bytes, and whether the bytes were text up to their end. -/
def ofBytes (s : List UInt8) : List Event × Bool :=
  let (text, whole) := Utf8.longestText s
  (ofChars text, whole)

end Event

end ModelRelay.Sse
