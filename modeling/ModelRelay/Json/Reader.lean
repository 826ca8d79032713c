import ModelRelay.Json.Numeral
import ModelRelay.Json.Reading
import ModelRelay.Text.Utf8

/-!
# Reading JSON text

`Draft.ofBytes` reads bytes by the JSON grammar, nothing more lenient: no comments, no trailing
commas, no leading zeros. A scanner returns what it read and what is left, or no rest at all once
the text has stopped being JSON; then nothing behind that place is looked at.
-/

set_option autoImplicit false

namespace ModelRelay.Json.Reader

/-- What a scanner leaves; nothing once the text is cut. -/
abbrev Rest := Option (List UInt8)

def isSpace (b : UInt8) : Bool :=
  b == 0x20 || b == 0x09 || b == 0x0A || b == 0x0D

def skipSpace (s : List UInt8) : List UInt8 :=
  s.dropWhile isSpace

def isDigit (b : UInt8) : Bool :=
  0x30 ≤ b && b ≤ 0x39

/-- The digits at the head, and the rest. -/
def spanDigits (s : List UInt8) : List Nat × List UInt8 :=
  ((s.takeWhile isDigit).map (fun b => b.toNat - 0x30), s.dropWhile isDigit)

/-- A point and at least one digit; `none` if the digit is missing. -/
def fraction? : List UInt8 → Option (List Nat × List UInt8)
  | 0x2E :: s =>
    match spanDigits s with
    | ([], _) => none
    | (digits, s) => some (digits, s)
  | s => some ([], s)

/-- An exponent: its sign and at least one digit; `none` if the digit is missing. -/
def exponent? (s : List UInt8) : Option (Option (Bool × List Nat) × List UInt8) :=
  match s with
  | b :: s' =>
    if b == 0x65 || b == 0x45 then
      let (below, digits) := match s' with
        | 0x2B :: t => (false, spanDigits t)
        | 0x2D :: t => (true, spanDigits t)
        | t => (false, spanDigits t)
      match digits with
      | ([], _) => none
      | (ds, t) => some (some (below, ds), t)
    else some (none, s)
  | [] => some (none, [])

/-- A numeral behind its sign. -/
def numeral? (negative : Bool) (s : List UInt8) : Option (Numeral × List UInt8) :=
  match spanDigits s with
  | ([], _) => none
  | (0 :: _ :: _, _) => none
  | (whole, s) =>
    match fraction? s with
    | none => none
    | some (fraction, s) =>
      match exponent? s with
      | none => none
      | some (exponent, s) => some (⟨negative, whole, fraction, exponent⟩, s)

/-- The value of a hexadecimal digit. -/
def hexValue? (b : UInt8) : Option Nat :=
  if 0x30 ≤ b && b ≤ 0x39 then some (b.toNat - 0x30)
  else if 0x61 ≤ b && b ≤ 0x66 then some (b.toNat - 0x61 + 10)
  else if 0x41 ≤ b && b ≤ 0x46 then some (b.toNat - 0x41 + 10)
  else none

/-- Four hexadecimal digits. -/
def unit? : List UInt8 → Option (Nat × List UInt8)
  | a :: b :: c :: d :: rest => do
    let a ← hexValue? a
    let b ← hexValue? b
    let c ← hexValue? c
    let d ← hexValue? d
    return (((a * 16 + b) * 16 + c) * 16 + d, rest)
  | _ => none

/-- What an escape behind its backslash stands for: a character, or half of a surrogate pair without
its partner. `none` if it is no escape. -/
def escape? : List UInt8 → Option (Option Char × List UInt8)
  | [] => none
  | b :: rest =>
    if b == 0x22 then some (some '"', rest)
    else if b == 0x5C then some (some '\\', rest)
    else if b == 0x2F then some (some '/', rest)
    else if b == 0x62 then some (some '\x08', rest)
    else if b == 0x66 then some (some '\x0c', rest)
    else if b == 0x6E then some (some '\n', rest)
    else if b == 0x72 then some (some '\r', rest)
    else if b == 0x74 then some (some '\t', rest)
    else if b == 0x75 then
      match unit? rest with
      | none => none
      | some (high, rest) =>
        if high < 0xD800 || 0xDFFF < high then some (some (Char.ofNat high), rest)
        else if 0xDC00 ≤ high then some (none, rest)
        else match rest with
          | 0x5C :: 0x75 :: more =>
            match unit? more with
            | none => none
            | some (low, more) =>
              if 0xDC00 ≤ low && low ≤ 0xDFFF then
                some (some (Char.ofNat (0x10000 + (high - 0xD800) * 0x400 + (low - 0xDC00))), more)
              else some (none, rest)
          | _ => some (none, rest)
    else none

/-- The characters of a string up to its closing quotation mark, in front of `read`, which holds
those already read, the last one first. The text is `none` once something in the string was none.
Every step takes a byte, so the length of the input is fuel enough. -/
def stringTail (read : Option (List Char)) : Nat → List UInt8 → Option String × Rest
  | 0, _ => (none, none)
  | fuel + 1, s =>
    match s with
    | [] => (none, none)
    | b :: rest =>
      if b == 0x22 then (read.map fun cs => String.ofList cs.reverse, some rest)
      else if b == 0x5C then
        match escape? rest with
        | none => (none, none)
        | some (c, rest) =>
          stringTail (match read, c with
            | some cs, some c => some (c :: cs)
            | _, _ => none) fuel rest
      else if b < 0x20 then (none, none)
      else match Utf8.next s with
        | .done => (none, none)
        | .char c rest => stringTail (read.map (c :: ·)) fuel rest
        | .broken rest => stringTail none fuel rest

/-- Takes a word off the head. -/
def word? (w : List UInt8) (s : List UInt8) : Option (List UInt8) :=
  if w.isPrefixOf s then some (s.drop w.length) else none

/-- A literal word that reads as a value. -/
def literal (w : List UInt8) (value : Reading) (s : List UInt8) : Reading × Rest :=
  match word? w s with
  | some rest => (value, some rest)
  | none => (.cut, none)

def number (negative : Bool) (s : List UInt8) : Reading × Rest :=
  match numeral? negative s with
  | some (n, rest) => (.number n.toNumber?, some rest)
  | none => (.cut, none)

/-- Marks an array or object inside as many others as may be nested. -/
def atDepth (room : Nat) (value : Reading) : Reading :=
  if room = 0 then .deep value else value

mutual

/-- A value behind blanks; `room` more arrays and objects may be nested. -/
def value (room : Nat) : Nat → List UInt8 → Reading × Rest
  | 0, _ => (.cut, none)
  | fuel + 1, s =>
    match skipSpace s with
    | [] => (.cut, none)
    | b :: rest =>
      if b == 0x7B then
        let (members, rest) :=
          match skipSpace rest with
          | 0x7D :: rest => ([], some rest)
          | rest => members (room - 1) [] fuel rest
        (atDepth room (.object members), rest)
      else if b == 0x5B then
        let (items, rest) :=
          match skipSpace rest with
          | 0x5D :: rest => ([], some rest)
          | rest => items (room - 1) [] fuel rest
        (atDepth room (.array items), rest)
      else if b == 0x22 then
        match stringTail (some []) fuel rest with
        | (_, none) => (.cut, none)
        | (s, some rest) => (.string s, some rest)
      else if b == 0x2D then number true rest
      else if isDigit b then number false (b :: rest)
      else if b == 0x74 then literal [0x72, 0x75, 0x65] (.bool true) rest
      else if b == 0x66 then literal [0x61, 0x6C, 0x73, 0x65] (.bool false) rest
      else if b == 0x6E then literal [0x75, 0x6C, 0x6C] .null rest
      else (.cut, none)

/-- The items of an array behind its bracket or a comma, behind those already read. -/
def items (room : Nat) (read : List Reading) : Nat → List UInt8 → List Reading × Rest
  | 0, _ => ((Reading.cut :: read).reverse, none)
  | fuel + 1, s =>
    match value room fuel s with
    | (item, none) => ((item :: read).reverse, none)
    | (item, some rest) =>
      match skipSpace rest with
      | 0x2C :: rest => items room (item :: read) fuel rest
      | 0x5D :: rest => ((item :: read).reverse, some rest)
      | _ => ((Reading.cut :: item :: read).reverse, none)

/-- The members of an object behind its bracket or a comma, behind those already read. -/
def members (room : Nat) (read : List (Option String × Reading)) :
    Nat → List UInt8 → List (Option String × Reading) × Rest
  | 0, _ => (((none, .cut) :: read).reverse, none)
  | fuel + 1, s =>
    match skipSpace s with
    | 0x22 :: rest =>
      match stringTail (some []) fuel rest with
      | (_, none) => (((none, .cut) :: read).reverse, none)
      | (name, some rest) =>
        match skipSpace rest with
        | 0x3A :: rest =>
          match value room fuel rest with
          | (held, none) => (((name, held) :: read).reverse, none)
          | (held, some rest) =>
            match skipSpace rest with
            | 0x2C :: rest => members room ((name, held) :: read) fuel rest
            | 0x7D :: rest => (((name, held) :: read).reverse, some rest)
            | _ => (((none, .cut) :: (name, held) :: read).reverse, none)
        | _ => (((name, .cut) :: read).reverse, none)
    | _ => (((none, .cut) :: read).reverse, none)

end

end ModelRelay.Json.Reader

namespace ModelRelay

/-- At most this many arrays and objects may be nested. -/
def Draft.depth : Nat := 127

/-- Reads bytes as a JSON text. -/
def Draft.ofBytes (s : List UInt8) : Draft :=
  match Json.Reader.value Draft.depth (s.length + 1) s with
  | (root, none) => ⟨root, false⟩
  | (root, some rest) => ⟨root, (Json.Reader.skipSpace rest).isEmpty⟩

/-- Reads a text as a JSON text. -/
def Draft.ofText (s : String) : Draft :=
  Draft.ofBytes s.toUTF8.data.toList

/-- The value that bytes spell, if they are JSON. -/
def Json.ofBytes? (s : List UInt8) : Option Json :=
  let draft := Draft.ofBytes s
  if draft.ends then draft.root.toJson? else none

/-- The value that a text spells, if it is JSON. -/
def Json.ofText? (s : String) : Option Json :=
  Json.ofBytes? s.toUTF8.data.toList

end ModelRelay
