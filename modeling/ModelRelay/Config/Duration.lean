import ModelRelay.Text.Blank

/-!
# Times as people write them

A time is a sum of amounts, each a number and a unit: `1h 30min`. A number may have a fraction, and
blanks may stand anywhere but inside a unit. All amounts are counted in words of 64 bits, so a time
that is too great for them is none.
-/

set_option autoImplicit false

namespace ModelRelay.Config.Duration

/-- The nanoseconds of a second. -/
def second : Nat := 1000000000

/-- What an amount in some unit is counted in. -/
structure Scale where
  /-- The unit is this many seconds, or this many nanoseconds. -/
  factor : Nat
  inSeconds : Bool
  /-- The factor for a fraction of the unit, if it may have one. -/
  fraction : Option (Nat × Bool)
deriving Repr

/-- A unit below a minute, in nanoseconds; seconds themselves are counted whole. -/
def small (nanoseconds : Nat) : Scale :=
  ⟨nanoseconds, false, if nanoseconds = 1 then none else some (nanoseconds, false)⟩

/-- A unit of an hour or more. Its fraction is cut off to seconds. -/
def large (seconds : Nat) : Scale :=
  ⟨seconds, true, some (seconds, true)⟩

/-- The units by their names. A month and a year have their mean length. -/
def units : List (List String × Scale) :=
  [(["nanos", "nsec", "ns"], small 1),
   (["usec", "us", "µs"], small 1000),
   (["millis", "msec", "ms"], small 1000000),
   (["seconds", "second", "secs", "sec", "s"], ⟨1, true, some (second, false)⟩),
   (["minutes", "minute", "min", "mins", "m"], ⟨60, true, some (60 * second, false)⟩),
   (["hours", "hour", "hrs", "hr", "h"], large 3600),
   (["days", "day", "d"], large 86400),
   (["weeks", "week", "wks", "wk", "w"], large (7 * 86400)),
   (["months", "month", "M"], large 2630016),
   (["years", "year", "yrs", "yr", "y"], large 31557600)]

def scaleOf? (unit : String) : Option Scale :=
  (units.find? fun (names, _) => names.contains unit).map Prod.snd

/-- A number that fits into a word. -/
def word? (n : Nat) : Option Nat :=
  if n < 0x10000000000000000 then some n else none

/-- Adds an amount to a time in nanoseconds. -/
def add? (total amount : Nat) (inSeconds : Bool) : Option Nat := do
  let amount ← word? amount
  let nanoseconds ← if inSeconds then some (amount * second) else do
    let _ ← word? (total % second + amount)
    some amount
  let total := total + nanoseconds
  let _ ← word? (total / second)
  return total

/-- A fraction, as a numerator over a power of ten. -/
structure Fraction where
  numerator : Nat := 0
  denominator : Nat := 1

/-- Adds so many of a unit, and a fraction of it, to a time. -/
def addUnit? (total n : Nat) (fraction : Option Fraction) (unit : String) : Option Nat := do
  let scale ← scaleOf? unit
  let total ← add? total (n * scale.factor) scale.inSeconds
  match fraction with
  | none => return total
  | some f =>
    let (factor, inSeconds) ← scale.fraction
    let product ← word? (f.numerator * factor)
    add? total (product / f.denominator) inSeconds

/-- A character of a unit. -/
def isUnitChar (c : Char) : Bool :=
  c.isAlpha || c == 'µ'

def digit (c : Char) : Nat :=
  c.toNat - '0'.toNat

/-- Reads a fraction up to its unit. It has a digit at least. -/
def fraction? (f : Fraction) : List Char → Option (Fraction × List Char)
  | [] => if f.denominator = 1 then none else some (f, [])
  | c :: rest =>
    if c.isDigit then do
      let numerator ← word? (f.numerator * 10 + digit c)
      let denominator ← word? (f.denominator * 10)
      fraction? ⟨numerator, denominator⟩ rest
    else if Text.isBlank c then fraction? f rest
    else if isUnitChar c then if f.denominator = 1 then none else some (f, c :: rest)
    else none

/-- Reads a number up to its unit. -/
def number? (n : Nat) : List Char → Option (Nat × Option Fraction × List Char)
  | [] => some (n, none, [])
  | c :: rest =>
    if c.isDigit then (word? (n * 10 + digit c)).bind fun n => number? n rest
    else if Text.isBlank c then number? n rest
    else if isUnitChar c then some (n, none, c :: rest)
    else if c == '.' then (fraction? {} rest).map fun (f, rest) => (n, some f, rest)
    else none

/-- Adds amounts up to the end; `fuel` is a number of characters. -/
def sumFrom (total : Nat) : Nat → List Char → Option Nat
  | 0, _ => none
  | fuel + 1, s =>
    match s.dropWhile Text.isBlank with
    | [] => some total
    | c :: rest =>
      if c.isDigit then do
        let (n, fraction, rest) ← number? (digit c) rest
        let unit := rest.takeWhile isUnitChar
        let behind := rest.dropWhile isUnitChar
        let total ← addUnit? total n fraction (String.ofList unit)
        sumFrom total fuel behind
      else none

/-- The nanoseconds that a text names. A bare zero needs no unit. -/
def ofText? (s : String) : Option Nat :=
  if s = "0" then some 0
  else if Text.isBlankText s then none
  else sumFrom 0 (s.length + 1) s.toList

end ModelRelay.Config.Duration
