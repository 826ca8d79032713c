import ModelRelay.Text.Blank

/-!
# Log filters

A filter is a list of directives with commas between them. A directive gives a level, for
everything or for what comes from one target, which may be narrowed to spans in brackets. A word
that is no level is a target, of which everything is kept.
-/

set_option autoImplicit false

namespace ModelRelay

inductive LogLevel where
  | off
  | error
  | warn
  | info
  | debug
  | trace
deriving DecidableEq, Repr

namespace LogLevel

/-- The levels from least to most, which are also counted from zero. -/
def all : List (String × LogLevel) :=
  [("off", off), ("error", error), ("warn", warn), ("info", info), ("debug", debug),
   ("trace", trace)]

/-- The number that digits spell, with a plus before them if one likes. -/
def number? (s : List Char) : Option Nat :=
  let digits := match s with
    | '+' :: rest => rest
    | s => s
  if digits.isEmpty || !digits.all Char.isDigit then none
  else some (digits.foldl (fun n d => n * 10 + (d.toNat - '0'.toNat)) 0)

/-- A level by its number, or by its name in any case. -/
def ofText? (s : List Char) : Option LogLevel :=
  match number? s with
  | some n => all[n]?.map Prod.snd
  | none => all.lookup (String.ofList (s.map Char.toLower))

end LogLevel

/-- What is kept of what comes from a target, or of everything. -/
structure LogDirective where
  target : Option String := none
  /-- The spans that it is about, with their fields. -/
  span : Option String := none
  level : LogLevel := .trace
deriving DecidableEq, Repr

namespace LogDirective

/-- A character that a target begins with. -/
def isTargetStart (c : Char) : Bool :=
  c.isAlphanum || c == '-' || c == ':' || c == '_' || 128 ≤ c.toNat

/-- Reads the level behind an equals sign. A missing one keeps errors. No blanks may stand around a
directive that has a level of its own. -/
def withLevel? (isTrimmed : Bool) (d : LogDirective) (s : List Char) : Option LogDirective :=
  if !isTrimmed then none
  else if s.isEmpty then some { d with level := .error }
  else (LogLevel.ofText? s).map fun level => { d with level }

/-- Reads what follows a span. -/
def behindSpan? (isTrimmed : Bool) (d : LogDirective) : List Char → Option LogDirective
  | [] => some d
  | '=' :: level => withLevel? isTrimmed d level
  | _ => none

/-- Reads a span, behind its opening bracket. Its fields stand in braces, and are some. -/
def spanned? (isTrimmed : Bool) (d : LogDirective) (s : List Char) : Option LogDirective :=
  let name := s.takeWhile fun c => c != ']' && c != '\x7b'
  let d := { d with span := some (String.ofList name) }
  match s.drop name.length with
  | ']' :: rest => behindSpan? isTrimmed d rest
  | '\x7b' :: rest =>
    match rest.takeWhile (· != '\x7d'), rest.dropWhile (· != '\x7d') with
    | _ :: _, '\x7d' :: ']' :: rest => behindSpan? isTrimmed d rest
    | _, _ => none
  | _ => none

/-- Reads a directive. -/
def ofText? (s : List Char) : Option LogDirective :=
  let trimmed := Text.trimChars s
  let isTrimmed := trimmed.length == s.length
  match trimmed with
  | [] => none
  | '[' :: rest => spanned? isTrimmed {} rest
  | c :: _ =>
    if !isTargetStart c then none
    else
      let word := trimmed.takeWhile fun c => c != '=' && c != '['
      let named : LogDirective := { target := some (String.ofList word) }
      match trimmed.drop word.length with
      | '=' :: level => withLevel? isTrimmed named level
      | '[' :: rest => spanned? isTrimmed named rest
      | _ =>
        match LogLevel.ofText? s with
        | some level => some { level }
        | none => some { target := some (String.ofList s) }

end LogDirective

abbrev LogFilter := List LogDirective

namespace LogFilter

/-- The pieces of a text between commas. -/
def piecesFrom (piece : List Char) : List Char → List (List Char)
  | [] => [piece.reverse]
  | ',' :: rest => piece.reverse :: piecesFrom [] rest
  | c :: rest => piecesFrom (c :: piece) rest

/-- Reads a filter. Empty pieces count for nothing. -/
def ofText? (s : String) : Option LogFilter :=
  ((piecesFrom [] s.toList).filter (!·.isEmpty)).mapM LogDirective.ofText?

/-- The variable that is asked before the configured level. -/
def variableName : String := "RUST_LOG"

/-- The filter in force: that of the environment if it can be read, else the configured one. -/
def inForce? (env : String → Option String) (level : String) : Option LogFilter :=
  ((env variableName).bind ofText?).or (ofText? level)

end LogFilter

end ModelRelay
