import ModelRelay.Yaml.Token

/-!
# Events of a YAML document

The tokens of a document say in order what is in it: collections open and close, and scalars and
aliases stand in them. What may come next is a stack of goals; a goal looks at the tokens, and is
replaced by the goals that it comes down to. What is left out where a node could stand is a plain
scalar without text.
-/

set_option autoImplicit false

namespace ModelRelay.Yaml

inductive Event where
  | scalar (anchor tag : Option String) (style : Style) (text : String)
  | openSequence (anchor : Option String)
  | openMapping (anchor : Option String)
  | close
  | alias (name : String)
deriving DecidableEq, Repr

namespace Event

/-- A node that is left out. -/
def omitted : Event :=
  .scalar none none .plain ""

/-- What handles stand for. -/
abbrev Handles := List (String × String)

/-- The handles that need no directive. -/
def commonHandles : Handles :=
  [("!", "!"), ("!!", "tag:yaml.org,2002:")]

/-- A tag in full, if its handle stands for anything. -/
def fullTag? (handles : Handles) (t : Tag) : Option String :=
  if t.handle.isEmpty then some t.suffix
  else (handles.lookup t.handle).map (· ++ t.suffix)

/-- What may come next. -/
inductive Goal where
  /-- A node; one made of indented lines only where that is said. In the place of a key's value a
  sequence need not be indented. -/
  | node (block unindented : Bool)
  | blockItem
  | unindentedItem
  | blockKey
  | blockValue
  | flowItem (isFirst : Bool)
  /-- A pair that stands as an item: its key, its value, and its end. -/
  | pairKey
  | pairValue
  | pairEnd
  | flowKey (isFirst : Bool)
  | flowValue
  | missingValue
deriving DecidableEq, Repr

/-- What a goal comes down to: further goals, events, and the tokens that are left. -/
structure Reduction where
  goals : List Goal := []
  events : List Event := []
  tokens : List Token

/-- The first token is one of some. -/
def startsWith (choices : List Token) (tokens : List Token) : Bool :=
  tokens.head?.any choices.contains

/-- Reads the anchor and the tag of a node, in either order. -/
def properties (handles : Handles) (tokens : List Token) :
    Option (Option String × Option String × List Token) :=
  match tokens with
  | .anchor name :: .tag t :: rest =>
    (fullTag? handles t).map fun tag => (some name, some tag, rest)
  | .tag t :: .anchor name :: rest =>
    (fullTag? handles t).map fun tag => (some name, some tag, rest)
  | .anchor name :: rest => some (some name, none, rest)
  | .tag t :: rest => (fullTag? handles t).map fun tag => (none, some tag, rest)
  | tokens => some (none, none, tokens)

/-- A node with its properties. -/
def reduceNode (handles : Handles) (block unindented : Bool) (tokens : List Token) :
    Option Reduction :=
  match tokens with
  | .alias name :: rest => some { events := [.alias name], tokens := rest }
  | tokens => do
    let (anchor, tag, tokens) ← properties handles tokens
    match tokens with
    | .scalar style text :: rest =>
      return { events := [.scalar anchor tag style text], tokens := rest }
    | .flowSequence :: rest =>
      return { goals := [.flowItem true], events := [.openSequence anchor], tokens := rest }
    | .flowMapping :: rest =>
      return { goals := [.flowKey true], events := [.openMapping anchor], tokens := rest }
    | tokens =>
      let empty : Option Reduction :=
        if anchor.isSome || tag.isSome then
          some { events := [.scalar anchor tag .plain ""], tokens }
        else none
      match tokens with
      | .entry :: _ =>
        if unindented then
          return { goals := [.unindentedItem], events := [.openSequence anchor], tokens }
        else empty
      | .blockSequence :: rest =>
        if block then
          return { goals := [.blockItem], events := [.openSequence anchor], tokens := rest }
        else empty
      | .blockMapping :: rest =>
        if block then
          return { goals := [.blockKey], events := [.openMapping anchor], tokens := rest }
        else empty
      | _ => empty

/-- A node before some other goal, or none if one of some tokens shows that it is left out. -/
def nodeOr (node next : Goal) (ends : List Token) (tokens : List Token) : Reduction :=
  if startsWith ends tokens then { goals := [next], events := [.omitted], tokens }
  else { goals := [node, next], tokens }

def blockEnds : List Token := [.key, .value, .blockEnd]

/-- The tokens behind the comma that stands before all items but the first. -/
def behindComma (isFirst : Bool) (tokens : List Token) : Option (List Token) :=
  if isFirst then some tokens
  else match tokens with
    | .comma :: rest => some rest
    | _ => none

/-- What a goal comes down to, if the tokens allow it. -/
def reduce (handles : Handles) (goal : Goal) (tokens : List Token) : Option Reduction :=
  match goal, tokens with
  | .node block unindented, tokens => reduceNode handles block unindented tokens
  | .blockItem, .entry :: rest =>
    some (nodeOr (.node true false) .blockItem [.entry, .blockEnd] rest)
  | .blockItem, .blockEnd :: rest => some { events := [.close], tokens := rest }
  | .blockItem, _ => none
  | .unindentedItem, .entry :: rest =>
    some (nodeOr (.node true false) .unindentedItem (.entry :: blockEnds) rest)
  | .unindentedItem, tokens => some { events := [.close], tokens }
  | .blockKey, .key :: rest => some (nodeOr (.node true true) .blockValue blockEnds rest)
  | .blockKey, .blockEnd :: rest => some { events := [.close], tokens := rest }
  | .blockKey, _ => none
  | .blockValue, .value :: rest => some (nodeOr (.node true true) .blockKey blockEnds rest)
  | .blockValue, tokens => some { goals := [.blockKey], events := [.omitted], tokens }
  | .flowItem _, .flowSequenceEnd :: rest => some { events := [.close], tokens := rest }
  | .flowItem isFirst, tokens => do
    match ← behindComma isFirst tokens with
    | .key :: rest =>
      return { goals := [.pairKey, .flowItem false], events := [.openMapping none], tokens := rest }
    | .flowSequenceEnd :: rest => return { events := [.close], tokens := rest }
    | tokens => return { goals := [.node false false, .flowItem false], tokens }
  | .pairKey, tokens =>
    if startsWith [.value, .comma, .flowSequenceEnd] tokens then
      some { goals := [.pairValue], events := [.omitted], tokens := tokens.drop 1 }
    else some { goals := [.node false false, .pairValue], tokens }
  | .pairValue, .value :: rest =>
    some (nodeOr (.node false false) .pairEnd [.comma, .flowSequenceEnd] rest)
  | .pairValue, tokens => some { goals := [.pairEnd], events := [.omitted], tokens }
  | .pairEnd, tokens => some { events := [.close], tokens }
  | .flowKey _, .flowMappingEnd :: rest => some { events := [.close], tokens := rest }
  | .flowKey isFirst, tokens => do
    match ← behindComma isFirst tokens with
    | .key :: rest =>
      return nodeOr (.node false false) .flowValue [.value, .comma, .flowMappingEnd] rest
    | .flowMappingEnd :: rest => return { events := [.close], tokens := rest }
    | tokens => return { goals := [.node false false, .missingValue], tokens }
  | .flowValue, .value :: rest =>
    some (nodeOr (.node false false) (.flowKey false) [.comma, .flowMappingEnd] rest)
  | .flowValue, tokens => some { goals := [.flowKey false], events := [.omitted], tokens }
  | .missingValue, tokens => some { goals := [.flowKey false], events := [.omitted], tokens }

/-- Reaches goals one after the other. `events` are those so far, reversed. -/
def reach (handles : Handles) (events : List Event) :
    Nat → List Goal → List Token → Option (List Event × List Token)
  | 0, _, _ => none
  | _, [], tokens => some (events, tokens)
  | fuel + 1, goal :: goals, tokens => do
    let r ← reduce handles goal tokens
    reach handles (r.events.reverse ++ events) fuel (r.goals ++ goals) r.tokens

/-! ## Documents -/

/-- What the directives before a document say. -/
structure Prologue where
  hasVersion : Bool := false
  handles : Handles := []

/-- Takes in a directive. Only versions 1.1 and 1.2 are known, and nothing is said twice. -/
def Prologue.add (p : Prologue) : Directive → Option Prologue
  | .version major minor =>
    if p.hasVersion || major != 1 || (minor != 1 && minor != 2) then none
    else some { p with hasVersion := true }
  | .handle handle start =>
    if (p.handles.lookup handle).isSome then none
    else some { p with handles := p.handles ++ [(handle, start)] }

/-- Reads the directives before a document and the mark of its start, which they need. -/
def prologue (p : Prologue) : List Token → Option (Prologue × List Token)
  | .directive d :: rest => (p.add d).bind fun p => prologue p rest
  | .documentStart :: rest => some (p, rest)
  | _ => none

/-- Nothing stands between the marks of a document. -/
def isBare : List Token → Bool
  | [] => true
  | .directive _ :: _ | .documentStart :: _ | .documentEnd :: _ => true
  | _ => false

/-- The events of a text's only document; of a text without one there are none. -/
def ofTokens? (tokens : List Token) : Option (List Event) := do
  if tokens.isEmpty then return []
  let fuel := 6 * tokens.length + 6
  let (events, rest) ←
    match tokens with
    | .directive _ :: _ | .documentStart :: _ => do
      let (p, rest) ← prologue {} tokens
      if isBare rest then pure ([omitted], rest)
      else reach (p.handles ++ commonHandles) [] fuel [.node true false] rest
    | tokens => reach commonHandles [] fuel [.node true false] tokens
  if (rest.dropWhile (· == .documentEnd)).isEmpty then return events.reverse
  none

end Event

end ModelRelay.Yaml
