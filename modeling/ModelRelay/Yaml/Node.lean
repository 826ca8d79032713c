import ModelRelay.Yaml.Event

/-!
# YAML documents

A document is a tree of nodes. An alias stands for the node that an anchor marks, and is looked up
only when somebody asks for that node; so a node may hold an alias to itself. Anchors are counted by
the names that are known when they come: a name that is used again takes the next number, which the
next new name takes too.
-/

set_option autoImplicit false

namespace ModelRelay.Yaml

inductive Node where
  | scalar (tag : Option String) (style : Style) (text : String)
  | sequence (items : List Node)
  | mapping (members : List (Node × Node))
  | alias (anchor : Nat)
deriving Repr

structure Document where
  root : Node
  /-- The nodes with anchors: the anchor's number, where the node begins, and the node. -/
  anchored : List (Nat × Nat × Node) := []
deriving Repr

/-- A document without content. -/
def Document.empty : Document :=
  { root := .scalar none .plain "" }

namespace Document

/-- A collection that is still open. -/
structure Open where
  isMapping : Bool
  anchor : Option Nat
  /-- Where it begins. -/
  start : Nat
  /-- Its nodes so far, reversed; of a mapping, keys and values in turn. -/
  nodes : List Node := []

/-- A document in the making. -/
structure Draft where
  /-- The known names and their numbers, the newest first. -/
  names : List (String × Nat) := []
  collections : List Open := []
  anchored : List (Nat × Nat × Node) := []
  root : Option Node := none
  /-- How many events have been taken in. -/
  count : Nat := 0

def Draft.known (d : Draft) : Nat :=
  (d.names.map Prod.fst).eraseDups.length

/-- Gives an anchor its number. -/
def Draft.name (d : Draft) (anchor : Option String) : Option Nat × Draft :=
  match anchor with
  | some name => (some d.known, { d with names := (name, d.known) :: d.names })
  | none => (none, d)

/-- Puts a finished node where it belongs. -/
def Draft.put (d : Draft) (anchor : Option Nat) (start : Nat) (node : Node) : Draft :=
  let anchored := match anchor with
    | some number => (number, start, node) :: d.anchored
    | none => d.anchored
  match d.collections with
  | c :: outer => { d with anchored, collections := { c with nodes := node :: c.nodes } :: outer }
  | [] => { d with anchored, root := some node }

def pairs : List Node → List (Node × Node)
  | key :: value :: rest => (key, value) :: pairs rest
  | _ => []

/-- The node that a closed collection is. -/
def Open.close (c : Open) : Node :=
  if c.isMapping then .mapping (pairs c.nodes.reverse) else .sequence c.nodes.reverse

/-- Takes in an event. An alias needs a known name. -/
def Draft.add (d : Draft) (e : Event) : Option Draft :=
  let next : Draft := { d with count := d.count + 1 }
  match e with
  | .scalar anchor tag style text =>
    let (anchor, next) := next.name anchor
    some (next.put anchor d.count (.scalar tag style text))
  | .openSequence anchor =>
    let (anchor, next) := next.name anchor
    some { next with collections := ⟨false, anchor, d.count, []⟩ :: next.collections }
  | .openMapping anchor =>
    let (anchor, next) := next.name anchor
    some { next with collections := ⟨true, anchor, d.count, []⟩ :: next.collections }
  | .close =>
    match next.collections with
    | c :: outer => some ({ next with collections := outer }.put c.anchor c.start c.close)
    | [] => none
  | .alias name =>
    (next.names.lookup name).map fun number => next.put none d.count (.alias number)

def ofEvents? (events : List Event) : Option Document :=
  if events.isEmpty then some .empty
  else do
    let d ← events.foldlM Draft.add {}
    return ⟨← d.root, d.anchored⟩

/-- Reads a text as one document. -/
def ofText? (s : String) : Option Document := do
  ofEvents? (← Event.ofTokens? (← Token.ofText? s))

/-- The later of two nodes. -/
def later (a b : Nat × Nat × Node) : Nat × Nat × Node :=
  if a.2.1 < b.2.1 then b else a

/-- The node that a node stands for: of the nodes with an alias's number, the one that begins
last. -/
def target (d : Document) : Node → Node
  | .alias number =>
    match d.anchored.filter (·.1 == number) with
    | first :: rest => (rest.foldl later first).2.2
    | [] => .alias number
  | node => node

end Document

end ModelRelay.Yaml
