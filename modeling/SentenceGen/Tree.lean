import SentenceGen.Datum.Access
import SentenceGen.Fault.Message

/-!
# Derivation trees

The record of every choice of one generation.  Nodes stand in an arena and name each other by their
places in it; a parent lists its children in the order in which they were added.
-/

namespace SentenceGen

abbrev NodeId := Nat

/-- What a node records the application of. -/
inductive NodeKind where
  | literal
  | sequence
  | alternative
  | optional
  | repetition
  | nonTerminal
  | character
  deriving DecidableEq, Repr

namespace NodeKind

def name : NodeKind → String
  | .literal => "literal"
  | .sequence => "sequence"
  | .alternative => "alternative"
  | .optional => "optional"
  | .repetition => "repetition"
  | .nonTerminal => "non_terminal"
  | .character => "character"

def all : List NodeKind :=
  [.literal, .sequence, .alternative, .optional, .repetition, .nonTerminal, .character]

def ofName? (name : String) : Option NodeKind := all.find? fun kind => kind.name == name

def ofDatum (d : Datum) : Except Fault NodeKind :=
  match d.str?.bind ofName? with
  | some kind => .ok kind
  | none => .error (Fault.unknownNodeKind d).told

/-- Leaves carry text, all other nodes children. -/
def isLeaf (kind : NodeKind) : Bool := kind = .literal ∨ kind = .character

end NodeKind

structure Node where
  kind : NodeKind
  parent : Option NodeId
  /-- The production of a non-terminal, the class of a character. -/
  name : Option String := none
  text : String := ""
  /-- The branch of an alternative, the presence of an optional rule, the count of a repetition, the
  code point of a character. -/
  value : Datum := .null
  children : Array NodeId := #[]

structure Tree where
  nodes : Array Node := #[]
  /-- A frozen tree takes no more nodes. -/
  frozen : Bool := false

namespace Tree

def size (t : Tree) : Nat := t.nodes.size

def node? (t : Tree) (id : NodeId) : Option Node := t.nodes[id]?

/-- What is wrong with a place beyond the end; no place is read beyond sixty-four bits. -/
def noPlace (id : NodeId) : Fault :=
  if 0x8000000000000000 ≤ id then .indexOverflow else .indexOutOfRange "list"

def record (t : Tree) (id : NodeId) : Except Fault Node :=
  match t.node? id with
  | some node => .ok node
  | none => .error (noPlace id)

/-- The place of an existing node, which should be given by an integer. -/
def find (t : Tree) (id : Datum) : Except Fault NodeId := do
  if ← (Datum.int 0).atMost id then
    if ← id.less (.int t.size) then return ← id.position "list" t.size
  throw (Fault.noNode id).told

def freeze (t : Tree) : Tree := { t with frozen := true }

def push (t : Tree) (node : Node) : Tree := { t with nodes := t.nodes.push node }

def link (t : Tree) (parent child : NodeId) : Tree :=
  { t with nodes := t.nodes.modify parent fun node =>
      { node with children := node.children.push child } }

/-- Adds a node under its parent and tells its place.  If there is no such parent the node stays
in the arena, listed nowhere.  -/
def add (t : Tree) (node : Node) : Except Fault NodeId × Tree :=
  if t.frozen then (.error .treeFrozen, t)
  else
    let id := t.size
    let t := t.push node
    match node.parent with
    | none => (.ok id, t)
    | some parent =>
      if parent < t.size then (.ok id, t.link parent id) else (.error (noPlace parent), t)

@[simp] theorem size_push (t : Tree) (node : Node) : (t.push node).size = t.size + 1 := by
  simp [push, size]

@[simp] theorem size_link (t : Tree) (parent child : NodeId) :
    (t.link parent child).size = t.size := by
  simp [link, size]

theorem size_add (t : Tree) (node : Node) (h : t.frozen = false) :
    (t.add node).2.size = t.size + 1 := by
  unfold add
  simp only [h, Bool.false_eq_true, ↓reduceIte]
  split
  · simp
  · split <;> simp

theorem add_frozen {t : Tree} (h : t.frozen = true) (node : Node) :
    t.add node = (.error .treeFrozen, t) := by
  simp [add, h]

/-- The first node on the way up that satisfies a condition, the start excluded. -/
def findUp (t : Tree) (p : Node → Bool) : Nat → NodeId → Except Fault (Option NodeId)
  | 0, _ => .ok none
  | fuel + 1, id => do
    match (← t.record id).parent with
    | none => return none
    | some parent =>
      if p (← t.record parent) then return some parent else t.findUp p fuel parent

def production (t : Tree) (id : NodeId) : Except Fault (Option NodeId) :=
  t.findUp (fun node => node.kind = .nonTerminal) (t.size + 1) id

/-- The nearest non-terminal of that name, or without one, above a node. -/
def ancestor (t : Tree) (name : Option String) (id : NodeId) : Except Fault (Option NodeId) :=
  t.findUp (fun node => node.kind = .nonTerminal && node.name == name) (t.size + 1) id

def ancestorsFrom (t : Tree) : Nat → NodeId → Except Fault (List NodeId)
  | 0, _ => .ok []
  | fuel + 1, id => do
    match (← t.record id).parent with
    | none => return []
    | some parent => return parent :: (← t.ancestorsFrom fuel parent)

def ancestors (t : Tree) (id : NodeId) : Except Fault (List NodeId) :=
  t.ancestorsFrom (t.size + 1) id

def shown (t : Tree) (id : NodeId) : Except Fault String := do
  let node ← t.record id
  let label := match node.name with
    | some name => " " ++ Text.quoted name
    | none => ""
  return s!"Node({id}, {node.kind.name}{label})"

end Tree

namespace Node

/-- The value of a node of the given kind, null for a node of another kind. -/
def valueIf (node : Node) (kind : NodeKind) : Datum :=
  if node.kind = kind then node.value else .null

end Node

end SentenceGen
