import SentenceGen.Sink
import SentenceGen.Tree

/-!
# Rendering derivation trees

The text of a node is the text of the leaves below it, left to right.  The outline has one line
for each node, indented by its depth, with every closing parenthesis at the end of the last line
below the node that it closes:

    (foo
      (sequence
        'Hello'
        (optional absent)))
-/

namespace SentenceGen.Tree

/-- The texts of the leaves below a stack of nodes, top first; empty ones are left out. -/
def leafTextsFrom (t : Tree) : Nat → List NodeId → List String
  | 0, _ => []
  | _, [] => []
  | fuel + 1, id :: stack =>
    match t.node? id with
    | none => t.leafTextsFrom fuel stack
    | some node =>
      if node.kind.isLeaf then
        if node.text = "" then t.leafTextsFrom fuel stack
        else node.text :: t.leafTextsFrom fuel stack
      else t.leafTextsFrom fuel (node.children.toList ++ stack)

def leafTexts (t : Tree) (id : NodeId) : List String := t.leafTextsFrom (t.size + 1) [id]

/-- The text of everything below a node. -/
def render (t : Tree) (id : NodeId) : String := String.join (t.leafTexts id)

/-- Writes the text of a node to a sink, leaf by leaf, and tells its length. -/
def write {τ : Type} (t : Tree) (id : NodeId) (sink : Sink τ) (state : τ) : Except Fault Nat × τ :=
  sink.writeAll (t.leafTexts id) state

/-- What the line of an inner node says.  Its value may be one that cannot be printed. -/
def header (node : Node) : Except Fault String := do
  match node.kind with
  | .nonTerminal => return node.name.getD "None"
  | .alternative => return s!"alternative {← node.value.text}"
  | .optional => return if node.value.truthy then "optional present" else "optional absent"
  | .repetition => return s!"repetition {← node.value.text}"
  | kind => return kind.name

/-- What is left to lay out: a node at its depth, or a parenthesis to close. -/
inductive Pending where
  | visit (id : NodeId) (depth : Nat)
  | close

/-- Closes a parenthesis on the last of the lines, which are in reverse. -/
def closeLast : List String → List String
  | [] => []
  | line :: lines => (line ++ ")") :: lines

def padding (indent : String) (depth : Nat) : String := String.join (List.replicate depth indent)

/-- Lays out a stack of nodes; the lines so far are in reverse. -/
def layout (t : Tree) (indent : String) :
    Nat → List Pending → List String → Except Fault (List String)
  | 0, _, lines => .ok lines
  | _, [], lines => .ok lines
  | fuel + 1, .close :: stack, lines => t.layout indent fuel stack (closeLast lines)
  | fuel + 1, .visit id depth :: stack, lines => do
    let node ← t.record id
    let pad := padding indent depth
    match node.kind with
    | .literal => t.layout indent fuel stack ((pad ++ Text.quoted node.text) :: lines)
    | .character =>
      let label ← node.value.codepointLabel
      let name := node.name.getD "None"
      t.layout indent fuel stack (s!"{pad}[{name} {label}]" :: lines)
    | _ =>
      let line := pad ++ "(" ++ (← header node)
      if node.children.isEmpty then t.layout indent fuel stack ((line ++ ")") :: lines)
      else
        let below := node.children.toList.map fun child => Pending.visit child (depth + 1)
        t.layout indent fuel (below ++ .close :: stack) (line :: lines)

def outline (t : Tree) (id : NodeId) (indent : String := "  ") : Except Fault String := do
  let lines ← t.layout indent (2 * t.size + 2) [.visit id 0] []
  return "\n".intercalate lines.reverse

end SentenceGen.Tree
