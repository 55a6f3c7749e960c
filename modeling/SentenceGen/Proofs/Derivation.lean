import SentenceGen.Decision
import SentenceGen.Tree.Render

/-!
# Derivations as values

A derivation is a tree without places: what each node records and, in order, what stands below it.
A tree in an arena shows a derivation at a node if the records reached from the node spell it out;
it shows at most one, and renders it to the text of its leaves.
-/

namespace SentenceGen

/-- What a node records, apart from its place in a tree. -/
structure Label where
  kind : NodeKind
  name : Option String := none
  text : String := ""
  value : Datum := .null

namespace Label

/-- A fresh node with this label. -/
def under (label : Label) (parent : Option NodeId) : Node :=
  { kind := label.kind, parent, name := label.name, text := label.text, value := label.value }

/-- The entry of a script that answers the question behind a node. -/
def decision? (label : Label) : Option Decision :=
  match label.kind with
  | .alternative => some (.pick label.value)
  | .optional => some (if label.value.truthy then .take else .skip)
  | .repetition => some (.repeats label.value)
  | .character => some ⟨.codepoint, label.value, none⟩
  | .literal | .sequence | .nonTerminal => none

end Label

namespace Node

def label (node : Node) : Label := ⟨node.kind, node.name, node.text, node.value⟩

/-- The node with more children. -/
def adopt (node : Node) (more : List NodeId) : Node :=
  { node with children := node.children ++ more.toArray }

@[simp] theorem label_under (label : Label) (parent : Option NodeId) :
    (label.under parent).label = label := rfl

@[simp] theorem children_under (label : Label) (parent : Option NodeId) :
    (label.under parent).children = #[] := rfl

@[simp] theorem parent_under (label : Label) (parent : Option NodeId) :
    (label.under parent).parent = parent := rfl

@[simp] theorem label_adopt (node : Node) (more : List NodeId) :
    (node.adopt more).label = node.label := rfl

@[simp] theorem children_adopt (node : Node) (more : List NodeId) :
    (node.adopt more).children.toList = node.children.toList ++ more := by
  simp [adopt]

@[simp] theorem adopt_nil (node : Node) : node.adopt [] = node := by
  simp [adopt]

theorem adopt_adopt (node : Node) (first second : List NodeId) :
    (node.adopt first).adopt second = node.adopt (first ++ second) := by
  simp [adopt, Array.append_assoc]

end Node

inductive Derivation where
  | node (label : Label) (children : List Derivation)

namespace Derivation

def label : Derivation → Label
  | .node label _ => label

mutual

def size : Derivation → Nat
  | .node _ children => sizeAll children + 1

def sizeAll : List Derivation → Nat
  | [] => 0
  | d :: rest => size d + sizeAll rest

end

mutual

/-- The number of nodes on the longest way down. -/
def height : Derivation → Nat
  | .node _ children => heightAll children + 1

def heightAll : List Derivation → Nat
  | [] => 0
  | d :: rest => max (height d) (heightAll rest)

end

mutual

/-- The texts of the leaves from left to right, empty ones left out. -/
def leafTexts : Derivation → List String
  | .node label children =>
    if label.kind.isLeaf then if label.text = "" then [] else [label.text]
    else leafTextsAll children

def leafTextsAll : List Derivation → List String
  | [] => []
  | d :: rest => leafTexts d ++ leafTextsAll rest

end

mutual

/-- The decisions behind the nodes, each before those behind what is below it. -/
def script : Derivation → List Decision
  | .node label children => label.decision?.toList ++ scriptAll children

def scriptAll : List Derivation → List Decision
  | [] => []
  | d :: rest => script d ++ scriptAll rest

end

def text (d : Derivation) : String := String.join d.leafTexts

theorem leafTextsAll_append (xs ys : List Derivation) :
    leafTextsAll (xs ++ ys) = leafTextsAll xs ++ leafTextsAll ys := by
  induction xs with
  | nil => rfl
  | cons d rest ih => simp [leafTextsAll, ih]

end Derivation

namespace Tree

mutual

/-- Whether the records below a node spell out a derivation.  Every child has a later place. -/
def Shows (t : Tree) : Derivation → NodeId → Prop
  | .node label children, id => ∃ node, t.node? id = some node ∧ node.label = label ∧
      (∀ child ∈ node.children.toList, id < child) ∧ t.ShowsAll children node.children.toList

def ShowsAll (t : Tree) : List Derivation → List NodeId → Prop
  | [], [] => True
  | d :: rest, id :: ids => t.Shows d id ∧ t.ShowsAll rest ids
  | _, _ => False

end

variable {t : Tree}

mutual

/-- A node shows one derivation only. -/
theorem Shows.unique : ∀ {d e : Derivation} {id : NodeId}, t.Shows d id → t.Shows e id → d = e
  | .node _ _, .node _ _, _,
    ⟨node, found, label, _, below⟩, ⟨other, foundToo, labelToo, _, belowToo⟩ => by
    obtain rfl : node = other := Option.some.inj (found.symm.trans foundToo)
    rw [← label, ← labelToo, ShowsAll.unique below belowToo]

theorem ShowsAll.unique : ∀ {ds es : List Derivation} {ids : List NodeId},
    t.ShowsAll ds ids → t.ShowsAll es ids → ds = es
  | [], [], [], _, _ => rfl
  | _ :: _, _ :: _, _ :: _, first, second => by
    rw [Shows.unique first.1 second.1, ShowsAll.unique first.2 second.2]
  | [], _ :: _, [], _, second => second.elim
  | _ :: _, _, [], first, _ => first.elim
  | [], _, _ :: _, first, _ => first.elim
  | _ :: _, [], _ :: _, _, second => second.elim

end

mutual

/-- Rendering visits at most the nodes of the derivation and yields its leaves. -/
theorem Shows.leafTextsFrom : ∀ {d : Derivation} {id : NodeId}, t.Shows d id →
    ∃ visits ≤ d.size, ∀ fuel stack,
      t.leafTextsFrom (visits + fuel) (id :: stack) = d.leafTexts ++ t.leafTextsFrom fuel stack
  | .node label children, id, ⟨node, found, same, _, below⟩ => by
    obtain ⟨visits, bound, visited⟩ := ShowsAll.leafTextsFrom below
    have kind : node.kind = label.kind := by rw [← same]; rfl
    have text : node.text = label.text := by rw [← same]; rfl
    by_cases leaf : label.kind.isLeaf = true
    · refine ⟨1, by simp [Derivation.size], fun fuel stack => ?_⟩
      rw [Nat.add_comm, Tree.leafTextsFrom, found]
      by_cases empty : label.text = "" <;>
        simp [Derivation.leafTexts, kind, text, leaf, empty]
    · refine ⟨visits + 1, by simpa [Derivation.size] using bound, fun fuel stack => ?_⟩
      rw [Nat.add_right_comm, Tree.leafTextsFrom, found]
      simpa [Derivation.leafTexts, kind, leaf] using visited fuel stack

theorem ShowsAll.leafTextsFrom : ∀ {ds : List Derivation} {ids : List NodeId}, t.ShowsAll ds ids →
    ∃ visits ≤ Derivation.sizeAll ds, ∀ fuel stack,
      t.leafTextsFrom (visits + fuel) (ids ++ stack) =
        Derivation.leafTextsAll ds ++ t.leafTextsFrom fuel stack
  | [], [], _ => ⟨0, Nat.le_refl _, fun fuel stack => by simp [Derivation.leafTextsAll]⟩
  | d :: rest, id :: ids, ⟨first, others⟩ => by
    obtain ⟨m, hm, visited⟩ := Shows.leafTextsFrom first
    obtain ⟨n, hn, visitedRest⟩ := ShowsAll.leafTextsFrom others
    refine ⟨m + n, by rw [Derivation.sizeAll]; omega, fun fuel stack => ?_⟩
    rw [Nat.add_assoc, List.cons_append, visited, visitedRest, Derivation.leafTextsAll,
      List.append_assoc]
  | [], _ :: _, h => h.elim
  | _ :: _, [], h => h.elim

end

@[simp] theorem leafTextsFrom_nil (t : Tree) (fuel : Nat) : t.leafTextsFrom fuel [] = [] := by
  cases fuel <;> rfl

theorem Shows.leafTexts {d : Derivation} {id : NodeId} (h : t.Shows d id)
    (room : d.size ≤ t.size) : t.leafTexts id = d.leafTexts := by
  obtain ⟨visits, bound, visited⟩ := h.leafTextsFrom
  have split : t.size + 1 = visits + (t.size + 1 - visits) := by omega
  rw [Tree.leafTexts, split, visited, leafTextsFrom_nil, List.append_nil]

/-- A tree that has room for a derivation renders it to its text. -/
theorem Shows.render {d : Derivation} {id : NodeId} (h : t.Shows d id) (room : d.size ≤ t.size) :
    t.render id = d.text := by
  rw [Tree.render, h.leafTexts room, Derivation.text]

end Tree

end SentenceGen
