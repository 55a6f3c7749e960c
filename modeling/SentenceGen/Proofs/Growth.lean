import SentenceGen.Proofs.Derivation

/-!
# Growing trees

Nodes are only added, so a tree extends what it was: every node stays, perhaps with more children.
Grafting adds a whole derivation under a parent, each node before what is below it; the tree then
shows the derivation at the first place it was given.
-/

namespace SentenceGen

namespace Tree

/-- Nodes can be added under the parent. -/
structure Takes (t : Tree) (parent : Option NodeId) : Prop where
  thawed : t.frozen = false
  parent_lt : ∀ id : Nat, parent = some id → id < t.size

/-- Every node of the first tree is in the second one, with further children. -/
def Extends (t : Tree) (linked : NodeId → List NodeId) (t' : Tree) : Prop :=
  ∀ id node, t.node? id = some node → t'.node? id = some (node.adopt (linked id))

/-- New children for a parent, if there is one, and for no other node. -/
def linkedTo (parent : Option NodeId) (children : List NodeId) (id : NodeId) : List NodeId :=
  if parent = some id then children else []

@[simp] theorem linkedTo_none (children : List NodeId) (id : NodeId) :
    linkedTo none children id = [] := rfl

@[simp] theorem linkedTo_self (id : NodeId) (children : List NodeId) :
    linkedTo (some id) children id = children := by
  simp [linkedTo]

theorem linkedTo_of_ne {parent : Option NodeId} {id : NodeId} (h : parent ≠ some id)
    (children : List NodeId) : linkedTo parent children id = [] := by
  simp [linkedTo, h]

theorem mem_linkedTo {parent : Option NodeId} {children : List NodeId} {id child : NodeId} :
    child ∈ linkedTo parent children id ↔ parent = some id ∧ child ∈ children := by
  by_cases given : parent = some id <;> simp [linkedTo, given]

variable {t t' t'' : Tree} {parent : Option NodeId}

theorem lt_size_iff {id : NodeId} : id < t.size ↔ ∃ node, t.node? id = some node := by
  rw [size, node?, ← Option.isSome_iff_exists, isSome_getElem?]

theorem lt_size_of_node? {id : NodeId} {node : Node} (found : t.node? id = some node) :
    id < t.size :=
  lt_size_iff.mpr ⟨node, found⟩

/-! ### Extension -/

theorem extends_refl (t : Tree) : t.Extends (fun _ => []) t := by
  intro id node found
  rw [Node.adopt_nil, found]

theorem Extends.trans {first second : NodeId → List NodeId} (h : t.Extends first t')
    (h' : t'.Extends second t'') : t.Extends (fun id => first id ++ second id) t'' := by
  intro id node found
  rw [h' id _ (h id node found), Node.adopt_adopt]

theorem Extends.congr {first second : NodeId → List NodeId} (h : t.Extends first t')
    (same : ∀ id < t.size, first id = second id) : t.Extends second t' := by
  intro id node found
  rw [h id node found, same id (lt_size_of_node? found)]

theorem Extends.size_le {linked : NodeId → List NodeId} (h : t.Extends linked t') :
    t.size ≤ t'.size := by
  refine Nat.le_of_not_lt fun less => ?_
  obtain ⟨node, found⟩ := lt_size_iff.mp less
  exact Nat.lt_irrefl _ (lt_size_of_node? (h _ node found))

mutual

/-- What a tree shows stays as long as nothing is listed below it. -/
theorem Shows.of_extends {linked : NodeId → List NodeId} (h : t.Extends linked t') :
    ∀ {d : Derivation} {id : NodeId}, t.Shows d id → (∀ i, id ≤ i → linked i = []) → t'.Shows d id
  | .node _ _, id, ⟨node, found, label, later, below⟩, still =>
    ⟨node, by simpa [still id (Nat.le_refl id)] using h id node found, label, later,
      ShowsAll.of_extends h below id later still⟩

theorem ShowsAll.of_extends {linked : NodeId → List NodeId} (h : t.Extends linked t') :
    ∀ {ds : List Derivation} {ids : List NodeId}, t.ShowsAll ds ids → ∀ bound : NodeId,
      (∀ id ∈ ids, bound < id) → (∀ i, bound ≤ i → linked i = []) → t'.ShowsAll ds ids
  | [], [], _, _, _, _ => trivial
  | _ :: _, id :: _, ⟨first, others⟩, bound, later, still => by
    rw [List.forall_mem_cons] at later
    exact ⟨Shows.of_extends h first fun i le =>
      still i (Nat.le_trans (Nat.le_of_lt later.1) le),
      ShowsAll.of_extends h others bound later.2 still⟩
  | [], _ :: _, h, _, _, _ => h.elim
  | _ :: _, [], h, _, _, _ => h.elim

end

theorem extends_freeze (t : Tree) : t.Extends (fun _ => []) t.freeze := by
  intro id node found
  rw [Node.adopt_nil]
  exact found

/-! ### Adding a node -/

theorem add_eq {node : Node} (h : t.Takes node.parent) :
    t.add node = (.ok t.size, (t.add node).2) := by
  unfold add
  rw [if_neg (by simp [h.thawed])]
  cases given : node.parent with
  | none => rfl
  | some id =>
    have present : id < t.size + 1 := Nat.lt_succ_of_lt (h.parent_lt id given)
    simp [present]

theorem add_ok_iff {node : Node} {id : NodeId} {t' : Tree} (h : t.Takes node.parent) :
    t.add node = (.ok id, t') ↔ id = t.size ∧ t' = (t.add node).2 := by
  rw [add_eq h]
  constructor
  · intro same
    exact ⟨by simpa using (congrArg Prod.fst same).symm, (congrArg Prod.snd same).symm⟩
  · rintro ⟨rfl, rfl⟩
    rfl

@[simp] theorem frozen_add (t : Tree) (node : Node) : (t.add node).2.frozen = t.frozen := by
  unfold add
  split
  · rfl
  · cases node.parent with
    | none => rfl
    | some id => simp only; split <;> rfl

theorem Takes.apart (h : t.Takes parent) : parent ≠ some t.size :=
  fun given => Nat.lt_irrefl _ (h.parent_lt _ given)

theorem node?_push (t : Tree) (node : Node) (id : NodeId) :
    (t.push node).node? id = if id = t.size then some node else t.node? id :=
  Array.getElem?_push

theorem node?_link (t : Tree) (parent child id : NodeId) :
    (t.link parent child).node? id =
      (t.node? id).map fun old => old.adopt (linkedTo (some parent) [child] id) := by
  simp only [node?, link, Array.getElem?_modify]
  by_cases same : parent = id
  · subst same
    simp [linkedTo, Node.adopt]
  · simp [same, linkedTo]

/-- Adding a node under a parent that is not there changes no other node. -/
theorem node?_add_of_ne {node : Node} (thawed : t.frozen = false)
    (apart : node.parent ≠ some t.size) (id : NodeId) :
    (t.add node).2.node? id =
      if id = t.size then some node
      else (t.node? id).map fun old => old.adopt (linkedTo node.parent [t.size] id) := by
  unfold add
  rw [if_neg (by simp [thawed])]
  cases given : node.parent with
  | none => simp [node?_push]
  | some place =>
    have other : place ≠ t.size := by
      rintro rfl
      exact apart given
    by_cases present : place < t.size
    · have room : place < t.size + 1 := Nat.lt_succ_of_lt present
      simp only [size_push, if_pos room, node?_link, node?_push]
      by_cases last : id = t.size
      · simp [last, linkedTo, other]
      · simp [last]
    · have beyond : ¬ place < t.size + 1 := fun room =>
        present (Nat.lt_of_le_of_ne (Nat.le_of_lt_succ room) other)
      simp only [size_push, if_neg beyond, node?_push]
      cases found : t.node? id with
      | none => rfl
      | some old =>
        have inside := lt_size_of_node? found
        have same : some place ≠ some id := by
          rintro ⟨⟩
          exact present inside
        rw [linkedTo_of_ne same, Option.map_some, Node.adopt_nil]

theorem node?_add {node : Node} (h : t.Takes node.parent) (id : NodeId) :
    (t.add node).2.node? id =
      if id = t.size then some node
      else (t.node? id).map fun old => old.adopt (linkedTo node.parent [t.size] id) :=
  node?_add_of_ne h.thawed h.apart id

theorem node?_add_self {node : Node} (h : t.Takes node.parent) :
    (t.add node).2.node? t.size = some node := by
  simp [node?_add h]

theorem extends_add {node : Node} (h : t.Takes node.parent) :
    t.Extends (linkedTo node.parent [t.size]) (t.add node).2 := by
  intro id old found
  have other : id ≠ t.size := Nat.ne_of_lt (lt_size_of_node? found)
  rw [node?_add h, if_neg other, found]
  rfl

/-- Nodes can be added under a node that was just added. -/
theorem Takes.add {node : Node} (h : t.Takes node.parent) :
    (t.add node).2.Takes (some t.size) where
  thawed := by rw [frozen_add, h.thawed]
  parent_lt := by
    rintro id ⟨⟩
    rw [size_add t node h.thawed]
    exact Nat.lt_succ_self _

/-! ### Grafting a derivation -/

end Tree

namespace Derivation

mutual

/-- Adds a derivation under a parent, each node before what is below it. -/
def graft : Derivation → Option NodeId → Tree → Tree
  | .node label children, parent, t =>
    graftAll children (some t.size) (t.add (label.under parent)).2

def graftAll : List Derivation → Option NodeId → Tree → Tree
  | [], _, t => t
  | d :: rest, parent, t => graftAll rest parent (graft d parent t)

end

def toTree (d : Derivation) : Tree := d.graft none {}

theorem graftAll_append (xs ys : List Derivation) (parent : Option NodeId) (t : Tree) :
    graftAll (xs ++ ys) parent t = graftAll ys parent (graftAll xs parent t) := by
  induction xs generalizing t with
  | nil => rfl
  | cons d rest ih => simp [graftAll, ih]

end Derivation

namespace Tree

/-- What adding a derivation, or several, does to a tree. -/
structure Grafted (t : Tree) (parent : Option NodeId) (count : Nat) (ids : List NodeId)
    (t' : Tree) : Prop where
  size_eq : t'.size = t.size + count
  frozen_eq : t'.frozen = t.frozen
  extended : t.Extends (linkedTo parent ids) t'
  fresh : ∀ id ∈ ids, t.size ≤ id

theorem Grafted.takes (h : Grafted t parent count ids t') (takes : t.Takes parent) :
    t'.Takes parent where
  thawed := by rw [h.frozen_eq, takes.thawed]
  parent_lt id given := by
    have := takes.parent_lt id given
    have := h.size_eq
    omega

mutual

theorem grafted_graft {t : Tree} {parent : Option NodeId} : ∀ (d : Derivation), t.Takes parent →
    t.Grafted parent d.size [t.size] (d.graft parent t) ∧ (d.graft parent t).Shows d t.size
  | .node label children, takes => by
    have added : t.Takes (label.under parent).parent := takes
    have size := size_add t (label.under parent) takes.thawed
    obtain ⟨ids, grafted, below⟩ := grafted_graftAll children added.add
    have found := grafted.extended t.size _ (node?_add_self added)
    refine ⟨⟨?_, ?_, ?_, by simp⟩, ?_⟩
    · rw [Derivation.graft, grafted.size_eq, size, Derivation.size]
      omega
    · rw [Derivation.graft, grafted.frozen_eq, frozen_add]
    · refine ((extends_add added).trans grafted.extended).congr fun id old => ?_
      have other : some t.size ≠ some id := by simpa using Nat.ne_of_gt old
      simp [linkedTo_of_ne other]
    · refine ⟨_, found, rfl, ?_, ?_⟩
      · intro child member
        have later := grafted.fresh child (by simpa using member)
        rw [size] at later
        exact later
      · simpa [Derivation.graft] using below

theorem grafted_graftAll {t : Tree} {p : NodeId} : ∀ (ds : List Derivation), t.Takes (some p) →
    ∃ ids, t.Grafted (some p) (Derivation.sizeAll ds) ids (Derivation.graftAll ds (some p) t) ∧
      (Derivation.graftAll ds (some p) t).ShowsAll ds ids
  | [], _ =>
    ⟨[], ⟨by simp [Derivation.graftAll, Derivation.sizeAll], rfl,
      (extends_refl t).congr (by simp [linkedTo]), by simp⟩, trivial⟩
  | d :: rest, takes => by
    obtain ⟨first, shown⟩ := grafted_graft d takes
    obtain ⟨ids, others, below⟩ := grafted_graftAll rest (first.takes takes)
    have size := first.size_eq
    refine ⟨t.size :: ids, ⟨?_, ?_, ?_, ?_⟩, ?_, below⟩
    · rw [Derivation.graftAll, others.size_eq, size, Derivation.sizeAll, Nat.add_assoc]
    · rw [Derivation.graftAll, others.frozen_eq, first.frozen_eq]
    · refine (first.extended.trans others.extended).congr fun id _ => ?_
      by_cases same : p = id
      · simp [same]
      · simp [linkedTo, same]
    · refine List.forall_mem_cons.mpr ⟨Nat.le_refl _, fun id member => ?_⟩
      have later := others.fresh id member
      rw [size] at later
      exact Nat.le_trans (Nat.le_add_right _ _) later
    · refine shown.of_extends others.extended fun i later => linkedTo_of_ne ?_ _
      have early := takes.parent_lt p rfl
      rintro ⟨⟩
      exact Nat.lt_irrefl _ (Nat.lt_of_lt_of_le early later)

end

end Tree

namespace Derivation

theorem takes_empty : ({} : Tree).Takes none := ⟨rfl, by simp⟩

theorem size_toTree (d : Derivation) : d.toTree.size = d.size := by
  rw [toTree, (Tree.grafted_graft d takes_empty).1.size_eq]
  exact Nat.zero_add _

theorem shows_toTree (d : Derivation) : d.toTree.Shows d 0 :=
  (Tree.grafted_graft d takes_empty).2

theorem shows_freeze_toTree (d : Derivation) : d.toTree.freeze.Shows d 0 :=
  d.shows_toTree.of_extends (Tree.extends_freeze _) (by simp)

/-- The tree of a derivation determines it. -/
theorem toTree_freeze_injective {d e : Derivation} (h : d.toTree.freeze = e.toTree.freeze) :
    d = e :=
  d.shows_freeze_toTree.unique (h ▸ e.shows_freeze_toTree)

theorem render_toTree_freeze (d : Derivation) : d.toTree.freeze.render 0 = d.text :=
  d.shows_freeze_toTree.render (Nat.le_of_eq d.size_toTree.symm)

end Derivation

end SentenceGen
