import Mathlib.Data.List.Nodup
import Mathlib.Data.List.Perm.Subperm
import SentenceGen.Proofs.Growth

/-!
# Well-formed trees

In a linked tree the children that a node lists were added later, each once, with that node for
their parent.  So every node shows a derivation, and the places below two siblings are apart, which
makes the derivation no larger than the tree.  In a well-formed tree, besides, every node records
what its kind says and only inner nodes have children.
-/

namespace SentenceGen

/-- The labels that the engine gives to nodes. -/
inductive Label.Made : Label → Prop where
  | literal (text : String) : Made { kind := .literal, text }
  | sequence : Made { kind := .sequence }
  | alternative (index : Nat) : Made { kind := .alternative, value := .int index }
  | optional (present : Bool) : Made { kind := .optional, value := .bool present }
  | repetition (count : Int) : Made { kind := .repetition, value := .int count }
  | nonTerminal (name : String) : Made { kind := .nonTerminal, name := some name }
  | character (name : String) (codepoint : Nat) :
      Made { kind := .character, name := some name, text := (Char.ofNat codepoint).toString
             value := .int codepoint }

namespace Tree

/-! ### Trees that grow well -/

/-- Nodes can be added under the parent, which is an inner node. -/
structure Hosts (t : Tree) (parent : Option NodeId) : Prop where
  thawed : t.frozen = false
  inner : ∀ id, parent = some id → ∃ node, t.node? id = some node ∧ node.kind.isLeaf = false

def HasParent (t : Tree) (id parent : NodeId) : Prop :=
  (t.node? id).map Node.parent = some (some parent)

/-- Every node comes after its parent, and lists nodes below it that have it for their parent, each
once. -/
structure Linked (t : Tree) : Prop where
  upward {id : NodeId} {node : Node} : t.node? id = some node →
    ∀ parent, node.parent = some parent → parent < id
  listed {id : NodeId} {node : Node} : t.node? id = some node →
    ∀ child ∈ node.children.toList, t.HasParent child id
  distinct {id : NodeId} {node : Node} : t.node? id = some node → node.children.toList.Nodup

structure Formed (t : Tree) : Prop where
  made {id : NodeId} {node : Node} : t.node? id = some node → node.label.Made
  upward {id : NodeId} {node : Node} : t.node? id = some node →
    ∀ parent, node.parent = some parent → parent < id
  listed {id : NodeId} {node : Node} : t.node? id = some node →
    ∀ child ∈ node.children.toList, t.HasParent child id
  distinct {id : NodeId} {node : Node} : t.node? id = some node → node.children.toList.Nodup
  leaf {id : NodeId} {node : Node} : t.node? id = some node → node.kind.isLeaf = true →
    node.children = #[]

variable {t t' : Tree} {parent : Option NodeId} {label : Label}

theorem Hosts.takes (h : t.Hosts parent) : t.Takes parent where
  thawed := h.thawed
  parent_lt id given := by
    obtain ⟨node, found, _⟩ := h.inner id given
    exact lt_size_of_node? found

theorem Hosts.of_extends {linked : NodeId → List NodeId} (h : t.Hosts parent)
    (extended : t.Extends linked t') (thawed : t'.frozen = false) : t'.Hosts parent where
  thawed := thawed
  inner id given := by
    obtain ⟨node, found, inner⟩ := h.inner id given
    exact ⟨_, extended id node found, inner⟩

theorem Formed.linked (h : t.Formed) : t.Linked := ⟨h.upward, h.listed, h.distinct⟩

theorem linked_empty : ({} : Tree).Linked := by
  constructor <;> exact nofun

theorem formed_empty : ({} : Tree).Formed := by
  constructor <;> exact nofun

/-- A node after one more was added: the new one, or an old one that may have one more child. -/
theorem node?_add_cases (takes : t.Takes parent) {id : NodeId} {node : Node}
    (found : (t.add (label.under parent)).2.node? id = some node) :
    id = t.size ∧ node = label.under parent ∨
      ∃ old, t.node? id = some old ∧ node = old.adopt (linkedTo parent [t.size] id) := by
  have added : t.Takes (label.under parent).parent := takes
  rw [node?_add added] at found
  by_cases last : id = t.size
  · rw [if_pos last] at found
    exact .inl ⟨last, (Option.some.inj found).symm⟩
  · rw [if_neg last] at found
    obtain ⟨old, was, rfl⟩ := Option.map_eq_some_iff.mp found
    exact .inr ⟨old, was, rfl⟩

theorem Linked.add (h : t.Linked) (takes : t.Takes parent) :
    (t.add (label.under parent)).2.Linked := by
  have added : t.Takes (label.under parent).parent := takes
  have last := node?_add_self added
  have extended := extends_add added
  constructor
  case upward =>
    intro id node found above given
    rcases node?_add_cases takes found with ⟨rfl, rfl⟩ | ⟨old, was, rfl⟩
    · exact takes.parent_lt above given
    · exact h.upward was above given
  case listed =>
    intro id node found child member
    rcases node?_add_cases takes found with ⟨_, rfl⟩ | ⟨old, was, rfl⟩
    · cases member
    · rw [Node.children_adopt] at member
      rcases List.mem_append.mp member with before | new
      · obtain ⟨below, foundBelow, same⟩ := Option.map_eq_some_iff.mp (h.listed was child before)
        rw [HasParent, extended child below foundBelow]
        exact congrArg some same
      · obtain ⟨given, new⟩ := mem_linkedTo.mp new
        rw [List.mem_singleton.mp new, HasParent, last, given]
        rfl
  case distinct =>
    intro id node found
    rcases node?_add_cases takes found with ⟨_, rfl⟩ | ⟨old, was, rfl⟩
    · exact List.nodup_nil
    · rw [Node.children_adopt]
      by_cases given : parent = some id
      · rw [given, linkedTo_self]
        refine List.nodup_append.mpr ⟨h.distinct was, List.nodup_singleton _, ?_⟩
        intro child before _ new
        obtain ⟨below, foundBelow, _⟩ := Option.map_eq_some_iff.mp (h.listed was child before)
        rw [List.mem_singleton.mp new]
        exact Nat.ne_of_lt (lt_size_of_node? foundBelow)
      · rw [linkedTo_of_ne given, List.append_nil]
        exact h.distinct was

theorem Formed.add (h : t.Formed) (hosts : t.Hosts parent) (made : label.Made) :
    (t.add (label.under parent)).2.Formed := by
  have takes := hosts.takes
  have linked : (t.add (label.under parent)).2.Linked := h.linked.add takes
  refine ⟨?_, linked.upward, linked.listed, linked.distinct, ?_⟩
  case refine_1 =>
    intro id node found
    rcases node?_add_cases takes found with ⟨_, rfl⟩ | ⟨old, was, rfl⟩
    · exact made
    · rw [Node.label_adopt]
      exact h.made was
  case refine_2 =>
    intro id node found leaf
    rcases node?_add_cases takes found with ⟨_, rfl⟩ | ⟨old, was, rfl⟩
    · rfl
    · by_cases given : parent = some id
      · obtain ⟨node, foundHost, inner⟩ := hosts.inner id given
        obtain rfl : old = node := Option.some.inj (was.symm.trans foundHost)
        have leaf : old.kind.isLeaf = true := leaf
        rw [inner] at leaf
        cases leaf
      · rw [linkedTo_of_ne given, Node.adopt_nil]
        exact h.leaf was leaf

/-- A node that was added can host nodes if it is an inner one. -/
theorem Hosts.add (h : t.Hosts parent) (inner : label.kind.isLeaf = false) :
    (t.add (label.under parent)).2.Hosts (some t.size) where
  thawed := by rw [frozen_add, h.thawed]
  inner := by
    rintro id ⟨⟩
    have added : t.Takes (label.under parent).parent := h.takes
    exact ⟨_, node?_add_self added, inner⟩

/-! ### Below a node -/

/-- A node is the top one, or its parent is under the top one. -/
inductive Under (t : Tree) (top : NodeId) : NodeId → Prop where
  | self : Under t top top
  | child {id parent : NodeId} {node : Node} (found : t.node? id = some node)
      (parent_eq : node.parent = some parent) (above : Under t top parent) : Under t top id

variable {top other id : NodeId}

theorem Under.trans (h : t.Under top other) (h' : t.Under other id) : t.Under top id := by
  induction h' with
  | self => exact h
  | child found parent_eq _ ih => exact .child found parent_eq ih

theorem Under.le (h : t.Under top id) (linked : t.Linked) : top ≤ id := by
  induction h with
  | self => exact Nat.le_refl _
  | child found parent_eq _ ih =>
    have less := linked.upward found _ parent_eq
    exact Nat.le_trans ih (Nat.le_of_lt less)

/-- What is above a node stands in a line. -/
theorem Under.linear (h : t.Under top id) (h' : t.Under other id) :
    t.Under top other ∨ t.Under other top := by
  induction h with
  | self => exact .inr h'
  | child found parent_eq above ih =>
    cases h' with
    | self => exact .inl (.child found parent_eq above)
    | child found' parent_eq' above' =>
      cases found.symm.trans found'
      cases parent_eq.symm.trans parent_eq'
      exact ih above'

variable {above : NodeId}

theorem Under.child_of_hasParent (h : t.HasParent id above) : t.Under above id := by
  obtain ⟨_, found, parent_eq⟩ := Option.map_eq_some_iff.mp h
  exact .child found parent_eq .self

theorem not_under_sibling (linked : t.Linked) (first : t.HasParent top above)
    (second : t.HasParent other above) (apart : top ≠ other) : ¬ t.Under top other := by
  obtain ⟨node, found, parent_eq⟩ := Option.map_eq_some_iff.mp first
  obtain ⟨sibling, foundToo, parent_eq'⟩ := Option.map_eq_some_iff.mp second
  intro under
  cases under with
  | self => exact apart rfl
  | child found' parent_eq'' under =>
    cases foundToo.symm.trans found'
    cases parent_eq'.symm.trans parent_eq''
    have less := linked.upward found above parent_eq
    exact Nat.lt_irrefl _ (Nat.lt_of_lt_of_le less (under.le linked))

theorem not_under_both (linked : t.Linked) (first : t.HasParent top above)
    (second : t.HasParent other above) (apart : top ≠ other) (under : t.Under top id) :
    ¬ t.Under other id := by
  intro underToo
  rcases under.linear underToo with down | up
  · exact not_under_sibling linked first second apart down
  · exact not_under_sibling linked second first apart.symm up

theorem Linked.freeze (h : t.Linked) : t.freeze.Linked := ⟨h.upward, h.listed, h.distinct⟩

theorem Formed.freeze (h : t.Formed) : t.freeze.Formed :=
  ⟨h.made, h.upward, h.listed, h.distinct, h.leaf⟩

/-! ### Every node shows a derivation -/

/-- Different places of a tree, as many as a derivation has nodes. -/
structure Places (t : Tree) (count : Nat) (Among : NodeId → Prop) (places : List NodeId) :
    Prop where
  length_eq : places.length = count
  nodup : places.Nodup
  present : ∀ place ∈ places, place < t.size
  among : ∀ place ∈ places, Among place

theorem Places.count_le {count : Nat} {Among : NodeId → Prop} {places : List NodeId}
    (h : t.Places count Among places) : count ≤ t.size := by
  have inside : places ⊆ List.range t.size :=
    fun place member => List.mem_range.mpr (h.present place member)
  have fewer := (List.subperm_of_subset h.nodup inside).length_le
  rwa [h.length_eq, List.length_range] at fewer

/-- The siblings show derivations side by side. -/
theorem showsAll_of_each (linked : t.Linked) {ids : List NodeId} (distinct : ids.Nodup)
    (siblings : ∀ id ∈ ids, t.HasParent id above)
    (each : ∀ id ∈ ids, ∃ d places, t.Shows d id ∧ t.Places d.size (t.Under id) places) :
    ∃ ds places, t.ShowsAll ds ids ∧
      t.Places (Derivation.sizeAll ds) (fun place => ∃ id ∈ ids, t.Under id place) places := by
  induction ids with
  | nil => exact ⟨[], [], trivial, rfl, List.nodup_nil, nofun, nofun⟩
  | cons id rest ih =>
    rw [List.forall_mem_cons] at siblings each
    obtain ⟨new, distinct⟩ := List.nodup_cons.mp distinct
    obtain ⟨d, first, shown, covered⟩ := each.1
    obtain ⟨ds, others, shownToo, coveredToo⟩ := ih distinct siblings.2 each.2
    refine ⟨d :: ds, first ++ others, ⟨shown, shownToo⟩, ?_, ?_, ?_, ?_⟩
    · rw [List.length_append, covered.length_eq, coveredToo.length_eq, Derivation.sizeAll]
    · refine List.nodup_append.mpr ⟨covered.nodup, coveredToo.nodup, ?_⟩
      rintro place before _ after rfl
      obtain ⟨sibling, member, under⟩ := coveredToo.among place after
      have apart : id ≠ sibling := by
        rintro rfl
        exact new member
      exact not_under_both linked siblings.1 (siblings.2 sibling member) apart
        (covered.among place before) under
    · exact List.forall_mem_append.mpr ⟨covered.present, coveredToo.present⟩
    · refine List.forall_mem_append.mpr ⟨?_, ?_⟩
      · intro place member
        exact ⟨id, List.mem_cons_self, covered.among place member⟩
      · intro place member
        obtain ⟨sibling, listed, under⟩ := coveredToo.among place member
        exact ⟨sibling, List.mem_cons_of_mem _ listed, under⟩

theorem Linked.covered (h : t.Linked) (id : NodeId) (present : id < t.size) :
    ∃ d places, t.Shows d id ∧ t.Places d.size (t.Under id) places := by
  -- Children come later than their parent, so the distance to the end of the tree goes down.
  induction further : t.size - id using Nat.strongRecOn generalizing id with
  | ind n ih =>
    obtain ⟨node, found⟩ := lt_size_iff.mp present
    have siblings := h.listed found
    have later : ∀ child ∈ node.children.toList, id < child ∧ child < t.size := by
      intro child member
      obtain ⟨below, foundBelow, parent_eq⟩ := Option.map_eq_some_iff.mp (siblings child member)
      exact ⟨h.upward foundBelow id parent_eq, lt_size_of_node? foundBelow⟩
    obtain ⟨ds, places, shown, covered⟩ := showsAll_of_each h (h.distinct found) siblings
      fun child member => by
        obtain ⟨after, inside⟩ := later child member
        have closer : t.size - child < n := further ▸ Nat.sub_lt_sub_left present after
        exact ih (t.size - child) closer child inside rfl
    refine ⟨.node node.label ds, id :: places, ?_, ?_, ?_, ?_, ?_⟩
    · exact ⟨node, found, rfl, fun child member => (later child member).1, shown⟩
    · rw [List.length_cons, covered.length_eq, Derivation.size]
    · refine List.nodup_cons.mpr ⟨?_, covered.nodup⟩
      intro member
      obtain ⟨child, listed, under⟩ := covered.among id member
      have after := (later child listed).1
      exact Nat.lt_irrefl _ (Nat.lt_of_lt_of_le after (under.le h))
    · exact List.forall_mem_cons.mpr ⟨present, covered.present⟩
    · refine List.forall_mem_cons.mpr ⟨.self, ?_⟩
      intro place member
      obtain ⟨child, listed, under⟩ := covered.among place member
      exact (Under.child_of_hasParent (siblings child listed)).trans under

/-- A node of a linked tree shows a derivation that the tree has room for. -/
theorem Linked.shows (h : t.Linked) (present : id < t.size) :
    ∃ d, t.Shows d id ∧ d.size ≤ t.size := by
  obtain ⟨d, places, shown, covered⟩ := h.covered id present
  exact ⟨d, shown, covered.count_le⟩

end Tree

/-- Every label is a fine one, and there is nothing below a leaf. -/
inductive Derivation.Regular (Fine : Label → Prop) : Derivation → Prop where
  | node {label : Label} {children : List Derivation} (fine : Fine label)
      (leaf : label.kind.isLeaf = true → children = [])
      (below : ∀ child ∈ children, Regular Fine child) : Regular Fine (.node label children)

namespace Tree

variable {t : Tree} {Fine : Label → Prop}

theorem ShowsAll.length_eq {ds : List Derivation} {ids : List NodeId} (h : t.ShowsAll ds ids) :
    ds.length = ids.length := by
  induction ds generalizing ids with
  | nil =>
    cases ids with
    | nil => rfl
    | cons => exact h.elim
  | cons d rest ih =>
    cases ids with
    | nil => exact h.elim
    | cons id ids => exact congrArg (· + 1) (ih h.2)

theorem ShowsAll.eq_nil {ds : List Derivation} (h : t.ShowsAll ds []) : ds = [] :=
  List.eq_nil_of_length_eq_zero h.length_eq

mutual

theorem Shows.regular (formed : t.Formed)
    (fine : ∀ id node, t.node? id = some node → Fine node.label) :
    ∀ {d : Derivation} {id : NodeId}, t.Shows d id → d.Regular Fine
  | .node label children, id, ⟨node, found, same, _, below⟩ => by
    refine .node (same ▸ fine id node found) ?_ (ShowsAll.regular formed fine below)
    intro leaf
    rw [← same] at leaf
    rw [formed.leaf found leaf] at below
    exact ShowsAll.eq_nil below

theorem ShowsAll.regular (formed : t.Formed)
    (fine : ∀ id node, t.node? id = some node → Fine node.label) :
    ∀ {ds : List Derivation} {ids : List NodeId}, t.ShowsAll ds ids → ∀ d ∈ ds, d.Regular Fine
  | [], [], _ => nofun
  | _ :: _, _ :: _, ⟨first, others⟩ =>
    List.forall_mem_cons.mpr
      ⟨Shows.regular formed fine first, ShowsAll.regular formed fine others⟩
  | [], _ :: _, h => h.elim
  | _ :: _, [], h => h.elim

end

end Tree

end SentenceGen
