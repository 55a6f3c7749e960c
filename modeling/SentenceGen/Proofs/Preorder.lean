import Mathlib.Data.List.Sort
import SentenceGen.Proofs.Formation

/-!
# Trees in preorder

A tree is in preorder if a walk that visits every node before its children meets the places one by
one.  A tree grows so as long as every new node goes below a node on the edge, the way from the root
to the node that was added last; then the nodes below a node always stand together, right behind it.
-/

namespace SentenceGen

namespace Tree

/-! ### Parents and the edge -/

instance (t : Tree) (id parent : NodeId) : Decidable (t.HasParent id parent) :=
  inferInstanceAs (Decidable ((t.node? id).map Node.parent = some (some parent)))

/-- The children that a node should list, in the order of their places. -/
def childrenOf (t : Tree) (parent : NodeId) : List NodeId :=
  (List.range t.size).filter fun id => t.HasParent id parent

/-- A new node under the parent follows the node that was added last in preorder. -/
def Edge (t : Tree) : Option NodeId → Prop
  | none => t.size = 0
  | some id => id < t.size ∧ t.Under id (t.size - 1)

/-- Every node went below a node on the edge, as the edge was then. -/
structure Trailing (t : Tree) : Prop where
  root {id : NodeId} {node : Node} : t.node? id = some node → (node.parent = none ↔ id = 0)
  upward {id parent : NodeId} : t.HasParent id parent → parent < id
  attached {id parent : NodeId} : t.HasParent id parent → t.Under parent (id - 1)
  children_eq {id : NodeId} {node : Node} : t.node? id = some node →
    node.children.toList = t.childrenOf id

variable {t t' : Tree} {id top place parent : NodeId} {label : Label}

theorem HasParent.lt_size (h : t.HasParent id parent) : id < t.size := by
  obtain ⟨_, found, _⟩ := Option.map_eq_some_iff.mp h
  exact lt_size_of_node? found

theorem HasParent.of_extends {linked : NodeId → List NodeId} (extended : t.Extends linked t')
    (h : t.HasParent id parent) : t'.HasParent id parent := by
  obtain ⟨node, found, parent_eq⟩ := Option.map_eq_some_iff.mp h
  rw [HasParent, extended id node found]
  exact congrArg some parent_eq

theorem Under.of_extends {linked : NodeId → List NodeId} (extended : t.Extends linked t')
    (h : t.Under top id) : t'.Under top id := by
  induction h with
  | self => exact .self
  | child found parent_eq _ above => exact .child (extended _ _ found) parent_eq above

theorem Under.eq_or_child (h : t.Under top id) :
    id = top ∨ ∃ parent, t.HasParent id parent ∧ t.Under top parent := by
  cases h with
  | self => exact .inl rfl
  | child found parent_eq above =>
    exact .inr ⟨_, Option.map_eq_some_iff.mpr ⟨_, found, parent_eq⟩, above⟩

theorem Under.lt_size (h : t.Under top id) (present : top < t.size) : id < t.size := by
  rcases h.eq_or_child with rfl | ⟨parent, child, _⟩
  · exact present
  · exact child.lt_size

theorem mem_childrenOf : id ∈ t.childrenOf parent ↔ t.HasParent id parent := by
  simp only [childrenOf, List.mem_filter, List.mem_range, decide_eq_true_eq]
  exact ⟨And.right, fun h => ⟨h.lt_size, h⟩⟩

theorem pairwise_childrenOf (t : Tree) (parent : NodeId) :
    (t.childrenOf parent).Pairwise (· < ·) :=
  List.pairwise_lt_range.filter _

/-! ### Growing on the edge -/

theorem trailing_empty : ({} : Tree).Trailing := by
  constructor <;> exact nofun

variable {host : Option NodeId}

theorem hasParent_add (thawed : t.frozen = false) (apart : host ≠ some t.size) :
    (t.add (label.under host)).2.HasParent id parent ↔
      id = t.size ∧ host = some parent ∨ t.HasParent id parent := by
  have none_yet : ¬ t.HasParent t.size parent := fun h => Nat.lt_irrefl _ h.lt_size
  rw [HasParent, node?_add_of_ne thawed apart]
  by_cases last : id = t.size
  · simp [last, none_yet]
  · simp only [last, if_false, false_and, false_or, Option.map_map]
    rfl

theorem childrenOf_add (thawed : t.frozen = false) (apart : host ≠ some t.size)
    (parent : NodeId) :
    (t.add (label.under host)).2.childrenOf parent =
      t.childrenOf parent ++ linkedTo host [t.size] parent := by
  have none_yet : ¬ t.HasParent t.size parent := fun h => Nat.lt_irrefl _ h.lt_size
  have last : (t.add (label.under host)).2.HasParent t.size parent ↔ host = some parent := by
    simp [hasParent_add thawed apart, none_yet]
  rw [childrenOf, size_add t _ thawed, List.range_succ, List.filter_append, childrenOf]
  congr 1
  · refine List.filter_congr fun id inside => decide_eq_decide.mpr ?_
    have other : id ≠ t.size := Nat.ne_of_lt (List.mem_range.mp inside)
    rw [hasParent_add thawed apart]
    simp [other]
  · by_cases given : host = some parent
    · rw [List.filter_cons_of_pos (by rwa [decide_eq_true_iff, last]), given, linkedTo_self]
      rfl
    · rw [List.filter_cons_of_neg (by rwa [decide_eq_true_iff, last]), linkedTo_of_ne given]
      rfl

theorem Trailing.add (h : t.Trailing) (takes : t.Takes host) (edge : t.Edge host) :
    (t.add (label.under host)).2.Trailing := by
  have added : t.Takes (label.under host).parent := takes
  have extended := extends_add added
  constructor
  case root =>
    intro id node found
    rcases node?_add_cases takes found with ⟨rfl, rfl⟩ | ⟨old, was, rfl⟩
    · cases host with
      | none => exact ⟨fun _ => edge, fun _ => rfl⟩
      | some id =>
        have positive : t.size ≠ 0 := Nat.ne_of_gt (Nat.zero_lt_of_lt edge.1)
        exact ⟨nofun, fun first => absurd first positive⟩
    · rw [show (old.adopt _).parent = old.parent from rfl]
      exact h.root was
  case upward =>
    intro id parent child
    rcases (hasParent_add takes.thawed takes.apart).mp child with ⟨rfl, given⟩ | before
    · exact takes.parent_lt parent given
    · exact h.upward before
  case attached =>
    intro id parent child
    rcases (hasParent_add takes.thawed takes.apart).mp child with ⟨rfl, rfl⟩ | before
    · exact edge.2.of_extends extended
    · exact (h.attached before).of_extends extended
  case children_eq =>
    intro id node found
    rw [childrenOf_add takes.thawed takes.apart]
    rcases node?_add_cases takes found with ⟨rfl, rfl⟩ | ⟨old, was, rfl⟩
    · have childless : t.childrenOf t.size = [] := by
        refine List.eq_nil_iff_forall_not_mem.mpr fun id member => ?_
        have child := mem_childrenOf.mp member
        exact Nat.lt_asymm (h.upward child) child.lt_size
      rw [childless, linkedTo_of_ne takes.apart]
      rfl
    · rw [Node.children_adopt, h.children_eq was]

/-- Whether the tree is frozen makes no difference. -/
theorem Trailing.refrozen (h : t.Trailing) (frozen : Bool) :
    ({ t with frozen } : Tree).Trailing where
  root := h.root
  upward := h.upward
  attached child := by
    have extended : t.Extends (fun _ => []) { t with frozen } := by
      intro id node found
      rw [Node.adopt_nil]
      exact found
    exact (h.attached child).of_extends extended
  children_eq := h.children_eq

/-! ### Intervals -/

theorem Under.top_le (h : t.Under top id) (trailing : t.Trailing) : top ≤ id := by
  induction h with
  | self => exact Nat.le_refl _
  | child found parent_eq _ ih =>
    have less := trailing.upward (Option.map_eq_some_iff.mpr ⟨_, found, parent_eq⟩)
    exact Nat.le_trans ih (Nat.le_of_lt less)

theorem Under.between (h : t.Under top id) (trailing : t.Trailing) (after : top ≤ place)
    (before : place ≤ id) : t.Under top place := by
  induction id, before using Nat.le_induction with
  | base => exact h
  | succ last less ih =>
    refine ih ?_
    rcases h.eq_or_child with rfl | ⟨parent, child, above⟩
    · exact absurd (Nat.lt_of_lt_of_le (Nat.lt_succ_of_le less) after) (Nat.lt_irrefl _)
    · exact above.trans (trailing.attached child)

/-- What is below a node stands right behind it. -/
theorem Trailing.exists_stop (h : t.Trailing) {id : Nat} (present : id < t.size) :
    ∃ stop ≤ t.size, ∀ place : Nat, t.Under id place ↔ id ≤ place ∧ place < stop := by
  classical
  have past : id ≤ t.size ∧ ¬ t.Under id t.size :=
    ⟨Nat.le_of_lt present, fun below => Nat.lt_irrefl _ (below.lt_size present)⟩
  have ends : ∃ stop, id ≤ stop ∧ ¬ t.Under id stop := ⟨_, past⟩
  obtain ⟨begun, outside⟩ := Nat.find_spec ends
  refine ⟨Nat.find ends, Nat.find_le past, fun place => ⟨fun below => ⟨below.top_le h, ?_⟩, ?_⟩⟩
  · refine Nat.lt_of_not_le fun beyond => outside ?_
    exact below.between h begun beyond
  · rintro ⟨after, before⟩
    by_contra apart
    exact Nat.find_min ends before ⟨after, apart⟩

theorem edge_add (takes : t.Takes host) :
    (t.add (label.under host)).2.Edge (some t.size) := by
  rw [Edge, size_add t _ takes.thawed]
  exact ⟨Nat.lt_succ_self _, .self⟩

/-- What is above a node on the edge is on the edge. -/
theorem Edge.above (h : t.Edge (some id)) (trailing : t.Trailing) (below : t.Under top id) :
    t.Edge (some top) :=
  ⟨Nat.lt_of_le_of_lt (below.top_le trailing) h.1, below.trans h.2⟩

/-! ### Walks -/

/-- A walk that visits a node before its children: the places in the order of the walk, from a stack
of places that are still to be visited. -/
inductive Visits (t : Tree) : List NodeId → List NodeId → Prop where
  | done : Visits t [] []
  | visit {id : NodeId} {node : Node} {stack places : List NodeId} (found : t.node? id = some node)
      (rest : Visits t (node.children.toList ++ stack) places) :
      Visits t (id :: stack) (id :: places)

/-- The parent of the place, if it has one, comes before the start. -/
def isTop (t : Tree) (start : Nat) (id : NodeId) : Bool :=
  ((t.node? id).bind Node.parent).all fun parent => parent < start

theorem isTop_iff {start : NodeId} :
    t.isTop start id = true ↔ ∀ parent, t.HasParent id parent → parent < start := by
  simp only [isTop, Option.all_eq_true, Option.bind_eq_some_iff, decide_eq_true_eq, HasParent,
    Option.map_eq_some_iff]

variable {start count : Nat}

theorem HasParent.unique (h : t.HasParent id parent) (h' : t.HasParent id top) : parent = top :=
  Option.some.inj (Option.some.inj (h.symm.trans h'))

theorem Under.eq_of_isTop (h : t.Under start id) (trailing : t.Trailing)
    (first : t.isTop start id = true) : id = start := by
  rcases h.eq_or_child with same | ⟨parent, child, above⟩
  · exact same
  · have less := isTop_iff.mp first parent child
    exact absurd (above.top_le trailing) (Nat.not_le_of_lt less)

theorem pairwise_tops (t : Tree) (start first count : Nat) :
    ((List.range' first count).filter (t.isTop start)).Pairwise (· < ·) :=
  List.Pairwise.filter _ List.pairwise_lt_range'

/-- Behind the first place of an interval come its children, and then what was to come anyway. -/
theorem Trailing.tops_succ (h : t.Trailing)
    (closed : ∀ id : Nat, t.HasParent id start → id < start + 1 + count) :
    (List.range' (start + 1) count).filter (t.isTop (start + 1)) =
      t.childrenOf start ++ (List.range' (start + 1) count).filter (t.isTop start) := by
  -- Both lists are increasing, so it is enough that they have the same members.
  refine List.Pairwise.eq_of_mem_iff (r := (· < ·)) (t.pairwise_tops _ _ _) ?_ ?_
  · refine List.pairwise_append.mpr ⟨t.pairwise_childrenOf start, t.pairwise_tops _ _ _, ?_⟩
    intro child listed other member
    obtain ⟨inside, first⟩ := List.mem_filter.mp member
    have after : start < other := (List.mem_range'_1.mp inside).1
    have below := Under.child_of_hasParent (mem_childrenOf.mp listed)
    refine Nat.lt_of_not_le fun early => ?_
    have same := (below.between h (Nat.le_of_lt after) early).eq_of_isTop h first
    exact Nat.ne_of_gt after same
  · intro id
    simp only [List.mem_append, mem_childrenOf, List.mem_filter, List.mem_range'_1, isTop_iff]
    constructor
    · rintro ⟨inside, first⟩
      by_cases child : t.HasParent id start
      · exact .inl child
      · refine .inr ⟨inside, fun parent given => ?_⟩
        have other : parent ≠ start := by
          rintro rfl
          exact child given
        exact Nat.lt_of_le_of_ne (Nat.le_of_lt_succ (first parent given)) other
    · rintro (child | ⟨inside, first⟩)
      · refine ⟨⟨h.upward child, closed id child⟩, fun parent given => ?_⟩
        rw [given.unique child]
        exact Nat.lt_succ_self start
      · exact ⟨inside, fun parent given => Nat.lt_succ_of_lt (first parent given)⟩

/-- The places of an interval with everything below them are visited in turn. -/
theorem Trailing.visits_tops (h : t.Trailing) (present : start + count ≤ t.size)
    (closed : ∀ id parent : Nat, t.HasParent id parent → start ≤ parent → parent < start + count →
      id < start + count) :
    t.Visits ((List.range' start count).filter (t.isTop start)) (List.range' start count) := by
  induction count generalizing start with
  | zero => exact .done
  | succ count ih =>
    have stop : start + 1 + count = start + (count + 1) := by omega
    obtain ⟨node, found⟩ := lt_size_iff.mp (show start < t.size by omega)
    have first : t.isTop start start = true := isTop_iff.mpr fun _ => h.upward
    have children (id : Nat) (child : t.HasParent id start) : id < start + 1 + count := by
      rw [stop]
      exact closed id start child (Nat.le_refl _) (by omega)
    rw [List.range'_succ, List.filter_cons_of_pos first]
    refine .visit found ?_
    rw [h.children_eq found, ← h.tops_succ children]
    refine ih (by omega) fun id parent child begun ended => ?_
    rw [stop] at ended ⊢
    exact closed id parent child (by omega) ended

/-! ### The order of the places -/

/-- The places of a tree are its preorder. -/
structure Preordered (t : Tree) : Prop where
  /-- The first node is the only one without a parent. -/
  root {id : NodeId} {node : Node} : t.node? id = some node → (node.parent = none ↔ id = 0)
  upward {id parent : NodeId} : t.HasParent id parent → parent < id
  /-- A parent is there, and lists its child exactly once. -/
  listed {id parent : NodeId} : t.HasParent id parent →
    ∃ node, t.node? parent = some node ∧ node.children.toList.count id = 1
  owned {id : NodeId} {node : Node} : t.node? id = some node →
    ∀ child ∈ node.children.toList, t.HasParent child id
  increasing {id : NodeId} {node : Node} : t.node? id = some node →
    node.children.toList.Pairwise (· < ·)
  /-- What is below a node stands right behind it, in the order of a walk from there. -/
  interval {id : Nat} : id < t.size → ∃ stop ≤ t.size,
    (∀ place : Nat, t.Under id place ↔ id ≤ place ∧ place < stop) ∧
      t.Visits [id] (List.range' id (stop - id))
  whole : 0 < t.size → t.Visits [0] (List.range t.size)

theorem Trailing.under_root (h : t.Trailing) (present : id < t.size) : t.Under 0 id := by
  induction id using Nat.strongRecOn with
  | ind id ih =>
    obtain ⟨node, found⟩ := lt_size_iff.mp present
    cases parent_eq : node.parent with
    | none =>
      rw [(h.root found).mp parent_eq]
      exact .self
    | some parent =>
      have less := h.upward (Option.map_eq_some_iff.mpr ⟨node, found, parent_eq⟩)
      exact .child found parent_eq (ih parent less (Nat.lt_trans less present))

theorem Trailing.visits_interval (h : t.Trailing) {id stop : Nat} (le : stop ≤ t.size)
    (below : ∀ place : Nat, t.Under id place ↔ id ≤ place ∧ place < stop) :
    t.Visits [id] (List.range' id (stop - id)) := by
  have first := (below id).mp .self
  have alone : (List.range' id (stop - id)).filter (t.isTop id) = [id] := by
    refine List.Pairwise.eq_of_mem_iff (r := (· < ·)) (t.pairwise_tops _ _ _)
      (List.pairwise_singleton _ _) fun place => ?_
    rw [List.mem_filter, List.mem_range'_1, List.mem_singleton]
    constructor
    · rintro ⟨⟨after, before⟩, top⟩
      exact ((below place).mpr ⟨after, by omega⟩).eq_of_isTop h top
    · rintro rfl
      exact ⟨⟨Nat.le_refl _, by omega⟩, isTop_iff.mpr fun _ => h.upward⟩
  rw [← alone]
  refine h.visits_tops (by omega) fun child parent given begun ended => ?_
  have inside := (below parent).mpr ⟨begun, by omega⟩
  have further := (below child).mp (inside.trans (Under.child_of_hasParent given))
  omega

/-- A tree that grew on its edge has its nodes in preorder. -/
theorem Trailing.preordered (h : t.Trailing) : t.Preordered where
  root := h.root
  upward := h.upward
  listed := by
    intro id parent child
    obtain ⟨node, found⟩ := lt_size_iff.mp (Nat.lt_trans (h.upward child) child.lt_size)
    refine ⟨node, found, ?_⟩
    rw [h.children_eq found]
    exact List.count_eq_one_of_mem (t.pairwise_childrenOf parent).nodup (mem_childrenOf.mpr child)
  owned := by
    intro id node found child member
    rw [h.children_eq found] at member
    exact mem_childrenOf.mp member
  increasing := by
    intro id node found
    rw [h.children_eq found]
    exact t.pairwise_childrenOf id
  interval := by
    intro id present
    obtain ⟨stop, le, below⟩ := h.exists_stop present
    exact ⟨stop, le, below, h.visits_interval le below⟩
  whole := by
    intro positive
    have all (place : Nat) : t.Under 0 place ↔ 0 ≤ place ∧ place < t.size :=
      ⟨fun below => ⟨Nat.zero_le _, below.lt_size positive⟩, fun inside => h.under_root inside.2⟩
    rw [List.range_eq_range']
    exact h.visits_interval (Nat.le_refl _) all

end Tree

end SentenceGen
