import Mathlib.Data.Finset.Card
import SentenceGen.Proofs.Ancestry
import SentenceGen.Proofs.Preorder

/-!
# Additions that fail

A node goes into the arena before its parent is looked up, so a node whose parent is not there yet
stays when its addition fails.  Such a node is stranded: its parent comes later, if at all, and does
not list it.  All other nodes are linked as they should be, but a stranded node can end up below
itself, and from there the way up has no end.
-/

namespace SentenceGen

/-- A node that is to be added, under a parent if it names one. -/
structure Addition where
  label : Label
  parent : Option NodeId

namespace Addition

def node (a : Addition) : Node := a.label.under a.parent

/-- No node names itself as its parent. -/
def Apart (additions : List Addition) : Prop :=
  ∀ (id : NodeId) (a : Addition), additions[id]? = some a → a.parent ≠ some id

theorem Apart.earlier {additions : List Addition} {a : Addition} (h : Apart (additions ++ [a])) :
    Apart additions := by
  intro id other found
  refine h id other ?_
  rw [List.getElem?_append_left (List.getElem?_eq_some_iff.mp found).1, found]

theorem Apart.last {additions : List Addition} {a : Addition} (h : Apart (additions ++ [a])) :
    a.parent ≠ some additions.length :=
  h additions.length a List.getElem?_concat_length

end Addition

namespace Tree

/-- The tree after some additions, each made whether or not the ones before it failed. -/
def after (additions : List Addition) : Tree :=
  additions.foldl (fun t a => (t.add a.node).2) {}

/-- The node names a parent that was not there when the node was added. -/
def Stranded (t : Tree) (id : NodeId) : Prop := ∃ parent, t.HasParent id parent ∧ id < parent

/-- The node is below itself. -/
def Revolves (t : Tree) (id : NodeId) : Prop :=
  ∃ parent, t.HasParent id parent ∧ t.Under id parent

/-- How the way up from a place ends: with all the nodes above it, or where there is no node. -/
inductive Climbs (t : Tree) : NodeId → Except Fault (List NodeId) → Prop where
  | top {id : NodeId} {node : Node} (found : t.node? id = some node)
      (parentless : node.parent = none) : Climbs t id (.ok [])
  | up {id parent : NodeId} {result : Except Fault (List NodeId)} (child : t.HasParent id parent)
      (rest : Climbs t parent result) : Climbs t id (result.map (parent :: ·))
  | lost {id : NodeId} (missing : t.node? id = none) : Climbs t id (.error (noPlace id))

/-- The links of a tree are as they should be, stranded nodes apart. -/
structure Attached (t : Tree) : Prop where
  listed {id parent : NodeId} : t.HasParent id parent → ¬ t.Stranded id →
    ∃ node, t.node? parent = some node ∧ node.children.toList.count id = 1
  owned {id : NodeId} {node : Node} : t.node? id = some node →
    ∀ child ∈ node.children.toList, t.HasParent child id ∧ ¬ t.Stranded child
  /-- On every cycle there is a stranded node. -/
  cyclic {id : NodeId} : t.Revolves id →
    ∃ place, t.Stranded place ∧ t.Under place id ∧ t.Under id place
  /-- The way up has an end unless it leads to a stranded node that is below itself. -/
  ends {id : NodeId} : id < t.size →
    ((∃ result, t.Climbs id result ∧ t.ancestors id = result) ↔
      ∀ place, t.Stranded place → t.Under place id → ¬ t.Revolves place)

variable {t : Tree} {id top place parent : NodeId} {host : Option NodeId} {label : Label}

/-! ### Children -/

/-- Of the nodes that name a node as their parent, it lists those that came after it. -/
structure ListsLater (t : Tree) : Prop where
  thawed : t.frozen = false
  children_eq {id : NodeId} {node : Node} : t.node? id = some node →
    node.children.toList = (t.childrenOf id).filter fun child => id < child

theorem ListsLater.add (h : t.ListsLater) (apart : host ≠ some t.size) :
    (t.add (label.under host)).2.ListsLater where
  thawed := by rw [frozen_add, h.thawed]
  children_eq := by
    intro id node found
    rw [node?_add_of_ne h.thawed apart] at found
    rw [childrenOf_add h.thawed apart, List.filter_append]
    by_cases last : id = t.size
    · obtain rfl : label.under host = node := by simpa [last] using found
      have none_later : (t.childrenOf id).filter (fun child => id < child) = [] := by
        refine List.filter_eq_nil_iff.mpr fun child listed => ?_
        have before := (mem_childrenOf.mp listed).lt_size
        simpa [last] using Nat.le_of_lt before
      rw [none_later, last, linkedTo_of_ne apart]
      rfl
    · rw [if_neg last] at found
      obtain ⟨old, was, rfl⟩ := Option.map_eq_some_iff.mp found
      have later : ∀ child ∈ linkedTo host [t.size] id, id < child := by
        intro child listed
        rw [List.mem_singleton.mp (mem_linkedTo.mp listed).2]
        exact lt_size_of_node? was
      have all : (linkedTo host [t.size] id).filter (fun child => id < child) =
          linkedTo host [t.size] id :=
        List.filter_eq_self.mpr fun child listed => decide_eq_true (later child listed)
      rw [all, Node.children_adopt, h.children_eq was]
      rfl

theorem ListsLater.mem_children (h : t.ListsLater) {node : Node} (found : t.node? id = some node)
    {child : NodeId} : child ∈ node.children.toList ↔ t.HasParent child id ∧ id < child := by
  rw [h.children_eq found, List.mem_filter, mem_childrenOf, decide_eq_true_iff]

theorem ListsLater.nodup_children (h : t.ListsLater) {node : Node}
    (found : t.node? id = some node) : node.children.toList.Nodup := by
  rw [h.children_eq found]
  exact (t.pairwise_childrenOf id).nodup.filter _

/-! ### Runs of additions -/

theorem after_concat (additions : List Addition) (a : Addition) :
    after (additions ++ [a]) = ((after additions).add a.node).2 :=
  List.foldl_concat ..

@[simp] theorem frozen_after (additions : List Addition) : (after additions).frozen = false := by
  induction additions using List.reverseRecOn with
  | nil => rfl
  | append_singleton earlier a ih => rw [after_concat, frozen_add, ih]

@[simp] theorem size_after (additions : List Addition) :
    (after additions).size = additions.length := by
  induction additions using List.reverseRecOn with
  | nil => rfl
  | append_singleton earlier a ih =>
    rw [after_concat, size_add _ _ (frozen_after earlier), ih, List.length_append,
      List.length_singleton]

theorem listsLater_after {additions : List Addition} (apart : Addition.Apart additions) :
    (after additions).ListsLater := by
  induction additions using List.reverseRecOn with
  | nil => exact ⟨rfl, nofun⟩
  | append_singleton earlier a ih =>
    rw [after_concat]
    exact (ih apart.earlier).add (by simpa using apart.last)

theorem hasParent_after {additions : List Addition} (apart : Addition.Apart additions) :
    (after additions).HasParent id parent ↔
      ∃ a, additions[id]? = some a ∧ a.parent = some parent := by
  induction additions using List.reverseRecOn with
  | nil => exact ⟨nofun, nofun⟩
  | append_singleton earlier a ih =>
    have fresh : a.parent ≠ some (after earlier).size := by simpa using apart.last
    rw [after_concat, Addition.node, hasParent_add (frozen_after earlier) fresh, size_after,
      ih apart.earlier]
    constructor
    · rintro (⟨rfl, given⟩ | ⟨other, found, given⟩)
      · exact ⟨a, List.getElem?_concat_length, given⟩
      · have inside := (List.getElem?_eq_some_iff.mp found).1
        exact ⟨other, by rw [List.getElem?_append_left inside, found], given⟩
    · rintro ⟨other, found, given⟩
      by_cases last : id = earlier.length
      · subst last
        rw [List.getElem?_concat_length] at found
        cases found
        exact .inl ⟨rfl, given⟩
      · have inside := (List.getElem?_eq_some_iff.mp found).1
        rw [List.length_append, List.length_singleton] at inside
        have before := Nat.lt_of_le_of_ne (Nat.le_of_lt_succ inside) last
        rw [List.getElem?_append_left before] at found
        exact .inr ⟨other, found, given⟩

/-- An addition fails if its parent is not there, and then leaves the node behind. -/
theorem add_of_lt {node : Node} (thawed : t.frozen = false) (given : node.parent = some parent)
    (beyond : t.size < parent) : t.add node = (.error (noPlace parent), t.push node) := by
  have missing : ¬ parent < t.size + 1 := Nat.not_lt_of_le beyond
  simp [Tree.add, thawed, given, missing]

/-! ### Cycles -/

theorem Under.parent_of_ne (h : t.Under top id) (other : id ≠ top)
    (child : t.HasParent id parent) : t.Under top parent := by
  rcases h.eq_or_child with same | ⟨next, childToo, above⟩
  · exact absurd same other
  · rwa [child.unique childToo]

theorem Under.step (h : t.Under top parent) (child : t.HasParent id parent) : t.Under top id :=
  h.trans (.child_of_hasParent child)

/-- What is on one cycle with a node is below itself too. -/
theorem Revolves.of_under (h : t.Revolves id) (above : t.Under place id)
    (below : t.Under id place) : t.Revolves place := by
  rcases below.eq_or_child with rfl | ⟨parent, child, further⟩
  · exact h
  · exact ⟨parent, child, above.trans further⟩

/-- The way down goes to later places as long as no node on it is stranded. -/
theorem Under.le_or_stranded (h : t.Under top id) :
    top ≤ id ∨ ∃ place, t.Stranded place ∧ t.Under top place ∧ t.Under place id := by
  induction h with
  | self => exact .inl (Nat.le_refl _)
  | @child id parent node found parent_eq above ih =>
    have child : t.HasParent id parent := Option.map_eq_some_iff.mpr ⟨node, found, parent_eq⟩
    rcases ih with le | ⟨place, stranded, under, further⟩
    · rcases Nat.lt_or_ge id parent with later | earlier
      · exact .inr ⟨id, ⟨parent, child, later⟩, above.step child, .self⟩
      · exact .inl (Nat.le_trans le earlier)
    · exact .inr ⟨place, stranded, under, further.step child⟩

theorem exists_stranded (apart : ∀ id, ¬ t.HasParent id id) (h : t.Revolves id) :
    ∃ place, t.Stranded place ∧ t.Under place id ∧ t.Under id place := by
  obtain ⟨parent, child, under⟩ := h
  rcases under.le_or_stranded with le | ⟨place, stranded, below, above⟩
  · have other : id ≠ parent := by
      rintro rfl
      exact apart id child
    exact ⟨id, ⟨parent, child, Nat.lt_of_le_of_ne le other⟩, .self, .self⟩
  · exact ⟨place, stranded, above.step child, below⟩

/-! ### The way up -/

theorem not_revolves_of_parentless (parentless : ∀ parent, ¬ t.HasParent id parent)
    (above : t.Under place id) : ¬ t.Revolves place := by
  rcases above.eq_or_child with rfl | ⟨parent, child, _⟩
  · rintro ⟨parent, child, _⟩
    exact parentless parent child
  · exact absurd child (parentless parent)

/-- Where the way up ends there is no cycle above. -/
theorem Climbs.not_revolves {result : Except Fault (List NodeId)} (h : t.Climbs id result)
    (above : t.Under place id) : ¬ t.Revolves place := by
  induction h with
  | @top id node found parentless =>
    exact not_revolves_of_parentless (fun parent => by simp [HasParent, found, parentless]) above
  | @lost id missing =>
    exact not_revolves_of_parentless (fun parent => by simp [HasParent, missing]) above
  | @up id parent result child rest ih =>
    by_cases same : id = place
    · subst same
      rintro ⟨next, childToo, under⟩
      rw [← child.unique childToo] at under
      exact ih under ⟨parent, child, under⟩
    · exact ih (above.parent_of_ne same child)

open Classical in
/-- The places on the way up, the start included. -/
noncomputable def above (t : Tree) (id : NodeId) : Finset NodeId :=
  (Finset.range t.size).filter fun place => t.Under place id

theorem mem_above : place ∈ t.above id ↔ place < t.size ∧ t.Under place id := by
  simp [above]

theorem card_above_le (t : Tree) (id : NodeId) : (t.above id).card ≤ t.size := by
  have inside : t.above id ⊆ Finset.range t.size :=
    fun place member => Finset.mem_range.mpr (mem_above.mp member).1
  have fewer := Finset.card_le_card inside
  rwa [Finset.card_range] at fewer

/-- Going up, a node that is not on a cycle is left behind. -/
theorem card_above_lt (child : t.HasParent id parent) (still : ¬ t.Revolves id) :
    (t.above parent).card < (t.above id).card := by
  refine Finset.card_lt_card (Finset.ssubset_iff_of_subset ?_ |>.mpr ⟨id, ?_, ?_⟩)
  · intro place member
    obtain ⟨present, under⟩ := mem_above.mp member
    exact mem_above.mpr ⟨present, under.step child⟩
  · exact mem_above.mpr ⟨child.lt_size, .self⟩
  · intro member
    exact still ⟨parent, child, (mem_above.mp member).2⟩

/-- Where there is no cycle above, the way up ends, and the search goes as far as it ends. -/
theorem exists_climbs (still : ∀ place, t.Under place id → ¬ t.Revolves place) :
    ∃ result, t.Climbs id result ∧
      ∀ fuel, (t.above id).card ≤ fuel → t.ancestorsFrom (fuel + 1) id = result := by
  -- The way up gets shorter with each step, since it never comes back to where it was.
  induction left : (t.above id).card using Nat.strongRecOn generalizing id with
  | ind count ih =>
    cases found : t.node? id with
    | none =>
      refine ⟨_, .lost found, fun fuel _ => ?_⟩
      simp only [ancestorsFrom, record, found, bind, Except.bind]
    | some node =>
      cases parent_eq : node.parent with
      | none =>
        refine ⟨_, .top found parent_eq, fun fuel _ => ?_⟩
        simp only [ancestorsFrom, record_of_node? found, bind, Except.bind, parent_eq]
        rfl
      | some parent =>
        have child : t.HasParent id parent :=
          Option.map_eq_some_iff.mpr ⟨node, found, parent_eq⟩
        have fewer : (t.above parent).card < count := left ▸ card_above_lt child (still id .self)
        obtain ⟨result, climbs, reached⟩ := ih _ fewer
          (fun place under => still place (under.step child)) rfl
        refine ⟨_, .up child climbs, fun fuel enough => ?_⟩
        obtain ⟨fuel, rfl⟩ := Nat.exists_eq_add_one_of_ne_zero (by omega : fuel ≠ 0)
        have further := reached fuel (by omega)
        rw [ancestorsFrom]
        simp only [record_of_node? found, bind, Except.bind, parent_eq, further]
        cases result <;> rfl

/-! ### What failed additions leave -/

theorem ListsLater.attached (h : t.ListsLater) (apart : ∀ id, ¬ t.HasParent id id) :
    t.Attached where
  listed := by
    intro id parent child tied
    have before : parent < id := by
      refine Nat.lt_of_le_of_ne (Nat.le_of_not_lt fun later => tied ⟨parent, child, later⟩) ?_
      rintro rfl
      exact apart _ child
    obtain ⟨node, found⟩ := lt_size_iff.mp (Nat.lt_trans before child.lt_size)
    exact ⟨node, found, List.count_eq_one_of_mem (h.nodup_children found)
      ((h.mem_children found).mpr ⟨child, before⟩)⟩
  owned := by
    intro id node found child member
    obtain ⟨hasParent, before⟩ := (h.mem_children found).mp member
    refine ⟨hasParent, ?_⟩
    rintro ⟨parent, childToo, later⟩
    rw [← hasParent.unique childToo] at later
    exact Nat.lt_asymm before later
  cyclic := exists_stranded apart
  ends := by
    intro id present
    constructor
    · rintro ⟨result, climbs, _⟩ place _ above
      exact climbs.not_revolves above
    · intro still
      have calm : ∀ place, t.Under place id → ¬ t.Revolves place := by
        intro place above revolves
        obtain ⟨other, stranded, under, below⟩ := exists_stranded apart revolves
        exact still other stranded (under.trans above) (revolves.of_under under below)
      obtain ⟨result, climbs, reached⟩ := exists_climbs calm
      exact ⟨result, climbs, reached t.size (t.card_above_le id)⟩

/-- An addition gives the place of its node, or it fails because the parent is not there, and then
it leaves a stranded node in a tree that is otherwise as it was.  However the additions went, the
links are as they should be, stranded nodes apart. -/
theorem attached_after {additions : List Addition} (apart : Addition.Apart additions) :
    (after additions).Attached ∧
      ∀ earlier a later, additions = earlier ++ a :: later →
        ((after earlier).add a.node).1 = .ok earlier.length ∧
            ¬ (after additions).Stranded earlier.length ∨
          ∃ parent, (after earlier).add a.node =
              (.error (noPlace parent), (after earlier).push a.node) ∧
            (after additions).HasParent earlier.length parent ∧ earlier.length < parent := by
  constructor
  · refine (listsLater_after apart).attached fun id own => ?_
    obtain ⟨a, found, given⟩ := (hasParent_after apart).mp own
    exact apart id a found given
  · rintro earlier a later rfl
    have thawed := frozen_after earlier
    have found : (earlier ++ a :: later)[earlier.length]? = some a := by simp
    have hasParent {parent : NodeId} :
        (after (earlier ++ a :: later)).HasParent earlier.length parent ↔
          a.parent = some parent := by
      simp [hasParent_after apart]
    by_cases failed : ∃ parent, a.parent = some parent ∧ earlier.length < parent
    · obtain ⟨parent, given, beyond⟩ := failed
      have late : (after earlier).size < parent := by rwa [size_after]
      have given : a.node.parent = some parent := given
      exact .inr ⟨parent, add_of_lt thawed given late, hasParent.mpr given, beyond⟩
    · have takes : (after earlier).Takes a.node.parent := by
        refine ⟨thawed, fun parent given => ?_⟩
        have other : parent ≠ earlier.length := by
          rintro rfl
          exact apart _ a found given
        rw [size_after]
        exact Nat.lt_of_le_of_ne (Nat.le_of_not_lt fun beyond => failed ⟨parent, given, beyond⟩)
          other
      refine .inl ⟨by rw [add_eq takes, size_after], ?_⟩
      rintro ⟨parent, child, beyond⟩
      exact failed ⟨parent, hasParent.mp child, beyond⟩

/-- The first node names the second as its parent, and the second names the first. -/
def crossed : List Addition :=
  [⟨{ kind := .sequence }, some 1⟩, ⟨{ kind := .sequence }, some 0⟩,
    ⟨{ kind := .literal, text := "x" }, some 1⟩]

theorem apart_crossed : Addition.Apart crossed := by
  intro id a found
  match id, found with
  | 0, found | 1, found | 2, found =>
    cases found
    decide

theorem revolves_crossed : (after crossed).Revolves 0 :=
  ⟨1, by decide, .child_of_hasParent (by decide)⟩

/-- Attached as it is, the tree has a stranded node on a cycle. -/
theorem crossed_attached :
    Addition.Apart crossed ∧ (after crossed).Attached ∧ (after crossed).Stranded 0 ∧
      (after crossed).Revolves 0 := by
  have attached := (attached_after apart_crossed).1
  exact ⟨apart_crossed, attached, ⟨1, by decide, by decide⟩, revolves_crossed⟩

/-- The first addition fails and yet its node stays.  Its parent comes and does not list it, and a
further node, although it was added as it should be, has no end of nodes above it. -/
theorem crossed_unsound :
    (∃ t, ({} : Tree).add (Label.under { kind := .sequence } (some 1)) =
        (.error (.indexOutOfRange "list"), t) ∧ t.size = 1) ∧
      (after crossed).HasParent 0 1 ∧
      ((after crossed).node? 1).map (·.children.toList) = some [2] ∧
      (after crossed).Revolves 0 ∧ ¬ ∃ result, (after crossed).Climbs 2 result := by
  refine ⟨⟨_, rfl, rfl⟩, by decide, by decide, revolves_crossed, ?_⟩
  rintro ⟨result, climbs⟩
  have below : (after crossed).Under 0 1 := .child_of_hasParent (by decide)
  exact climbs.not_revolves (below.step (by decide)) revolves_crossed

end Tree

end SentenceGen
