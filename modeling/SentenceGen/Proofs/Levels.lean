import SentenceGen.Proofs.Observation

/-!
# Levels

The root is at level one, and every other node one level below its parent.  Depth counts the calls
that are going on, so no node that a call adds lies deeper than the call; only what a callback
writes may lie one level further down.  A callback that uses a context further out adds nodes higher
up.
-/

namespace SentenceGen

namespace Tree

/-- The later tree has the nodes of the earlier one, each under the same parent. -/
def Keeps (t t' : Tree) : Prop :=
  ∀ ⦃id : NodeId⦄ ⦃node : Node⦄, t.node? id = some node →
    ∃ later, t'.node? id = some later ∧ later.parent = node.parent

variable {t t' t'' : Tree}

theorem keeps_refl (t : Tree) : t.Keeps t := fun _ node found => ⟨node, found, rfl⟩

theorem Keeps.trans (h : t.Keeps t') (h' : t'.Keeps t'') : t.Keeps t'' := by
  intro id node found
  obtain ⟨later, foundLater, parent_eq⟩ := h found
  obtain ⟨last, foundLast, parent_eq'⟩ := h' foundLater
  exact ⟨last, foundLast, parent_eq'.trans parent_eq⟩

theorem Keeps.size_le (h : t.Keeps t') : t.size ≤ t'.size := by
  apply Nat.le_of_not_lt
  intro less
  obtain ⟨node, found⟩ := lt_size_iff.mp less
  obtain ⟨later, foundLater, _⟩ := h found
  exact Nat.lt_irrefl _ (lt_size_of_node? foundLater)

theorem keeps_of_nodes_eq (same : t'.nodes = t.nodes) : t.Keeps t' := by
  intro id node found
  refine ⟨node, ?_, rfl⟩
  rw [node?, same]
  exact found

theorem keeps_push (t : Tree) (node : Node) : t.Keeps (t.push node) := by
  intro id old found
  have other : id ≠ t.nodes.size := Nat.ne_of_lt (lt_size_of_node? found)
  refine ⟨old, ?_, rfl⟩
  rw [node?, push, Array.getElem?_push, if_neg other]
  exact found

theorem keeps_link (t : Tree) (parent child : NodeId) : t.Keeps (t.link parent child) := by
  intro id old found
  have found : t.nodes[id]? = some old := found
  by_cases same : parent = id
  · refine ⟨{ old with children := old.children.push child }, ?_, rfl⟩
    simp [node?, link, Array.getElem?_modify, same, found]
  · refine ⟨old, ?_, rfl⟩
    simp [node?, link, Array.getElem?_modify, same, found]

theorem keeps_add (t : Tree) (node : Node) : t.Keeps (t.add node).2 := by
  unfold add
  split
  · exact keeps_refl t
  · cases node.parent with
    | none => exact keeps_push t node
    | some parent =>
      simp only
      split
      · exact (keeps_push t node).trans (keeps_link _ parent t.size)
      · exact keeps_push t node

inductive Level (t : Tree) : NodeId → Nat → Prop where
  | root {id : NodeId} {node : Node} (found : t.node? id = some node)
      (parent_eq : node.parent = none) : Level t id 1
  | child {id parent : NodeId} {node : Node} {n : Nat} (found : t.node? id = some node)
      (parent_eq : node.parent = some parent) (above : Level t parent n) : Level t id (n + 1)

theorem Level.lt_size {id : NodeId} {n : Nat} (h : t.Level id n) : id < t.size := by
  cases h with
  | root found _ => exact lt_size_of_node? found
  | child found _ _ => exact lt_size_of_node? found

theorem Level.unique {id : NodeId} {m n : Nat} (h : t.Level id m) (h' : t.Level id n) :
    m = n := by
  induction h generalizing n with
  | root found parent_eq =>
    cases h' with
    | root => rfl
    | child found' parent_eq' _ =>
      cases found.symm.trans found'
      cases parent_eq.symm.trans parent_eq'
  | child found parent_eq _ ih =>
    cases h' with
    | root found' parent_eq' =>
      cases found.symm.trans found'
      cases parent_eq.symm.trans parent_eq'
    | child found' parent_eq' above' =>
      cases found.symm.trans found'
      cases parent_eq.symm.trans parent_eq'
      rw [ih above']

theorem Level.of_keeps {id : NodeId} {n : Nat} (h : t.Level id n) (kept : t.Keeps t') :
    t'.Level id n := by
  induction h with
  | root found parent_eq =>
    obtain ⟨later, foundLater, same⟩ := kept found
    exact .root foundLater (same.trans parent_eq)
  | child found parent_eq _ ih =>
    obtain ⟨later, foundLater, same⟩ := kept found
    exact .child foundLater (same.trans parent_eq) ih

/-- The level of a parent, zero if there is none. -/
def Above (t : Tree) (parent : Option NodeId) (n : Nat) : Prop :=
  match parent with
  | none => n = 0
  | some id => t.Level id n

theorem Above.of_keeps {parent : Option NodeId} {n : Nat} (h : t.Above parent n)
    (kept : t.Keeps t') : t'.Above parent n := by
  cases parent with
  | none => exact h
  | some id => exact Level.of_keeps h kept

theorem Above.takes {parent : Option NodeId} {n : Nat} (h : t.Above parent n)
    (thawed : t.frozen = false) : t.Takes parent where
  thawed := thawed
  parent_lt := by
    rintro id rfl
    exact Level.lt_size h

/-- A node is one level below its parent, and at the first level without one. -/
theorem level_of_above {id : NodeId} {parent : Option NodeId} {n : Nat}
    (below : (t.node? id).map Node.parent = some parent) (above : t.Above parent n) :
    t.Level id (n + 1) := by
  obtain ⟨node, found, rfl⟩ := Option.map_eq_some_iff.mp below
  cases parent_eq : node.parent with
  | none =>
    rw [parent_eq] at above
    obtain rfl : n = 0 := above
    exact .root found parent_eq
  | some parent =>
    rw [parent_eq] at above
    exact .child found parent_eq above

theorem level_add {parent : Option NodeId} {n : Nat} (h : t.Above parent n)
    (thawed : t.frozen = false) (label : Label) :
    (t.add (label.under parent)).2.Level t.size (n + 1) := by
  have found : (t.add (label.under parent)).2.node? t.size = some (label.under parent) :=
    node?_add_self (h.takes thawed)
  apply level_of_above
  · rw [found]
    rfl
  · exact h.of_keeps (keeps_add t _)

end Tree

namespace Expand

variable {σ κ α : Type}

/-! ### What a call leaves as it was -/

/-- What holds between the start and the end of every observed call, completed or not. -/
structure Passed (s t : Expansion (Observed σ) (κ × List NodeId)) : Prop where
  depth_eq : t.depth = s.depth
  productions_eq : t.productions = s.productions
  live_eq : t.live = s.live
  frozen_eq : t.tree.frozen = s.tree.frozen
  kept : s.tree.Keeps t.tree
  /-- Nodes are marked when they are added, or never. -/
  marks : ∀ id : Nat, id ∈ t.user.2 → id ∈ s.user.2 ∨ s.tree.size ≤ id ∧ id < t.tree.size
  size_le : s.size ≤ t.size
  asked : s.source.questions <+: t.source.questions

theorem passed_refl (s : Expansion (Observed σ) (κ × List NodeId)) : Passed s s where
  depth_eq := rfl
  productions_eq := rfl
  live_eq := rfl
  frozen_eq := rfl
  kept := Tree.keeps_refl _
  marks _ marked := .inl marked
  size_le := Nat.le_refl _
  asked := List.prefix_rfl

theorem Passed.trans {s t u : Expansion (Observed σ) (κ × List NodeId)} (first : Passed s t)
    (second : Passed t u) : Passed s u where
  depth_eq := second.depth_eq.trans first.depth_eq
  productions_eq := second.productions_eq.trans first.productions_eq
  live_eq := second.live_eq.trans first.live_eq
  frozen_eq := second.frozen_eq.trans first.frozen_eq
  kept := first.kept.trans second.kept
  marks id marked := by
    have grown := first.kept.size_le
    have grownOn := second.kept.size_le
    rcases second.marks id marked with before | added
    · rcases first.marks id before with old | between
      · exact .inl old
      · exact .inr ⟨between.1, by omega⟩
    · exact .inr ⟨by omega, added.2⟩
  size_le := Nat.le_trans first.size_le second.size_le
  asked := first.asked.trans second.asked

theorem Passed.marking {s t : Expansion (Observed σ) (κ × List NodeId)} (h : Passed s t) :
    Passed s (marking s t) :=
  { h with
    marks := by
      intro id marked
      have grown := h.kept.size_le
      have marked : id ∈ t.user.2 ++ List.range' s.tree.size (t.tree.size - s.tree.size) := marked
      rcases List.mem_append.mp marked with before | added
      · exact h.marks id before
      · have place := List.mem_range'_1.mp added
        exact .inr ⟨place.1, by simp only [Expand.marking]; omega⟩ }

theorem passed_record (rule : Rule) (s : Expansion (Observed σ) (κ × List NodeId)) :
    Passed s { s with source := { s.source with calls := s.source.calls ++ [rule] } } :=
  { passed_refl s with }

/-! ### Levels and depth -/

variable {plan : Plan κ}

/-- The depth cutoff admits a level. -/
def Admitted (plan : Plan κ) (n : Nat) : Prop := ∀ cutoff ∈ plan.maxDepth, cutoff.admits n = true

theorem Admitted.mono {m n : Nat} (h : Admitted plan n) (le : m ≤ n) : Admitted plan m :=
  fun cutoff given => Cutoff.admits_mono (h cutoff given) le

theorem levelOutcome_eq_ok {depth : Nat} {productions : List String} :
    levelOutcome plan depth productions = .ok () ↔ Admitted plan depth := by
  unfold levelOutcome Admitted
  cases plan.maxDepth with
  | none => simp
  | some cutoff =>
    by_cases admitted : cutoff.admits depth = true
    · simp [admitted]
    · simp [admitted]

/-- Open contexts lie no deeper than the call that goes on, and marked nodes apart every node is at
a level that the cutoff admits. -/
structure Levelled (plan : Plan κ) (s : Expansion (Observed σ) (κ × List NodeId)) : Prop where
  thawed : s.tree.frozen = false
  contexts : ∀ context ∈ s.live, ∃ n ≤ s.depth, s.tree.Level context.node n
  nodes : ∀ id < s.tree.size, ∃ n, s.tree.Level id n ∧ (id ∈ s.user.2 ∨ Admitted plan n)

variable {s t u : Expansion (Observed σ) (κ × List NodeId)} {parent : Option NodeId} {n : Nat}

/-- A node is added that is marked or at an admitted level. -/
theorem Levelled.add (h : Levelled plan s) (above : s.tree.Above parent n) (label : Label)
    (user : κ) {marks : List NodeId} (more : ∀ id ∈ s.user.2, id ∈ marks)
    (placed : s.tree.size ∈ marks ∨ Admitted plan (n + 1)) :
    Levelled plan
      { s with tree := (s.tree.add (label.under parent)).2, user := (user, marks) } where
  thawed := by rw [Tree.frozen_add, h.thawed]
  contexts context live := by
    obtain ⟨level, le, old⟩ := h.contexts context live
    exact ⟨level, le, old.of_keeps (Tree.keeps_add _ _)⟩
  nodes id present := by
    rw [Tree.size_add _ _ h.thawed] at present
    rcases Nat.lt_succ_iff_lt_or_eq.mp present with before | rfl
    · obtain ⟨level, old, admitted⟩ := h.nodes id before
      exact ⟨level, old.of_keeps (Tree.keeps_add _ _), admitted.imp_left (more id)⟩
    · exact ⟨n + 1, Tree.level_add above h.thawed label, placed⟩

/-- The counters are taken back at the end. -/
theorem Levelled.leave (h : Levelled plan s) (inside : Levelled plan t) (passed : Passed s u)
    (tree_eq : u.tree = t.tree) (user_eq : u.user = t.user) : Levelled plan u where
  thawed := by rw [tree_eq, inside.thawed]
  contexts context live := by
    rw [passed.live_eq] at live
    obtain ⟨level, le, old⟩ := h.contexts context live
    exact ⟨level, by rw [passed.depth_eq]; exact le, old.of_keeps passed.kept⟩
  nodes := by
    rw [tree_eq, user_eq]
    exact inside.nodes

theorem Levelled.mark (h : Levelled plan s) (user : κ) {marks : List NodeId}
    (more : ∀ id ∈ s.user.2, id ∈ marks) : Levelled plan { s with user := (user, marks) } where
  thawed := h.thawed
  contexts := h.contexts
  nodes id present := by
    obtain ⟨level, old, admitted⟩ := h.nodes id present
    exact ⟨level, old, admitted.imp_left (more id)⟩

/-- What a callback writes is marked, so it may lie deeper than the cutoff admits. -/
theorem Levelled.written (h : Levelled plan s) (target : Context) (text : Datum) :
    Levelled plan (marking s ((writeTo plan.observed target text).exec s).2) := by
  have unchanged : Levelled plan (marking s s) :=
    h.mark s.user.1 fun id marked => List.mem_append_left _ marked
  rw [exec_writeTo]
  by_cases live : s.live.contains target = true
  · rw [if_pos live]
    cases text with
    | str text =>
      obtain ⟨level, _, above⟩ := h.contexts target (List.contains_iff_mem.mp live)
      have above : s.tree.Above (some target.node) level := above
      obtain ⟨chunks, size, left⟩ := exec_leaf_left plan.observed
        { kind := .literal, text } (some target.node) s
      have added := Tree.size_add s.tree
        (Label.under { kind := .literal, text } (some target.node)) h.thawed
      have claimed : s.tree.size ∈ (marking s { s with tree := (s.tree.add
          (Label.under { kind := .literal, text } (some target.node))).2 }).user.2 := by
        refine List.mem_append_right _ (List.mem_range'_1.mpr ⟨Nat.le_refl _, ?_⟩)
        simp only [added]
        omega
      have grown := h.add above { kind := .literal, text } s.user.1
        (fun id marked => List.mem_append_left _ marked) (.inl claimed)
      simp only [left]
      exact ⟨grown.thawed, grown.contexts, grown.nodes⟩
    | _ => exact unchanged
  · rw [if_neg live]
    exact unchanged

/-- A call is made at a depth that is at least the level of its parent. -/
def CallReady (parent : Option NodeId) (s : Expansion (Observed σ) (κ × List NodeId)) : Prop :=
  ∃ n ≤ s.depth, s.tree.Above parent n

/-- Once the call is counted it is deeper than its parent, and admitted. -/
def StepReady (plan : Plan κ) (parent : Option NodeId)
    (s : Expansion (Observed σ) (κ × List NodeId)) : Prop :=
  (∃ n < s.depth, s.tree.Above parent n) ∧ Admitted plan s.depth

theorem CallReady.passed (h : CallReady parent s) (passed : Passed s t) : CallReady parent t := by
  obtain ⟨n, le, above⟩ := h
  exact ⟨n, by rw [passed.depth_eq]; exact le, above.of_keeps passed.kept⟩

theorem Levelled.step (h : Levelled plan s) (ready : StepReady plan parent s) (label : Label) :
    Levelled plan { s with tree := (s.tree.add (label.under parent)).2 } := by
  obtain ⟨⟨n, less, above⟩, admitted⟩ := ready
  exact h.add above label s.user.1 (fun _ marked => marked) (.inr (admitted.mono less))

theorem callReady_of_addNode {label : Label} {id : NodeId} (levelled : Levelled plan s)
    (ready : StepReady plan parent s)
    (added : (addNode (label.under parent)).exec s = (.ok id, t)) : CallReady (some id) t := by
  obtain ⟨⟨n, less, above⟩, _⟩ := ready
  rw [exec_addNode_of_takes (above.takes levelled.thawed)] at added
  cases added
  exact ⟨n + 1, less, Tree.level_add above levelled.thawed label⟩

variable [DecisionSource σ]

/-! ### Every call -/

theorem passes (plan : Plan κ) :
    Guarantee (σ := Observed σ) plan.observed fun s _ t => Passed s t where
  refl s _ := passed_refl s
  trans := Passed.trans
  adds s _ node :=
    { passed_refl s with
      frozen_eq := Tree.frozen_add s.tree node
      kept := Tree.keeps_add s.tree node
      marks _ marked := .inl marked }
  appends s text := { passed_refl s with size_le := Nat.le_add_right _ _ }
  asks s _ q := { passed_refl s with asked := List.prefix_append _ _ }
  meets s := { passed_refl s with }
  deepens inside := { inside with depth_eq := by simp [inside.depth_eq] }
  enters name inside := { inside with productions_eq := by simp [inside.productions_eq] }
  opens target inside := { inside with live_eq := by simp [inside.live_eq] }

variable {expandOne : Rule → Option NodeId → Expand (Observed σ) (κ × List NodeId) Unit}

variable (plan) in
theorem passed_perform
    (each : ∀ rule parent, Meets (fun s _ t => Passed s t) (expandOne rule parent))
    (program : Program κ α) (s : Expansion (Observed σ) (κ × List NodeId)) :
    Passed s ((perform plan.observed expandOne program.observed).run s).2 := by
  induction program generalizing s with
  | done result => exact passed_refl s
  | write target text next ih =>
    rw [run_perform_observed_write]
    have wrote := (passes plan).writeTo target text s
    exact wrote.marking.trans (ih _ _)
  | expand target next ih =>
    have expanded := (passes plan).expandIn each target s
    exact expanded.trans (ih _ _)
  | ask question next ih =>
    have asked := (passes plan).ask question s
    exact asked.trans (ih _ _)
  | look next ih => exact ih _ s
  | store user next ih =>
    have stored : Passed s { s with user := (user, s.user.2) } := { passed_refl s with }
    exact stored.trans (ih _)

variable (plan) in
theorem passed_replace
    (each : ∀ rule parent, Meets (fun s _ t => Passed s t) (expandOne rule parent))
    (callback : Callback κ) (target : Context) :
    Meets (fun s _ t => Passed s t)
      (replace plan.observed expandOne callback.observed target) := by
  have serves : Meets (fun s _ t => Passed s t)
      (serve plan.observed expandOne (callback.observed target).run) :=
    passed_perform plan each (callback target).run
  exact (passes plan).replace serves

theorem observed_callback {name : String} {callback : Callback (κ × List NodeId)}
    (found : plan.observed.replacements.find? name = some callback) :
    ∃ original, plan.replacements.find? name = some original ∧ callback = original.observed := by
  have found : (plan.replacements.map Callback.observed).find? name = some callback := found
  rw [Replacements.find?_map] at found
  obtain ⟨original, bound, rfl⟩ := Option.map_eq_some_iff.mp found
  exact ⟨original, bound, rfl⟩

theorem passes_serve : ServesAll (σ := Observed σ) plan.observed fun s _ t => Passed s t := by
  intro expandOne each name callback found target s
  obtain ⟨original, _, rfl⟩ := observed_callback found
  exact passed_perform plan each (original target).run s

variable (plan) in
theorem passed_traced {beyond : Expand (Observed σ) (κ × List NodeId) Unit}
    (further : Meets (fun s _ t => Passed s t) beyond) (fuel : Nat) (rule : Rule)
    (parent : Option NodeId) :
    Meets (fun s _ t => Passed s t) (traced beyond plan.observed fuel rule parent) :=
  (passes plan).traced passes_serve passed_record further fuel rule parent

/-- An action keeps levels if it is started where it may be. -/
structure Keeping (plan : Plan κ) (Ready : Expansion (Observed σ) (κ × List NodeId) → Prop)
    (action : Expand (Observed σ) (κ × List NodeId) α) : Prop where
  passed : Meets (fun s _ t => Passed s t) action
  levels : ∀ s, Levelled plan s → Ready s → Levelled plan (action.exec s).2

theorem Keeping.bind {β : Type} {Ready : Expansion (Observed σ) (κ × List NodeId) → Prop}
    {Ready' : α → Expansion (Observed σ) (κ × List NodeId) → Prop}
    {action : Expand (Observed σ) (κ × List NodeId) α}
    {next : α → Expand (Observed σ) (κ × List NodeId) β}
    (first : Keeping plan Ready action)
    (ready : ∀ s a t, Levelled plan s → Ready s → action.exec s = (.ok a, t) → Ready' a t)
    (second : ∀ a, Keeping plan (Ready' a) (next a)) : Keeping plan Ready (action >>= next) where
  passed := (passes plan).bind first.passed fun a => (second a).passed
  levels s levelled start := by
    have between := first.levels s levelled start
    rcases ran : action.exec s with ⟨fault | a, t⟩
    · rw [exec_bind_of_error ran]
      rw [ran] at between
      exact between
    · rw [exec_bind_of_ok ran]
      rw [ran] at between
      exact (second a).levels t between (ready s a t levelled start ran)

theorem keeping_lift (Ready : Expansion (Observed σ) (κ × List NodeId) → Prop)
    (result : Except Fault α) : Keeping plan Ready (liftM result) where
  passed := (passes plan).lift result
  levels _ levelled _ := levelled

theorem keeping_ask (Ready : Expansion (Observed σ) (κ × List NodeId) → Prop) (q : Question) :
    Keeping plan Ready (ask q) where
  passed := (passes plan).ask q
  levels _ levelled _ := ⟨levelled.thawed, levelled.contexts, levelled.nodes⟩

theorem keeping_nextSite (Ready : Expansion (Observed σ) (κ × List NodeId) → Prop) :
    Keeping plan Ready nextSite where
  passed := (passes plan).nextSite
  levels _ levelled _ := ⟨levelled.thawed, levelled.contexts, levelled.nodes⟩

theorem keeping_addNode (label : Label) :
    Keeping (σ := σ) plan (StepReady plan parent) (addNode (label.under parent)) where
  passed := (passes plan).addNode _
  levels _ levelled ready := levelled.step ready label

theorem keeping_leaf (label : Label) :
    Keeping (σ := σ) plan (StepReady plan parent) (leaf plan.observed label parent) where
  passed := (passes plan).leaf label parent
  levels s levelled ready := by
    obtain ⟨chunks, size, left⟩ := exec_leaf_left plan.observed label parent s
    have grown := levelled.step ready label
    rw [left]
    exact ⟨grown.thawed, grown.contexts, grown.nodes⟩

theorem keeping_expandIn
    (each : ∀ rule parent, Keeping plan (CallReady parent) (expandOne rule parent))
    (target : Context) :
    Keeping plan (fun _ => True) (expandIn plan.observed expandOne target) where
  passed := (passes plan).expandIn (fun rule parent => (each rule parent).passed) target
  levels s levelled _ := by
    rw [expandIn, exec_bind, exec_requireOpen]
    by_cases live : s.live.contains target = true
    · rw [if_pos live]
      have ready : CallReady (some target.node) s :=
        levelled.contexts target (List.contains_iff_mem.mp live)
      exact ((keeping_lift _ _).bind (fun _ _ _ _ ready ran => (lift_ok ran).2 ▸ ready)
        fun body => each body _).levels s levelled ready
    · rw [if_neg live]
      exact levelled

theorem levelled_perform
    (each : ∀ rule parent, Keeping plan (CallReady parent) (expandOne rule parent))
    (program : Program κ α) (levelled : Levelled plan s) :
    Levelled plan ((perform plan.observed expandOne program.observed).run s).2 := by
  induction program generalizing s with
  | done result => exact levelled
  | write target text next ih =>
    rw [run_perform_observed_write]
    exact ih _ (levelled.written target text)
  | expand target next ih =>
    exact ih _ ((keeping_expandIn each target).levels s levelled trivial)
  | ask question next ih =>
    exact ih _ ((keeping_ask (fun _ => True) question).levels s levelled trivial)
  | look next ih => exact ih _ levelled
  | store user next ih => exact ih (levelled.mark user fun _ marked => marked)

/-! ### Counters around an action -/

theorem Keeping.nested {action : Expand (Observed σ) (κ × List NodeId) Unit}
    (inside : Keeping plan (StepReady plan parent) action) :
    Keeping plan (CallReady parent) (nested plan.observed action) where
  passed := (passes plan).nested inside.passed
  levels s levelled ready := by
    have passed := (passes plan).nested inside.passed s
    rw [exec_nested] at passed ⊢
    cases entered : levelOutcome plan.observed (s.depth + 1) s.productions with
    | error fault => exact levelled
    | ok _ =>
      rw [entered] at passed
      obtain ⟨n, le, above⟩ := ready
      have admitted : Admitted plan (s.depth + 1) := levelOutcome_eq_ok.mp entered
      have deeper : Levelled plan { s with depth := s.depth + 1 } :=
        { levelled with
          contexts := by
            intro context live
            obtain ⟨level, le, old⟩ := levelled.contexts context live
            exact ⟨level, Nat.le_succ_of_le le, old⟩ }
      have done := inside.levels _ deeper ⟨⟨n, Nat.lt_succ_of_le le, above⟩, admitted⟩
      exact levelled.leave done passed rfl rfl

theorem Keeping.within {action : Expand (Observed σ) (κ × List NodeId) Unit} {id : NodeId}
    (inside : Keeping plan (CallReady (some id)) action) (name : String) :
    Keeping plan (CallReady (some id)) (within name action) where
  passed := (passes plan).within inside.passed name
  levels s levelled ready := by
    have passed := (passes plan).within inside.passed name s
    rw [exec_within] at passed ⊢
    have entered : Levelled plan { s with productions := name :: s.productions } :=
      ⟨levelled.thawed, levelled.contexts, levelled.nodes⟩
    exact levelled.leave (inside.levels _ entered ready) passed rfl rfl

theorem keeping_replace
    (each : ∀ rule parent, Keeping plan (CallReady parent) (expandOne rule parent))
    (callback : Callback κ) (target : Context) :
    Keeping plan (CallReady (some target.node))
      (replace plan.observed expandOne callback.observed target) where
  passed := passed_replace plan (fun rule parent => (each rule parent).passed) callback target
  levels s levelled ready := by
    have passed := passed_replace plan
      (fun rule parent => (each rule parent).passed) callback target s
    rw [exec_replace] at passed ⊢
    have opened : Levelled plan { s with live := target :: s.live } :=
      { levelled with
        contexts := by
          intro context live
          rcases List.mem_cons.mp live with rfl | before
          · exact ready
          · exact levelled.contexts context before }
    exact levelled.leave (levelled_perform each (callback target).run opened) passed rfl rfl

/-- Levels are kept by calls as by rules. -/
theorem levels (plan : Plan κ) :
    Simulation (Observed σ) (Observed σ) plan.observed plan.observed (fun _ => True)
      (fun parent action _ => Keeping plan (StepReady plan parent) action)
      (fun parent action _ => Keeping plan (CallReady parent) action) where
  child _ _ := trivial
  body _ _ := trivial
  production_eq _ := rfl
  classOf_eq _ := rfl
  fails _ _ _ := keeping_lift _ (.error _)
  asks q next := (keeping_ask _ q).bind (fun _ _ _ _ ready ran => by
    obtain ⟨source, _, rfl⟩ := ask_ok ran
    exact ready) next
  meets next := (keeping_nextSite _).bind (fun _ _ _ _ ready ran => by
    obtain ⟨_, rfl⟩ := Prod.mk.inj ran
    exact ready) next
  leaf label _ := keeping_leaf label
  opens label _ below :=
    (keeping_addNode label).bind (fun _ _ _ levelled ready added =>
      callReady_of_addNode levelled ready added) below
  done _ := keeping_lift _ (.ok ())
  next first second := first.bind (fun _ _ _ _ ready ran =>
    ready.passed (first.passed.of_exec ran)) fun _ => second
  produces {expand₁ _ name body} id _ _ each := by
    have each (rule : Rule) (parent : Option NodeId) :
        Keeping plan (CallReady parent) (expand₁ rule parent) := each rule parent trivial
    apply Keeping.within
    unfold produce
    split
    next => exact each body _
    next callback found =>
      obtain ⟨original, _, rfl⟩ := observed_callback found
      exact ⟨fun s => (keeping_replace each original ⟨s.call, id, name⟩).passed s,
        fun s => (keeping_replace each original ⟨s.call, id, name⟩).levels s⟩

variable (plan) in
theorem keeping_traced {beyond : Expand (Observed σ) (κ × List NodeId) Unit}
    (further : ∀ parent, Keeping plan (CallReady parent) beyond) (fuel : Nat) (rule : Rule)
    (parent : Option NodeId) :
    Keeping plan (CallReady parent) (traced beyond plan.observed fuel rule parent) := by
  induction fuel generalizing rule parent with
  | zero => exact further parent
  | succ fuel ih =>
    have inside := (levels plan).everywhere _ (traced beyond plan.observed fuel) ih rule
      parent
    refine ⟨passed_traced plan (further parent).passed (fuel + 1) rule parent, ?_⟩
    intro s levelled ready
    have recorded : Levelled plan
        { s with source := { s.source with calls := s.source.calls ++ [rule] } } :=
      ⟨levelled.thawed, levelled.contexts, levelled.nodes⟩
    exact inside.nested.levels _ recorded ready

end Expand

namespace Generator

open Expand

variable {σ κ : Type}

theorem levelled_start (g : Generator κ) (call : Call) (source : σ) (user : κ) :
    Levelled g.plan (observedStart call source user) where
  thawed := rfl
  contexts := by simp [observedStart]
  nodes := by simp [observedStart, Tree.size]

/-- Every node that a run added has a level, and one that is admitted unless a callback wrote it. -/
theorem levelled_observe [DecisionSource σ] (g : Generator κ) (call : Call)
    (start : Option String) (source : σ) (user : κ) :
    let last := (g.observe (throw .nestingExhausted) call start source user).2
    ∀ id < last.tree.size, ∃ n, last.tree.Level id n ∧ (id ∈ last.user.2 ∨ Admitted g.plan n) := by
  unfold observe
  cases g.startOf start with
  | error fault => exact (levelled_start g call source user).nodes
  | ok start =>
    have keeping := keeping_traced (σ := σ) g.plan
      (fun _ => keeping_lift _ (.error .nestingExhausted)) call.ceiling (.nonTerminal start) none
    have levelled := keeping.levels _ (levelled_start g call source user) ⟨0, Nat.le_refl _, rfl⟩
    obtain ⟨frozen, left⟩ := settle_left start
      ((traced (throw .nestingExhausted) g.plan.observed call.ceiling (.nonTerminal start)
        none).exec (observedStart call source user))
    intro last id present
    have left : last = _ := left
    rw [left] at present ⊢
    obtain ⟨n, level, admitted⟩ := levelled.nodes id present
    exact ⟨n, level.of_keeps (Tree.keeps_of_nodes_eq rfl), admitted⟩

end Generator

end SentenceGen
