import SentenceGen.Proofs.Growth

/-!
# The way up

From every node the parents lead to the root.  Trees only grow, so the way up stays what it was when
the node was added, and with it the names of the productions that the node stands in.
-/

namespace SentenceGen.Tree

variable {t t' : Tree}

/-- Every place has the next one for its parent, and the last one has none. -/
def Ascent (t : Tree) : List NodeId → Prop
  | [] => True
  | id :: above =>
    (∃ node, t.node? id = some node ∧ node.parent = above.head?) ∧
      (∀ parent ∈ above.head?, parent < id) ∧ t.Ascent above

def isProduction (t : Tree) (id : NodeId) : Bool :=
  (t.node? id).any fun node => node.kind = .nonTerminal

def nameOf (t : Tree) (id : NodeId) : Option String := (t.node? id).bind Node.name

/-- The names of the productions among some places. -/
def productionNames (t : Tree) (ids : List NodeId) : List (Option String) :=
  (ids.filter t.isProduction).map t.nameOf

theorem Ascent.node?_of_mem {ids : List NodeId} (h : t.Ascent ids) :
    ∀ id ∈ ids, ∃ node, t.node? id = some node := by
  induction ids with
  | nil => nofun
  | cons id above ih =>
    obtain ⟨⟨node, found, _⟩, _, rest⟩ := h
    rw [List.forall_mem_cons]
    exact ⟨⟨node, found⟩, ih rest⟩

/-- Parents come before their children, so the way up is no longer than the place is high. -/
theorem Ascent.length_le {id : NodeId} {above : List NodeId} (h : t.Ascent (id :: above)) :
    above.length ≤ id := by
  induction above generalizing id with
  | nil => exact Nat.zero_le _
  | cons parent above ih =>
    obtain ⟨_, lower, rest⟩ := h
    have less : parent < id := lower parent rfl
    exact Nat.le_trans (Nat.succ_le_succ (ih rest)) less

theorem Ascent.length_le_fuel {id : NodeId} {above : List NodeId} (h : t.Ascent (id :: above)) :
    above.length ≤ t.size + 1 := by
  obtain ⟨node, found⟩ := h.node?_of_mem id (List.mem_cons_self ..)
  exact Nat.le_succ_of_le (Nat.le_trans h.length_le (Nat.le_of_lt (lt_size_of_node? found)))

/-! ### Searching upwards -/

theorem record_of_node? {id : NodeId} {node : Node} (found : t.node? id = some node) :
    t.record id = .ok node := by
  rw [record, found]

theorem Ascent.ancestorsFrom {id : NodeId} {above : List NodeId} (h : t.Ascent (id :: above))
    {fuel : Nat} (enough : above.length ≤ fuel) : t.ancestorsFrom fuel id = .ok above := by
  induction above generalizing id fuel with
  | nil =>
    obtain ⟨⟨node, found, parent_eq⟩, _⟩ := h
    cases fuel with
    | zero => rfl
    | succ fuel =>
      simp only [Tree.ancestorsFrom, record_of_node? found, Bind.bind, Except.bind, parent_eq]
      rfl
  | cons parent above ih =>
    obtain ⟨⟨node, found, parent_eq⟩, _, rest⟩ := h
    cases fuel with
    | zero => cases enough
    | succ fuel =>
      have further := ih rest (Nat.le_of_succ_le_succ enough)
      simp only [Tree.ancestorsFrom, record_of_node? found, Bind.bind, Except.bind, parent_eq,
        List.head?_cons, further]
      rfl

theorem Ascent.ancestors {id : NodeId} {above : List NodeId} (h : t.Ascent (id :: above)) :
    t.ancestors id = .ok above :=
  h.ancestorsFrom h.length_le_fuel

theorem Ascent.findUp {id : NodeId} {above : List NodeId} (h : t.Ascent (id :: above))
    (p : Node → Bool) {fuel : Nat} (enough : above.length ≤ fuel) :
    t.findUp p fuel id = .ok (above.find? fun place => (t.node? place).any p) := by
  induction above generalizing id fuel with
  | nil =>
    obtain ⟨⟨node, found, parent_eq⟩, _⟩ := h
    cases fuel with
    | zero => rfl
    | succ fuel =>
      simp only [Tree.findUp, record_of_node? found, Bind.bind, Except.bind, parent_eq]
      rfl
  | cons parent above ih =>
    obtain ⟨⟨node, found, parent_eq⟩, _, rest⟩ := h
    cases fuel with
    | zero => cases enough
    | succ fuel =>
      have further := ih rest (Nat.le_of_succ_le_succ enough)
      obtain ⟨⟨outer, foundOuter, _⟩, _⟩ := rest
      simp only [Tree.findUp, record_of_node? found, Bind.bind, Except.bind, parent_eq,
        List.head?_cons, record_of_node? foundOuter, List.find?_cons, foundOuter, Option.any_some]
      cases p outer with
      | true => rfl
      | false => exact further

theorem Ascent.production {id : NodeId} {above : List NodeId} (h : t.Ascent (id :: above)) :
    t.production id = .ok (above.filter t.isProduction).head? := by
  rw [Tree.production, h.findUp _ h.length_le_fuel, List.head?_filter]
  rfl

theorem Ascent.ancestor {id : NodeId} {above : List NodeId} (h : t.Ascent (id :: above))
    (name : String) :
    t.ancestor (some name) id =
      .ok ((above.filter t.isProduction).find? fun place => t.nameOf place = some name) := by
  rw [Tree.ancestor, h.findUp _ h.length_le_fuel, List.find?_filter]
  congr 2
  funext place
  rw [isProduction, nameOf]
  cases t.node? place with
  | none => rfl
  | some node => simp [Bool.beq_eq_decide_eq]

/-! ### Growing trees -/

theorem Ascent.of_extends {linked : NodeId → List NodeId} {ids : List NodeId} (h : t.Ascent ids)
    (extended : t.Extends linked t') : t'.Ascent ids := by
  induction ids with
  | nil => trivial
  | cons id above ih =>
    obtain ⟨⟨node, found, parent_eq⟩, lower, rest⟩ := h
    exact ⟨⟨_, extended id node found, parent_eq⟩, lower, ih rest⟩

theorem productionNames_of_extends {linked : NodeId → List NodeId} {ids : List NodeId}
    (present : ∀ id ∈ ids, ∃ node, t.node? id = some node) (extended : t.Extends linked t') :
    t'.productionNames ids = t.productionNames ids := by
  have kept (id : NodeId) (member : id ∈ ids) :
      t'.isProduction id = t.isProduction id ∧ t'.nameOf id = t.nameOf id := by
    obtain ⟨node, found⟩ := present id member
    simp [isProduction, nameOf, found, extended id node found, Node.adopt]
  rw [productionNames, productionNames, List.filter_congr fun id member => (kept id member).1]
  exact List.map_congr_left fun id member => (kept id (List.mem_filter.mp member).1).2

/-- What stands under the parent stands in the productions of these names, innermost first. -/
def Inside (t : Tree) (parent : Option NodeId) (names : List String) : Prop :=
  ∃ ids, t.Ascent ids ∧ ids.head? = parent ∧ t.productionNames ids = names.map some

theorem inside_none (t : Tree) : t.Inside none [] := ⟨[], trivial, rfl, rfl⟩

variable {parent : Option NodeId} {names : List String}

theorem Inside.of_extends {linked : NodeId → List NodeId} (h : t.Inside parent names)
    (extended : t.Extends linked t') : t'.Inside parent names := by
  obtain ⟨ids, ascent, head, named⟩ := h
  refine ⟨ids, ascent.of_extends extended, head, ?_⟩
  rw [productionNames_of_extends ascent.node?_of_mem extended, named]

/-- What stands in productions of these names is found on the way up from a node. -/
theorem Inside.ascent {id : NodeId} (h : t.Inside (some id) names) :
    ∃ above, t.Ascent (id :: above) ∧ t.productionNames (id :: above) = names.map some := by
  obtain ⟨ids, ascent, head, named⟩ := h
  obtain ⟨above, rfl⟩ : ∃ above, ids = id :: above := List.head?_eq_some_iff.mp head
  exact ⟨above, ascent, named⟩

/-- The production around a node that is none itself is the innermost one that it stands in. -/
theorem Inside.production {id : NodeId} {name : String} (h : t.Inside (some id) (name :: names))
    (other : t.isProduction id = false) :
    ∃ above, t.production id = .ok (some above) ∧ t.nameOf above = some name := by
  obtain ⟨above, ascent, named⟩ := h.ascent
  have skipped : ¬ t.isProduction id = true := by simp [other]
  rw [productionNames, List.filter_cons_of_neg skipped] at named
  obtain ⟨first, found, first_eq⟩ : ∃ first, (above.filter t.isProduction).head? = some first ∧
      t.nameOf first = some name := by
    have heads := congrArg List.head? named
    rwa [List.head?_map, List.map_cons, List.head?_cons, Option.map_eq_some_iff] at heads
  refine ⟨first, ?_, first_eq⟩
  rw [ascent.production, found]

/-- The way up from a new node is the one from its parent, and one step more. -/
theorem ascent_add {ids : List NodeId} {label : Label} (h : t.Ascent ids)
    (head : ids.head? = parent) (takes : t.Takes parent) :
    (t.add (label.under parent)).2.Ascent (t.size :: ids) := by
  have added : t.Takes (label.under parent).parent := takes
  refine ⟨⟨_, node?_add_self added, head.symm⟩, ?_, h.of_extends (extends_add added)⟩
  intro place first
  exact takes.parent_lt place (head.symm.trans first)

theorem productionNames_add {ids : List NodeId} {label : Label} (h : t.Ascent ids)
    (takes : t.Takes parent) :
    (t.add (label.under parent)).2.productionNames (t.size :: ids) =
      if label.kind = .nonTerminal then label.name :: t.productionNames ids
      else t.productionNames ids := by
  have added : t.Takes (label.under parent).parent := takes
  have found := node?_add_self added
  have kept := productionNames_of_extends h.node?_of_mem (extends_add added)
  rw [← kept]
  generalize (t.add (label.under parent)).2 = grown at found
  by_cases production : label.kind = .nonTerminal
  · have counted : grown.isProduction t.size = true := by
      simp [isProduction, found, Label.under, production]
    have named : grown.nameOf t.size = label.name := by simp [nameOf, found, Label.under]
    rw [if_pos production, productionNames, List.filter_cons_of_pos counted, List.map_cons, named]
    rfl
  · have passed : ¬ grown.isProduction t.size = true := by
      simp [isProduction, found, Label.under, production]
    rw [if_neg production, productionNames, List.filter_cons_of_neg passed]
    rfl

/-- Below the node of a production one stands in that production too. -/
theorem Inside.enter (h : t.Inside parent names) (takes : t.Takes parent) {label : Label}
    {name : String} (production : label.kind = .nonTerminal) (named : label.name = some name) :
    (t.add (label.under parent)).2.Inside (some t.size) (name :: names) := by
  obtain ⟨ids, ascent, head, above⟩ := h
  refine ⟨_, ascent_add ascent head takes, rfl, ?_⟩
  rw [productionNames_add ascent takes, if_pos production, named, above]
  rfl

theorem Inside.descend (h : t.Inside parent names) (takes : t.Takes parent) {label : Label}
    (other : label.kind ≠ .nonTerminal) :
    (t.add (label.under parent)).2.Inside (some t.size) names := by
  obtain ⟨ids, ascent, head, named⟩ := h
  refine ⟨_, ascent_add ascent head takes, rfl, ?_⟩
  rw [productionNames_add ascent takes, if_neg other, named]

end SentenceGen.Tree
