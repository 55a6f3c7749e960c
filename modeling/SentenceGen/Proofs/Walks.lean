import SentenceGen.Rule

/-!
# Walks

A walk keeps a stack of the rules that are still to be visited.  In every turn it visits the rule on
top and puts what this contains in its place, so what has been visited and the walk from the stack
together are always the whole walk.  It ends after one turn for each rule that stands in the first
one, and what it has visited by then is the preorder.

A rule that stands in another one has an address, the indices of the items on the way down to it.
The walk comes to every address once, and to the addresses in the order of a dictionary.
-/

namespace SentenceGen

namespace Rule

/-! ### Preorder -/

theorem preorder_eq (rule : Rule) : rule.preorder = rule :: preorderItems rule.children := by
  cases rule <;> simp [preorder, preorderItems, children]

theorem preorderItems_eq_flatMap (items : List Rule) :
    preorderItems items = items.flatMap preorder := by
  induction items with
  | nil => rfl
  | cons item rest ih => rw [preorderItems, ih, List.flatMap_cons]

theorem preorderItems_append (xs ys : List Rule) :
    preorderItems (xs ++ ys) = preorderItems xs ++ preorderItems ys := by
  simp only [preorderItems_eq_flatMap, List.flatMap_append]

/-- The stack holds what is still to come of the preorder. -/
theorem walkFrom_eq_preorderItems (stack : List Rule) : walkFrom stack = preorderItems stack := by
  induction stack using walkFrom.induct with
  | case1 => rw [walkFrom, preorderItems]
  | case2 rule stack ih =>
    rw [walkFrom, ih, preorderItems_append, preorderItems, preorder_eq, List.cons_append]

theorem walk_eq_preorder (rule : Rule) : rule.walk = rule.preorder := by
  rw [walk, walkFrom_eq_preorderItems, preorderItems, preorderItems, List.append_nil]

/-- A walk visits a rule, and then goes through the rules that it contains one by one. -/
theorem walk_eq (rule : Rule) : rule.walk = rule :: rule.children.flatMap walk := by
  have same : walk = preorder := funext walk_eq_preorder
  rw [same, preorder_eq, preorderItems_eq_flatMap]

theorem length_walkFrom (stack : List Rule) : (walkFrom stack).length = sizeItems stack := by
  induction stack using walkFrom.induct with
  | case1 => rw [walkFrom, sizeItems, List.length_nil]
  | case2 rule stack ih =>
    rw [walkFrom, List.length_cons, ih, sizeItems_append, sizeItems, size_eq]
    omega

theorem length_walk (rule : Rule) : rule.walk.length = rule.size := by
  rw [walk, length_walkFrom, sizeItems, sizeItems, Nat.add_zero]

theorem walkFrom_eq_nil_iff {stack : List Rule} : walkFrom stack = [] ↔ stack = [] := by
  cases stack <;> simp [walkFrom]

/-! ### What is visited -/

theorem mem_walkFrom_of_mem {rule : Rule} {stack : List Rule} (member : rule ∈ stack) :
    rule ∈ walkFrom stack := by
  induction stack using walkFrom.induct with
  | case1 => simp at member
  | case2 top stack ih =>
    rw [walkFrom]
    rcases List.mem_cons.mp member with rfl | below
    · exact List.mem_cons_self
    · exact List.mem_cons_of_mem _ (ih (List.mem_append_right _ below))

/-- Whatever contains a visited rule's part visits the part too. -/
theorem mem_walkFrom_of_mem_children {rule part : Rule} (inside : part ∈ rule.children)
    {stack : List Rule} (visited : rule ∈ walkFrom stack) : part ∈ walkFrom stack := by
  induction stack using walkFrom.induct with
  | case1 => simp [walkFrom] at visited
  | case2 top stack ih =>
    rw [walkFrom] at visited ⊢
    rcases List.mem_cons.mp visited with rfl | later
    · exact List.mem_cons_of_mem _ (mem_walkFrom_of_mem (List.mem_append_left _ inside))
    · exact List.mem_cons_of_mem _ (ih later)

theorem mem_walk_self (rule : Rule) : rule ∈ rule.walk :=
  mem_walkFrom_of_mem List.mem_cons_self

/-- The rule stands in the other one, at whatever depth. -/
inductive Within (rule : Rule) : Rule → Prop where
  | self : Within rule rule
  | inside {item outer : Rule} (member : item ∈ outer.children) (within : Within rule item) :
      Within rule outer

theorem mem_walkFrom_of_within {rule outer : Rule} {stack : List Rule} (within : rule.Within outer)
    (visited : outer ∈ walkFrom stack) : rule ∈ walkFrom stack := by
  induction within with
  | self => exact visited
  | inside member _ ih => exact ih (mem_walkFrom_of_mem_children member visited)

theorem within_of_mem_walkFrom {rule : Rule} {stack : List Rule} (visited : rule ∈ walkFrom stack) :
    ∃ outer ∈ stack, rule.Within outer := by
  induction stack using walkFrom.induct with
  | case1 =>
    rw [walkFrom] at visited
    cases visited
  | case2 top stack ih =>
    rw [walkFrom] at visited
    rcases List.mem_cons.mp visited with rfl | later
    · exact ⟨rule, List.mem_cons_self, .self⟩
    · obtain ⟨outer, member, within⟩ := ih later
      rcases List.mem_append.mp member with below | beside
      · exact ⟨top, List.mem_cons_self, .inside below within⟩
      · exact ⟨outer, List.mem_cons_of_mem _ beside, within⟩

/-- What is visited in a rule is what stands in it. -/
theorem mem_preorder_iff {rule outer : Rule} : rule ∈ outer.preorder ↔ rule.Within outer := by
  rw [← walk_eq_preorder]
  constructor
  · intro visited
    obtain ⟨_, member, within⟩ := within_of_mem_walkFrom visited
    rwa [List.mem_singleton.mp member] at within
  · exact fun within => mem_walkFrom_of_within within outer.mem_walk_self

/-! ### Turns -/

/-- A walk under way: the rules visited so far, and the stack of those to visit, top first. -/
structure Walking where
  visited : List Rule
  stack : List Rule

namespace Walking

def start (rule : Rule) : Walking := { visited := [], stack := [rule] }

/-- The walk after one more turn; it has ended if there is nothing on the stack. -/
def turn? (w : Walking) : Option Walking :=
  match w.stack with
  | [] => none
  | rule :: stack => some { visited := w.visited ++ [rule], stack := rule.children ++ stack }

/-- The walk after a number of turns, unless it ends before. -/
def turns? (w : Walking) : Nat → Option Walking
  | 0 => some w
  | count + 1 => (w.turns? count).bind turn?

variable {w next later : Walking} {count : Nat}

theorem turn?_eq_none_iff : w.turn? = none ↔ w.stack = [] := by
  obtain ⟨visited, stack⟩ := w
  cases stack <;> simp [turn?]

/-- A turn visits the first rule of the walk that was to come, and leaves the others to come. -/
theorem turn_visits (turned : w.turn? = some next) :
    ∃ rule, walkFrom w.stack = rule :: walkFrom next.stack ∧
      next.visited = w.visited ++ [rule] := by
  obtain ⟨visited, stack⟩ := w
  cases stack with
  | nil => cases turned
  | cons rule stack =>
    obtain rfl := Option.some.inj turned
    exact ⟨rule, by rw [walkFrom], rfl⟩

/-- A number of turns visits as many rules, the first ones of the walk that was to come. -/
theorem turns_visit (turned : w.turns? count = some later) :
    ∃ passed, passed.length = count ∧ walkFrom w.stack = passed ++ walkFrom later.stack ∧
      later.visited = w.visited ++ passed := by
  induction count generalizing later with
  | zero =>
    obtain rfl := Option.some.inj turned
    exact ⟨[], rfl, rfl, (List.append_nil _).symm⟩
  | succ count ih =>
    obtain ⟨before, reached, last⟩ := Option.bind_eq_some_iff.mp turned
    obtain ⟨passed, rfl, coming, seen⟩ := ih reached
    obtain ⟨rule, top, added⟩ := turn_visits last
    refine ⟨passed ++ [rule], List.length_append, ?_, ?_⟩
    · rw [coming, top, List.append_assoc, List.singleton_append]
    · rw [added, seen, List.append_assoc]

/-- A walk ends when it has taken one turn for each rule that was to come. -/
theorem turns?_eq_none_iff : w.turns? count = none ↔ (walkFrom w.stack).length < count := by
  induction count with
  | zero => simp [turns?]
  | succ count ih =>
    rw [turns?]
    cases reached : w.turns? count with
    | none =>
      have beyond := ih.mp reached
      exact ⟨fun _ => Nat.lt_succ_of_lt beyond, fun _ => rfl⟩
    | some before =>
      -- What these turns have visited is all that was to come exactly if the stack is empty.
      obtain ⟨passed, rfl, coming, _⟩ := turns_visit reached
      rw [Option.bind_some, turn?_eq_none_iff, ← walkFrom_eq_nil_iff, coming, List.length_append,
        ← List.length_eq_zero_iff]
      omega

theorem visited_turns? (rule : Rule) (count : Nat) :
    ((start rule).turns? count).map visited =
      if count ≤ rule.size then some (rule.walk.take count) else none := by
  rw [← length_walk]
  cases reached : (start rule).turns? count with
  | none =>
    have beyond : rule.walk.length < count := turns?_eq_none_iff.mp reached
    rw [if_neg (Nat.not_le_of_lt beyond), Option.map_none]
  | some later =>
    obtain ⟨passed, rfl, coming, seen⟩ := turns_visit reached
    have whole : rule.walk = passed ++ walkFrom later.stack := coming
    have fits : passed.length ≤ rule.walk.length := by
      rw [whole, List.length_append]
      exact Nat.le_add_right _ _
    rw [if_pos fits, whole, List.take_left, Option.map_some, seen]
    rfl

/-- After its last turn the walk has visited everything, and has nothing on the stack. -/
theorem turns?_size (rule : Rule) :
    (start rule).turns? rule.size = some { visited := rule.walk, stack := [] } := by
  have lasts : (start rule).turns? rule.size ≠ none := by
    rw [Ne, turns?_eq_none_iff]
    exact Nat.not_lt_of_le (Nat.le_of_eq rule.length_walk.symm)
  obtain ⟨⟨visited, stack⟩, reached⟩ := Option.ne_none_iff_exists'.mp lasts
  obtain ⟨_, length, coming, rfl⟩ := turns_visit reached
  have whole : rule.walk = visited ++ walkFrom stack := coming
  have nothing : walkFrom stack = [] := by
    have lengths := rule.length_walk
    rw [whole, List.length_append, length] at lengths
    exact List.length_eq_zero_iff.mp (Nat.left_eq_add.mp lengths.symm)
  obtain rfl := walkFrom_eq_nil_iff.mp nothing
  rw [nothing, List.append_nil] at whole
  rw [reached, whole]

end Walking

/-! ### Addresses -/

/-- The rule at an address, the indices of the items on the way down to it. -/
def descend? (rule : Rule) : List Nat → Option Rule
  | [] => some rule
  | index :: rest => rule.children[index]?.bind fun item => item.descend? rest

mutual

/-- The addresses of all rules in a rule, each before those further down. -/
def addresses : Rule → List (List Nat)
  | .sequence items | .alternative items => [] :: addressesFrom 0 items
  | .optional item | .repetition item _ => [] :: (addresses item).map (List.cons 0)
  | _ => [[]]

/-- The addresses in items that stand side by side, the first of them at some index. -/
def addressesFrom (index : Nat) : List Rule → List (List Nat)
  | [] => []
  | item :: rest => (addresses item).map (List.cons index) ++ addressesFrom (index + 1) rest

end

theorem addressesFrom_eq (index : Nat) (items : List Rule) :
    addressesFrom index items =
      (items.zipIdx index).flatMap fun entry => entry.1.addresses.map (List.cons entry.2) := by
  induction items generalizing index with
  | nil => rfl
  | cons item rest ih => rw [addressesFrom, ih, List.zipIdx_cons, List.flatMap_cons]

theorem addresses_eq (rule : Rule) :
    rule.addresses = [] ::
      rule.children.zipIdx.flatMap fun entry => entry.1.addresses.map (List.cons entry.2) := by
  cases rule <;> simp [addresses, addressesFrom_eq, children]

theorem mem_addresses_iff {rule : Rule} {address : List Nat} :
    address ∈ rule.addresses ↔ ∃ part, rule.descend? address = some part := by
  induction address generalizing rule with
  | nil =>
    rw [addresses_eq]
    exact ⟨fun _ => ⟨rule, rfl⟩, fun _ => List.mem_cons_self⟩
  | cons index rest ih =>
    rw [addresses_eq]
    simp only [List.mem_cons, reduceCtorEq, false_or, List.mem_flatMap, List.mem_map,
      List.cons.injEq, List.mem_zipIdx_iff_getElem?, descend?, Option.bind_eq_some_iff]
    constructor
    · rintro ⟨⟨item, _⟩, found, _, inside, rfl, rfl⟩
      obtain ⟨part, below⟩ := ih.mp inside
      exact ⟨part, item, found, below⟩
    · rintro ⟨part, item, found, below⟩
      exact ⟨(item, index), found, rest, ih.mpr ⟨part, below⟩, rfl, rfl⟩

theorem size_lt_of_mem_children {rule item : Rule} (member : item ∈ rule.children) :
    item.size < rule.size := by
  obtain ⟨before, after, split⟩ := List.append_of_mem member
  rw [size_eq rule, split, sizeItems_append, sizeItems]
  omega

/-- What holds of a rule as soon as it holds of the rules that this contains holds of all rules. -/
theorem induction_on_children {P : Rule → Prop}
    (step : ∀ rule, (∀ item ∈ rule.children, P item) → P rule) (rule : Rule) : P rule :=
  step rule fun item _ => induction_on_children step item
termination_by rule.size
decreasing_by exact size_lt_of_mem_children ‹_›

/-- The walk comes to what is at the addresses, one after the other. -/
theorem map_descend?_addresses (rule : Rule) :
    rule.addresses.map rule.descend? = rule.walk.map some := by
  induction rule using induction_on_children with
  | step rule ih =>
    have below (entry : Rule × Nat) (listed : entry ∈ rule.children.zipIdx) :
        (entry.1.addresses.map (List.cons entry.2)).map rule.descend? = entry.1.walk.map some := by
      have found := List.mem_zipIdx_iff_getElem?.mp listed
      rw [← ih entry.1 (List.mem_of_getElem? found), List.map_map]
      apply List.map_congr_left
      intro address _
      rw [Function.comp_apply, descend?, found, Option.bind_some]
    have items : rule.children.zipIdx.map Prod.fst = rule.children := List.zipIdx_map_fst 0 _
    have walks : rule.children.zipIdx.map (fun entry => entry.1.walk.map some) =
        rule.children.map fun item => item.walk.map some := by
      rw [← items, List.map_map, items]
      rfl
    rw [addresses_eq, walk_eq, List.map_cons, List.map_cons, List.map_flatMap, List.map_flatMap,
      List.flatMap_def, List.map_congr_left below, walks, ← List.flatMap_def, descend?]

/-- The addresses are in the order of a dictionary. -/
theorem pairwise_addresses (rule : Rule) : rule.addresses.Pairwise (· < ·) := by
  induction rule using induction_on_children with
  | step rule ih =>
    rw [addresses_eq, List.pairwise_cons, List.pairwise_flatMap]
    refine ⟨?_, ?_, ?_⟩
    · intro address below
      obtain ⟨_, _, inside⟩ := List.mem_flatMap.mp below
      obtain ⟨rest, _, rfl⟩ := List.mem_map.mp inside
      exact List.nil_lt_cons _ _
    · -- Below one item all addresses begin with its index.
      intro entry listed
      have found := List.mem_zipIdx_iff_getElem?.mp listed
      rw [List.pairwise_map]
      exact (ih entry.1 (List.mem_of_getElem? found)).imp fun less =>
        List.cons_lt_cons_iff.mpr (.inr ⟨rfl, less⟩)
    · -- Below different items the first index decides.
      have indices : (rule.children.zipIdx.map Prod.snd).Pairwise (· < ·) := by
        rw [List.zipIdx_map_snd]
        exact List.pairwise_lt_range'
      refine (List.pairwise_map.mp indices).imp fun less => ?_
      simp only [List.forall_mem_map, List.cons_lt_cons_iff]
      exact fun _ _ _ _ => .inl less

/-- The walk of a rule takes one turn for each rule that stands in it, and has visited the preorder
so far after each; then nothing is left on the stack.  What it visits is what is at the addresses in
the rule, at each of them once, in the order of a dictionary. -/
theorem walk_traverses (rule : Rule) :
    (∀ count, ((Walking.start rule).turns? count).map Walking.visited =
      if count ≤ rule.size then some (rule.preorder.take count) else none) ∧
    (Walking.start rule).turns? rule.size = some { visited := rule.walk, stack := [] } ∧
    rule.walk = rule.preorder ∧
    rule.walk.map some = rule.addresses.map rule.descend? ∧
    rule.addresses.Pairwise (· < ·) ∧
    ∀ address, address ∈ rule.addresses ↔ ∃ part, rule.descend? address = some part := by
  refine ⟨fun count => ?_, Walking.turns?_size rule, rule.walk_eq_preorder,
    rule.map_descend?_addresses.symm, rule.pairwise_addresses, fun _ => mem_addresses_iff⟩
  rw [← walk_eq_preorder]
  exact Walking.visited_turns? rule count

example :
    let rule : Rule := .sequence [.literal "a", .optional (.nonTerminal "b"), .stray (.int 1)]
    rule.preorder.map kind = ["Sequence", "Literal", "Optional", "NonTerminal", "int"] ∧
      rule.addresses = [[], [0], [1], [1, 0], [2]] := ⟨rfl, rfl⟩

end Rule

end SentenceGen
