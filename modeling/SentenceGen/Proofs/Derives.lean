import SentenceGen.Grammar
import SentenceGen.Proofs.Derivation
import SentenceGen.Proofs.Walks

/-!
# What a grammar derives

A rule opens a node with a label and says which rules the children are derived from, one child for
each in order.  Productions whose expansion is replaced are the exception: what stands below them is
any mixture of written literals and derivations of their own body.
-/

namespace SentenceGen

namespace Bounds

/-- Bounds that are integers, the lower one not below zero. -/
structure Integral (b : Bounds) : Prop where
  minimum : ∃ least : Nat, b.minimum = .int least
  maximum : b.maximum = .null ∨ ∃ most : Int, b.maximum = .int most

theorem integral_between (minimum maximum : Nat) : (between minimum maximum).Integral :=
  ⟨⟨minimum, rfl⟩, .inr ⟨maximum, rfl⟩⟩

theorem Integral.nonneg_of_admits {b : Bounds} (h : b.Integral) {count : Int}
    (admitted : b.admits count = true) : 0 ≤ count := by
  obtain ⟨least, minimum⟩ := h.minimum
  simp only [admits, isBelow, minimum, Datum.magnitude?_int, Decimal.Magnitude.less_ofInt,
    Bool.and_eq_true, Bool.not_eq_true', decide_eq_false_iff_not, Int.not_lt] at admitted
  omega

end Bounds

namespace Grammar

/-- The rules that an expansion can come to: references and what stands in the productions. -/
def Reaches (g : Grammar) (rule : Rule) : Prop :=
  (∃ name, rule = .nonTerminal name) ∨ ∃ name body, g.body? name = some body ∧ rule ∈ body.walk

def IntegralBounds (g : Grammar) : Prop :=
  ∀ name body, g.body? name = some body →
    ∀ item bounds, .repetition item bounds ∈ body.walk → bounds.Integral

/-- The label of a node that a rule opens, and the rules of the node's children. -/
inductive Opens (g : Grammar) : Rule → Label → List Rule → Prop where
  | literal (text : String) : Opens g (.literal text) { kind := .literal, text } []
  | sequence (items : List Rule) : Opens g (.sequence items) { kind := .sequence } items
  | alternative {items : List Rule} {index : Nat} {item : Rule}
      (branch : items[index]? = some item) :
      Opens g (.alternative items) { kind := .alternative, value := .int index } [item]
  | present (item : Rule) :
      Opens g (.optional item) { kind := .optional, value := .bool true } [item]
  | absent (item : Rule) :
      Opens g (.optional item) { kind := .optional, value := .bool false } []
  | repetition (item : Rule) {bounds : Bounds} {count : Int}
      (admitted : bounds.admits count = true) :
      Opens g (.repetition item bounds) { kind := .repetition, value := .int count }
        (List.replicate count.toNat item)
  | nonTerminal {name : String} {body : Rule} (defined : g.body? name = some body) :
      Opens g (.nonTerminal name) { kind := .nonTerminal, name := some name } [body]
  | characters {set : CharacterSet} {members : CharacterClass} {codepoint : Nat}
      (resolved : g.registry.resolve set.name = .ok members) (member : codepoint ∈ members)
      (kept : (codepoint : Int) ∉ set.points) :
      Opens g (.characters set)
        { kind := .character, name := some set.name, text := (Char.ofNat codepoint).toString,
          value := .int codepoint } []

mutual

/-- The derivations of a rule; `replaced` are the productions that are not expanded by default. -/
inductive Derives (g : Grammar) (replaced : String → Prop) : Rule → Derivation → Prop where
  | opened {rule : Rule} {label : Label} {items : List Rule} {children : List Derivation}
      (opens : g.Opens rule label items) (kept : ∀ name, rule = .nonTerminal name → ¬replaced name)
      (below : DerivesAll g replaced items children) :
      Derives g replaced rule (.node label children)
  | replaced {name : String} {body : Rule} {children : List Derivation}
      (bound : replaced name) (defined : g.body? name = some body)
      (below : DerivesSome g replaced body children) :
      Derives g replaced (.nonTerminal name)
        (.node { kind := .nonTerminal, name := some name } children)

inductive DerivesAll (g : Grammar) (replaced : String → Prop) :
    List Rule → List Derivation → Prop where
  | nil : DerivesAll g replaced [] []
  | cons {item : Rule} {items : List Rule} {child : Derivation} {children : List Derivation}
      (first : Derives g replaced item child) (others : DerivesAll g replaced items children) :
      DerivesAll g replaced (item :: items) (child :: children)

/-- Any number of derivations of one rule, with written literals among them. -/
inductive DerivesSome (g : Grammar) (replaced : String → Prop) :
    Rule → List Derivation → Prop where
  | nil {body : Rule} : DerivesSome g replaced body []
  | written {body : Rule} (text : String) {children : List Derivation}
      (others : DerivesSome g replaced body children) :
      DerivesSome g replaced body (.node { kind := .literal, text } [] :: children)
  | expanded {body : Rule} {child : Derivation} {children : List Derivation}
      (first : Derives g replaced body child) (others : DerivesSome g replaced body children) :
      DerivesSome g replaced body (child :: children)

end

variable {g : Grammar} {replaced : String → Prop}

/-- A rule that an expansion comes to leads to such rules only. -/
theorem Reaches.of_opens {rule item : Rule} {label : Label} {items : List Rule}
    (reached : g.Reaches rule) (opens : g.Opens rule label items) (member : item ∈ items) :
    g.Reaches item := by
  have inside : item ∈ rule.children → g.Reaches item := by
    intro inside
    obtain ⟨name, rfl⟩ | ⟨name, body, defined, visited⟩ := reached
    · simp [Rule.children] at inside
    · exact .inr ⟨name, body, defined, Rule.mem_walkFrom_of_mem_children inside visited⟩
  cases opens with
  | literal | absent | characters => simp at member
  | sequence => exact inside member
  | alternative branch =>
    obtain rfl := List.mem_singleton.mp member
    exact inside (List.mem_of_getElem? branch)
  | present => exact inside member
  | repetition => exact inside (by simp [Rule.children, List.eq_of_mem_replicate member])
  | nonTerminal defined =>
    obtain rfl := List.mem_singleton.mp member
    exact .inr ⟨_, _, defined, Rule.mem_walk_self _⟩

theorem DerivesAll.length_eq {items : List Rule} {children : List Derivation}
    (h : g.DerivesAll replaced items children) : children.length = items.length := by
  induction items generalizing children with
  | nil =>
    cases h
    rfl
  | cons item items ih =>
    cases h with
    | cons head tail => simp [ih tail]

end Grammar

namespace Derivation

mutual

/-- Every repetition in a derivation records the number of its children. -/
def Counted : Derivation → Prop
  | .node label children =>
    (label.kind = .repetition → label.value = .int children.length) ∧ CountedAll children

def CountedAll : List Derivation → Prop
  | [] => True
  | d :: rest => Counted d ∧ CountedAll rest

end

end Derivation

namespace Grammar

variable {g : Grammar} {replaced : String → Prop}

mutual

theorem Derives.counted (integral : g.IntegralBounds) {rule : Rule} {d : Derivation} :
    g.Derives replaced rule d → g.Reaches rule → d.Counted
  | @Derives.opened _ _ _ _ items children opens _ below, reached => by
    refine ⟨?_, below.counted integral fun item member => reached.of_opens opens member⟩
    intro repeated
    cases opens with
    | repetition item admitted =>
      obtain ⟨name, same⟩ | ⟨name, body, defined, visited⟩ := reached
      · cases same
      · have nonneg := (integral name body defined item _ visited).nonneg_of_admits admitted
        rw [below.length_eq, List.length_replicate, Int.toNat_of_nonneg nonneg]
    | _ => cases repeated
  | .replaced _ defined below, _ =>
    ⟨nofun, below.counted integral (.inr ⟨_, _, defined, Rule.mem_walk_self _⟩)⟩

theorem DerivesAll.counted (integral : g.IntegralBounds) {items : List Rule}
    {children : List Derivation} :
    g.DerivesAll replaced items children → (∀ item ∈ items, g.Reaches item) →
      Derivation.CountedAll children
  | .nil, _ => trivial
  | .cons first others, reached =>
    ⟨first.counted integral (reached _ List.mem_cons_self),
      others.counted integral fun item member => reached item (List.mem_cons_of_mem _ member)⟩

theorem DerivesSome.counted (integral : g.IntegralBounds) {body : Rule}
    {children : List Derivation} :
    g.DerivesSome replaced body children → g.Reaches body → Derivation.CountedAll children
  | .nil, _ => trivial
  | .written _ others, reached => ⟨⟨nofun, trivial⟩, others.counted integral reached⟩
  | .expanded first others, reached =>
    ⟨first.counted integral reached, others.counted integral reached⟩

end

/-- One production, which may hold itself up to twice. -/
def nesting : Grammar :=
  { name := "s", start := "s", registry := ⟨[], false⟩
    productions :=
      [("s", .sequence [.literal "a", .repetition (.nonTerminal "s") (.between 0 2)])] }

theorem nesting_integral : nesting.IntegralBounds := by
  intro name body defined item bounds member
  simp only [body?, nesting, List.lookup_cons, List.lookup_nil] at defined
  split at defined
  next =>
    cases defined
    simp only [Rule.walk, Rule.walkFrom, Rule.children, List.cons_append, List.nil_append,
      List.mem_cons, reduceCtorEq, Rule.repetition.injEq, List.not_mem_nil, or_false,
      false_or] at member
    rw [member.2]
    exact Bounds.integral_between 0 2
  next => cases defined

end Grammar

end SentenceGen
