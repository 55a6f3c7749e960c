import SentenceGen.Proofs.Bindings
import SentenceGen.Proofs.Phases

/-!
# Plans that share productions

Two plans may agree on some productions and differ in everything else.  As long as only the shared
ones are about, their engines do the same with every rule that leads nowhere else.
-/

namespace SentenceGen

namespace Expand

variable {σ κ α β : Type}

/-- The open contexts and the innermost production have such names. -/
structure Amid (Known : String → Prop) (s : Expansion σ κ) : Prop where
  live : ∀ context ∈ s.live, Known context.name
  innermost : ∀ name ∈ s.productions.head?, Known name

/-- Amid known names the actions do the same, and leave contexts and productions as they were. -/
def Coincide (Known : String → Prop) (a a' : Expand σ κ α) : Prop :=
  ∀ s, Amid Known s → a'.exec s = a.exec s ∧ (a.exec s).2.live = s.live ∧
    (a.exec s).2.productions = s.productions

variable {Known : String → Prop}

theorem Amid.of_eq {s t : Expansion σ κ} (h : Amid Known s) (live_eq : t.live = s.live)
    (productions_eq : t.productions = s.productions) : Amid Known t where
  live := by
    rw [live_eq]
    exact h.live
  innermost := by
    rw [productions_eq]
    exact h.innermost

/-! ### Building blocks -/

theorem Coincide.bind {a a' : Expand σ κ α} {k k' : α → Expand σ κ β} (first : Coincide Known a a')
    (second : ∀ x s t, a.exec s = (.ok x, t) → Coincide Known (k x) (k' x)) :
    Coincide Known (a >>= k) (a' >>= k') := by
  intro s amid
  obtain ⟨same, live_eq, productions_eq⟩ := first s amid
  rcases ran : a.exec s with ⟨fault | x, t⟩
  · rw [ran] at same live_eq productions_eq
    rw [exec_bind_of_error ran, exec_bind_of_error same]
    exact ⟨rfl, live_eq, productions_eq⟩
  · rw [ran] at same live_eq productions_eq
    rw [exec_bind_of_ok ran, exec_bind_of_ok same]
    obtain ⟨sameToo, live_eq', productions_eq'⟩ :=
      second x s t ran t (amid.of_eq live_eq productions_eq)
    exact ⟨sameToo, live_eq'.trans live_eq, productions_eq'.trans productions_eq⟩

theorem Coincide.attempt {a a' : Expand σ κ α} {k k' : Except Fault α → Expand σ κ β}
    (first : Coincide Known a a') (second : ∀ result, Coincide Known (k result) (k' result)) :
    Coincide Known (attempt a k) (attempt a' k') := by
  intro s amid
  obtain ⟨same, live_eq, productions_eq⟩ := first s amid
  rw [exec_attempt, exec_attempt, same]
  obtain ⟨sameToo, live_eq', productions_eq'⟩ :=
    second (a.exec s).1 _ (amid.of_eq live_eq productions_eq)
  exact ⟨sameToo, live_eq'.trans live_eq, productions_eq'.trans productions_eq⟩

theorem coincide_lift (result : Except Fault α) :
    Coincide Known (liftM result : Expand σ κ α) (liftM result) :=
  fun _ _ => ⟨rfl, rfl, rfl⟩

theorem coincide_addNode (node : Node) :
    Coincide Known (addNode node : Expand σ κ NodeId) (addNode node) :=
  fun _ _ => ⟨rfl, rfl, rfl⟩

theorem coincide_leaf {plan plan' : Plan κ} (sized : plan'.maxSize = plan.maxSize) (label : Label)
    (parent : Option NodeId) :
    Coincide Known (leaf plan label parent : Expand σ κ Unit) (leaf plan' label parent) := by
  intro s _
  have judged (n : Nat) : appendOutcome plan' n = appendOutcome plan n := by
    rw [appendOutcome, appendOutcome, sized]
  obtain ⟨chunks, size, left⟩ := exec_leaf_left plan label parent s
  refine ⟨?_, by rw [left], by rw [left]⟩
  rw [exec_leaf, exec_leaf]
  simp only [judged]

theorem Coincide.within {a a' : Expand σ κ Unit} (inside : Coincide Known a a') {name : String}
    (known : Known name) : Coincide Known (within name a) (within name a') := by
  intro s amid
  have entered : Amid Known { s with productions := name :: s.productions } :=
    { live := amid.live
      innermost := by
        rintro _ ⟨⟩
        exact known }
  obtain ⟨same, live_eq, productions_eq⟩ := inside _ entered
  rw [exec_within, exec_within, same]
  exact ⟨rfl, live_eq, congrArg List.tail productions_eq⟩

theorem Coincide.nested {plan plan' : Plan κ} (deep : plan'.maxDepth = plan.maxDepth)
    {a a' : Expand σ κ Unit} (inside : Coincide Known a a') :
    Coincide Known (nested plan a) (nested plan' a') := by
  intro s amid
  have level : levelOutcome plan' (s.depth + 1) s.productions =
      levelOutcome plan (s.depth + 1) s.productions := by
    rw [levelOutcome, levelOutcome, deep]
  rw [exec_nested, exec_nested, level]
  cases levelOutcome plan (s.depth + 1) s.productions with
  | error fault => exact ⟨rfl, rfl, rfl⟩
  | ok _ =>
    obtain ⟨same, live_eq, productions_eq⟩ :=
      inside { s with depth := s.depth + 1 } (amid.of_eq rfl rfl)
    simp only [same]
    exact ⟨trivial, live_eq, productions_eq⟩

theorem coincide_forM {act act' : Rule → Expand σ κ Unit} {items : List Rule}
    (each : ∀ item ∈ items, Coincide Known (act item) (act' item)) :
    Coincide Known (items.forM act) (items.forM act') := by
  induction items with
  | nil => exact fun _ _ => ⟨rfl, rfl, rfl⟩
  | cons item rest ih =>
    rw [List.forall_mem_cons] at each
    exact each.1.bind fun _ _ _ _ => ih each.2

theorem coincide_writeTo {plan plan' : Plan κ} (sized : plan'.maxSize = plan.maxSize)
    (target : Context) (text : Datum) :
    Coincide Known (writeTo plan target text : Expand σ κ Unit) (writeTo plan' target text) := by
  intro s amid
  rw [exec_writeTo, exec_writeTo]
  by_cases live : s.live.contains target = true
  · rw [if_pos live, if_pos live]
    cases text with
    | str text => exact coincide_leaf sized { kind := .literal, text } _ s amid
    | _ => exact ⟨rfl, rfl, rfl⟩
  · rw [if_neg live, if_neg live]
    exact ⟨rfl, rfl, rfl⟩

/-! ### The first phase -/

variable [DecisionSource σ]

/-- Below the node of a rule come its parts, or the body of the production that it names. -/
theorem consult_items {plan : Plan κ} {rule item : Rule} {label : Label} {items : List Rule}
    {s t : Expansion σ κ} (done : (consult plan rule).exec s = (.ok (label, items), t))
    (member : item ∈ items) :
    item ∈ rule.children ∨
      ∃ name, rule = .nonTerminal name ∧ plan.grammar.body? name = some item := by
  cases rule with
  | literal | sequence =>
    cases done
    exact .inl member
  | stray => cases done
  | alternative branches =>
    simp only [consult, exec_bind_ok] at done
    obtain ⟨_, _, _, ⟨_, branch⟩, _, chosen, made⟩ := done
    cases made
    obtain ⟨_, found⟩ := branchOf_ok (lift_ok chosen).1
    rw [List.mem_singleton.mp member]
    exact .inl (List.mem_of_getElem? found)
  | optional inner =>
    simp only [consult, exec_bind_ok] at done
    obtain ⟨answer, _, _, made⟩ := done
    cases made
    by_cases present : answer.truthy = true
    · rw [if_pos present] at member
      exact .inl member
    · rw [if_neg present] at member
      cases member
  | repetition inner bounds =>
    simp only [consult, exec_bind_ok] at done
    obtain ⟨_, _, _, _, _, _, _, _, _, made⟩ := done
    cases made
    rw [List.eq_of_mem_replicate member]
    exact .inl (List.mem_singleton_self inner)
  | nonTerminal name =>
    simp only [consult, exec_bind_ok] at done
    obtain ⟨body, _, found, made⟩ := done
    cases made
    rw [List.mem_singleton.mp member]
    exact .inr ⟨name, rfl, production_ok (lift_ok found).1⟩
  | characters set =>
    simp only [consult, exec_bind_ok] at done
    obtain ⟨_, _, _, _, _, _, _, _, _, made⟩ := done
    cases made
    cases member

theorem coincide_consult (plan : Plan κ) (rule : Rule) :
    Coincide Known (consult plan rule : Expand σ κ _) (consult plan rule) := by
  intro s _
  obtain ⟨source, sites, _, left⟩ := consult_left plan rule s
  rw [left]
  exact ⟨rfl, rfl, rfl⟩

end Expand

/-! ### Shared productions -/

open Expand

/-- The plans have the same limits and agree on the productions with known names: on their bodies
and callbacks.  The rules reached from there put the same questions. -/
structure Plan.Share {κ : Type} (σ : Type) [DecisionSource σ] (Known : String → Prop)
    (Reached : Rule → Prop) (plan plan' : Plan κ) : Prop where
  child {rule item : Rule} : Reached rule → item ∈ rule.children → Reached item
  body {name : String} {body : Rule} : Known name → plan.grammar.body? name = some body →
    Reached body
  body_eq {name : String} : Known name → plan'.grammar.body? name = plan.grammar.body? name
  find_eq {name : String} : Known name →
    plan'.replacements.find? name = plan.replacements.find? name
  consult_eq {set : CharacterSet} : Reached (.characters set) →
    (consult plan' (.characters set) : Expand σ κ _) = consult plan (.characters set)
  maxDepth_eq : plan'.maxDepth = plan.maxDepth
  maxSize_eq : plan'.maxSize = plan.maxSize

namespace Plan.Share

variable {σ κ : Type} [DecisionSource σ] {Known : String → Prop} {Reached : Rule → Prop}
  {plan plan' : Plan κ} (share : plan.Share σ Known Reached plan')
include share

theorem production_eq {name : String} (known : Known name) :
    plan'.grammar.production name = plan.grammar.production name := by
  rw [Grammar.production, Grammar.production, share.body_eq known]

theorem consult_eq_of_reached {rule : Rule} (reached : Reached rule)
    (known : ∀ name, rule = .nonTerminal name → Known name) :
    (consult plan' rule : Expand σ κ _) = consult plan rule := by
  cases rule with
  | nonTerminal name => simp only [consult, share.production_eq (known name rfl)]
  | characters set => exact share.consult_eq reached
  | _ => rfl

variable {expand₁ expand₂ : Rule → Option NodeId → Expand σ κ Unit}
  (each : ∀ rule parent, Reached rule →
    Coincide Known (expand₁ rule parent) (expand₂ rule parent))
include each

theorem coincide_grow {label : Label} {items : List Rule} (parent : Option NodeId)
    (inside : ∀ item ∈ items, Reached item)
    (known : ∀ name, label.kind = .nonTerminal → label.name = some name → Known name) :
    Coincide Known (grow plan expand₁ parent label items)
      (grow plan' expand₂ parent label items) := by
  have below (id : NodeId) : Coincide Known (items.forM fun item => expand₁ item (some id))
      (items.forM fun item => expand₂ item (some id)) :=
    coincide_forM fun item member => each item _ (inside item member)
  unfold grow
  by_cases leaf : label.kind.isLeaf = true
  · rw [if_pos leaf, if_pos leaf]
    exact coincide_leaf share.maxSize_eq label parent
  · rw [if_neg leaf, if_neg leaf]
    apply (coincide_addNode _).bind
    intro id _ _ _
    split
    next name production named => exact (below id).within (known name production named)
    next => exact below id

/-- A callback can have no other production expanded than those that are open. -/
theorem coincide_expandIn (target : Context) :
    Coincide Known (expandIn plan expand₁ target) (expandIn plan' expand₂ target) := by
  intro s amid
  unfold expandIn
  rw [exec_bind, exec_bind, exec_requireOpen]
  by_cases live : s.live.contains target = true
  · rw [if_pos live]
    have known := amid.live target (List.contains_iff_mem.mp live)
    simp only [share.production_eq known]
    apply ((coincide_lift _).bind ?_) s amid
    intro body _ _ found
    exact each body _ (share.body known (production_ok (lift_ok found).1))
  · rw [if_neg live]
    exact ⟨rfl, rfl, rfl⟩

theorem coincide_serve (program : Program κ (Except Fault Unit)) :
    Coincide Known (serve plan expand₁ program) (serve plan' expand₂ program) := by
  induction program with
  | done result => exact fun _ _ => ⟨rfl, rfl, rfl⟩
  | write target text next ih =>
    rw [serve_write, serve_write]
    exact (coincide_writeTo share.maxSize_eq target text).attempt ih
  | expand target next ih =>
    rw [serve_expand, serve_expand]
    exact (share.coincide_expandIn each target).attempt ih
  | ask question next ih =>
    rw [serve_ask, serve_ask]
    apply Coincide.attempt ?_ ih
    exact fun _ _ => ⟨rfl, rfl, rfl⟩
  | look next ih => exact fun s amid => ih ⟨s.tree, s.user⟩ s amid
  | store user next ih => exact fun s amid => ih { s with user } (amid.of_eq rfl rfl)

theorem coincide_replace (callback : Callback κ) {target : Context} (known : Known target.name) :
    Coincide Known (replace plan expand₁ callback target)
      (replace plan' expand₂ callback target) := by
  intro s amid
  have opened : Amid Known { s with live := target :: s.live } :=
    { live := List.forall_mem_cons.mpr ⟨known, amid.live⟩
      innermost := amid.innermost }
  obtain ⟨same, live_eq, productions_eq⟩ := share.coincide_serve each (callback target).run _ opened
  rw [exec_replace, exec_replace]
  simp only [same]
  refine ⟨trivial, ?_, productions_eq⟩
  rw [live_eq, List.erase_cons_head]

/-- The engines do the same with a rule that leads nowhere else. -/
theorem coincide_step {rule : Rule} (parent : Option NodeId)
    (reached : Reached rule)
    (known : ∀ name, rule = .nonTerminal name → Known name) :
    Coincide Known (step plan expand₁ rule parent) (step plan' expand₂ rule parent) := by
  rcases kept_or_bound plan rule with kept | ⟨name, callback, rfl, found⟩
  case inr =>
    have known := known name rfl
    rw [step_nonTerminal, step_nonTerminal, share.production_eq known]
    apply (coincide_lift _).bind
    intro body _ _ _
    apply (coincide_addNode _).bind
    intro id _ _ _
    apply Coincide.within ?_ known
    rw [produce, produce, share.find_eq known, found]
    intro s
    have knownTarget : Known (Context.mk s.call id name).name := known
    exact share.coincide_replace each callback knownTarget s
  case inl =>
    have keptToo (name : String) (same : rule = .nonTerminal name) :
        plan'.replacements.find? name = none := by
      rw [share.find_eq (known name same)]
      exact kept name same
    rw [step_eq plan expand₁ rule parent kept, step_eq plan' expand₂ rule parent keptToo,
      share.consult_eq_of_reached reached known]
    apply (coincide_consult plan rule).bind
    rintro ⟨label, items⟩ s t done
    apply share.coincide_grow each parent
    · intro item member
      rcases consult_items done member with inside | ⟨name, same, defined⟩
      · exact share.child reached inside
      · exact share.body (known name same) defined
    · intro name production named
      rcases consult_label done with ⟨_, other, same, named'⟩ | ⟨other, _⟩
      · obtain rfl : other = name := Option.some.inj (named'.symm.trans named)
        exact known other same
      · exact absurd production other

omit each in
/-- If only known names are reached, the engines do the same at every depth. -/
theorem coincide_expand (known : ∀ name, Reached (.nonTerminal name) → Known name) (fuel : Nat)
    {rule : Rule} (parent : Option NodeId) (reached : Reached rule) :
    Coincide (σ := σ) Known (expand plan fuel rule parent) (expand plan' fuel rule parent) := by
  induction fuel generalizing rule parent with
  | zero => exact fun _ _ => ⟨rfl, rfl, rfl⟩
  | succ fuel ih =>
    apply Coincide.nested share.maxDepth_eq
    apply share.coincide_step (fun _ parent => ih parent) parent reached
    rintro name rfl
    exact known name reached

end Plan.Share

/-! ### Generators of grammars that share productions -/

namespace Generator

variable {κ : Type} {grammar : Grammar} {entries : List (Datum ⊕ Binding (Callback κ))}
  {default : Option (Callback κ)} {config : Config} {g : Generator κ}

/-- The bindings that a generator is made of, the default among them. -/
theorem bindings_of_new (made : new grammar entries default config = .ok g) :
    ∃ bindings : List (Binding (Callback κ)),
      (entries ++ default.toList.map fun callback => .inr (.default callback)) =
          bindings.map .inr ∧
        Bindable grammar.defines bindings ∧
        ∀ production callback, g.replacements.bound? production = some callback ↔
          ⟨production, callback⟩ ∈ bindings := by
  obtain ⟨table, _, tableMade, _, rfl⟩ := new_eq_ok made
  obtain ⟨bindings, listed, _⟩ := Replacements.bindable_of_addAll tableMade
  rw [listed] at tableMade
  exact ⟨bindings, listed, Replacements.ofBindings_eq_ok tableMade⟩

/-- A generator can be made of bindings that fit the grammar, if its character sets stand for
classes. -/
theorem new_of_bindable {bindings : List (Binding (Callback κ))}
    (listed : (entries ++ default.toList.map fun callback => .inr (.default callback)) =
      bindings.map .inr)
    (bindable : Bindable grammar.defines bindings)
    (resolvable : ∀ set, .characters set ∈ rulesOf grammar →
      ∃ c, grammar.registry.ofSet set = .ok c) (config : Config) :
    ∃ g, new grammar entries default config = .ok g := by
  obtain ⟨replacements, tableMade, _⟩ := Replacements.ofBindings_of_bindable bindable
  obtain ⟨classes, resolved⟩ := resolveSets_of_ofSet resolvable []
  rw [new, listed, tableMade, resolved]
  exact ⟨_, rfl⟩

end Generator

/-- What a generator resolved for a set is the class that the set stands for. -/
theorem Generator.Resolved.classOf_eq {κ : Type} {g : Generator κ} (resolved : g.Resolved)
    {set : CharacterSet} {name : String} {body : Rule} (defined : g.grammar.body? name = some body)
    (visited : .characters set ∈ body.walk) {c : CharacterClass}
    (stands : g.grammar.registry.ofSet set = .ok c) : classOf g.plan set = .ok c := by
  obtain ⟨members, found⟩ :=
    Option.isSome_iff_exists.mp (resolved.covers set (.inr ⟨name, body, defined, visited⟩))
  have found : g.plan.classes.lookup set = some members := found
  rw [classOf, found, ← stands, resolved.sound set members found]

end SentenceGen
