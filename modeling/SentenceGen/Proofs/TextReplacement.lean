import SentenceGen.Proofs.Ceilings
import SentenceGen.Proofs.Checks
import SentenceGen.Proofs.Resolution
import SentenceGen.Proofs.SharedRules

/-!
# Replacing a production by a text

To bind a production to a callback that only writes a text is to give it that text for its body.
The callback writes where it is called, and the literal is one level deeper, so the two runs come to
the ceiling at different depths; below the ceiling they are the same.
-/

namespace SentenceGen

/-- A callback that only writes a text. -/
def Callback.writing {κ : Type} (text : String) : Callback κ :=
  fun own => Action.write own (.str text)

/-! ### Another body for a production -/

/-- What is found under a key, after another value was put under one of the keys. -/
theorem lookup_put {α : Type} (entries : List (String × α)) (name other : String) (value : α) :
    (entries.map fun entry => if entry.1 = name then (entry.1, value) else entry).lookup other =
      (entries.lookup other).map fun old => if other = name then value else old := by
  induction entries with
  | nil => rfl
  | cons entry rest ih =>
    have key : (if entry.1 = name then (entry.1, value) else entry).1 = entry.1 := by
      split <;> rfl
    rw [List.map_cons, List.lookup_cons, List.lookup_cons, key]
    by_cases same : other = entry.1
    · subst same
      by_cases edited : entry.1 = name <;> simp [edited]
    · simp only [beq_eq_false_iff_ne.mpr same]
      exact ih

namespace Grammar

/-- The grammar in which a production has another body. -/
def redefine (g : Grammar) (name : String) (body : Rule) : Grammar :=
  { g with productions := g.productions.map fun entry =>
      if entry.1 = name then (entry.1, body) else entry }

theorem body?_redefine (g : Grammar) (name other : String) (body : Rule) :
    (g.redefine name body).body? other =
      (g.body? other).map fun old => if other = name then body else old :=
  lookup_put g.productions name other body

theorem body?_redefine_of_ne {g : Grammar} {name other : String} {body : Rule}
    (different : other ≠ name) : (g.redefine name body).body? other = g.body? other := by
  simp [body?_redefine, different]

theorem defines_redefine (g : Grammar) (name : String) (body : Rule) :
    (g.redefine name body).defines = g.defines := by
  funext other
  simp [defines, body?_redefine]

theorem mem_rulesOf_redefine {g : Grammar} {name : String} {body rule : Rule}
    (member : rule ∈ Generator.rulesOf (g.redefine name body)) :
    rule ∈ Generator.rulesOf g ∨ rule ∈ body.walk := by
  obtain ⟨entry, listed, visited⟩ := List.mem_flatMap.mp member
  obtain ⟨old, oldListed, rfl⟩ := List.mem_map.mp listed
  by_cases edited : old.1 = name
  · rw [if_pos edited] at visited
    exact .inr visited
  · rw [if_neg edited] at visited
    exact .inl (List.mem_flatMap.mpr ⟨old, oldListed, visited⟩)

end Grammar

theorem Rule.walk_literal (text : String) : walk (.literal text) = [.literal text] := by
  simp [walk, walkFrom, children]

namespace Builder

/-- The builder in which a production has but one rule. -/
def redefine (b : Builder) (name : String) (rule : Rule) : Builder :=
  { b with pending := b.pending.map fun entry =>
      if entry.1 = name then (entry.1, [rule]) else entry }

variable {b : Builder} {g : Grammar}

theorem defines_redefine (b : Builder) (name : String) (rule : Rule) :
    (b.redefine name rule).defines = b.defines := by
  funext other
  have found : (b.redefine name rule).rulesOf? other = _ := lookup_put b.pending name other [rule]
  rw [defines, found, Option.isSome_map]
  rfl

theorem bodies_redefine (b : Builder) (name : String) (rule : Rule) :
    (b.redefine name rule).bodies =
      b.bodies.map fun entry => if entry.1 = name then (entry.1, rule) else entry := by
  unfold bodies redefine
  rw [List.map_map, List.map_map]
  apply List.map_congr_left
  intro entry _
  by_cases edited : entry.1 = name <;> simp [edited, bodyOf]

/-- What a rule needs of a builder are the names defined and the classes. -/
theorem checkRule_redefine (b : Builder) (name : String) (rule : Rule) :
    (b.redefine name rule).checkRule = b.checkRule := by
  funext production other
  unfold checkRule
  rw [defines_redefine]
  rfl

/-- The edited builder builds the edited grammar. -/
theorem build_redefine (built : b.build = .ok g) (name text : String) :
    (b.redefine name (.literal text)).build = .ok (g.redefine name (.literal text)) := by
  obtain ⟨started, rfl, checked⟩ := build_ok built
  have start : (b.redefine name (.literal text)).defines (b.redefine name (.literal text)).start =
      true := by
    rw [defines_redefine]
    exact started
  rw [build_of_checked start ?_, bodies_redefine]
  · rfl
  · rw [bodies_redefine, checkRule_redefine]
    intro entry listed rule visited
    obtain ⟨old, oldListed, rfl⟩ := List.mem_map.mp listed
    by_cases edited : old.1 = name
    · rw [if_pos edited, Rule.walk_literal] at visited
      rw [List.mem_singleton.mp visited]
      rfl
    · rw [if_neg edited] at visited ⊢
      exact checked old oldListed rule visited

end Builder

/-! ### The two engines -/

namespace Expand

variable {σ κ : Type} {plan : Plan κ} {name text : String}

/-- Directly below the production, the text is written as a leaf. -/
def Writes (plan : Plan κ) (name text : String)
    (expandOne : Rule → Option NodeId → Expand σ κ Unit) : Prop :=
  ∀ id s, s.productions.head? = some name →
    (expandOne (.literal text) (some id)).exec s =
      (leaf plan { kind := .literal, text } (some id)).exec s

/-- Writes the text directly below the production, and does something else everywhere else. -/
def textOver (plan : Plan κ) (name text : String)
    (otherwise : Rule → Option NodeId → Expand σ κ Unit) (rule : Rule) (parent : Option NodeId) :
    Expand σ κ Unit := do
  if (← get).productions.head? = some name then leaf plan { kind := .literal, text } parent
  else otherwise rule parent

theorem exec_textOver (plan : Plan κ) (otherwise : Rule → Option NodeId → Expand σ κ Unit)
    (rule : Rule) (parent : Option NodeId) (s : Expansion σ κ) :
    (textOver plan name text otherwise rule parent).exec s =
      if s.productions.head? = some name then
        (leaf plan { kind := .literal, text } parent).exec s
      else (otherwise rule parent).exec s := by
  rw [textOver, exec_bind, exec_get]
  by_cases here : s.productions.head? = some name
  · simp only [if_pos here]
  · simp only [if_neg here]

theorem writes_textOver (plan : Plan κ) (otherwise : Rule → Option NodeId → Expand σ κ Unit) :
    Writes plan name text (textOver plan name text otherwise) := by
  intro id s here
  rw [exec_textOver, if_pos here]

theorem coincide_textOver (plan : Plan κ) {otherwise : Rule → Option NodeId → Expand σ κ Unit}
    (restored : ∀ rule parent,
      Meets (fun s _ t => t.live = s.live ∧ t.productions = s.productions) (otherwise rule parent))
    (rule : Rule) (parent : Option NodeId) :
    Coincide (· ≠ name) (otherwise rule parent)
      (textOver plan name text otherwise rule parent) := by
  intro s amid
  have elsewhere : s.productions.head? ≠ some name := fun here => amid.innermost name here rfl
  rw [exec_textOver, if_neg elsewhere]
  exact ⟨rfl, restored rule parent s⟩

variable [DecisionSource σ]

theorem exec_replace_writing (plan : Plan κ) (expandOne : Rule → Option NodeId → Expand σ κ Unit)
    (text : String) (target : Context) (s : Expansion σ κ) :
    (replace plan expandOne (Callback.writing text) target).exec s =
      (leaf plan { kind := .literal, text } (some target.node)).exec s := by
  have served (t : Expansion σ κ) :
      (serve plan expandOne (Callback.writing text target).run).exec t =
        (writeTo plan target (.str text)).exec t := rfl
  rw [exec_replace, served, exec_writeTo, List.contains_cons, beq_self_eq_true, Bool.true_or,
    if_pos rfl]
  simp only
  rw [exec_leaf, exec_leaf]
  rcases s.tree.add (Label.under { kind := .literal, text } (some target.node)) with
    ⟨fault | id, tree⟩
  · simp only [List.erase_cons_head]
  · by_cases empty : text = ""
    · simp only [empty, if_true, List.erase_cons_head]
    · simp only [empty, if_false, List.erase_cons_head]

theorem writes_nested (unlimited : plan.maxDepth = none)
    (expandOne : Rule → Option NodeId → Expand σ κ Unit) :
    Writes plan name text fun rule parent => nested plan (step plan expandOne rule parent) := by
  intro id s _
  have level : levelOutcome plan (s.depth + 1) s.productions = .ok () := by
    rw [levelOutcome, unlimited]
  have written : step plan expandOne (.literal text) (some id) =
      leaf plan { kind := .literal, text } (some id) := rfl
  rw [exec_nested, level, written, exec_leaf, exec_leaf]
  rcases s.tree.add (Label.under { kind := .literal, text } (some id)) with ⟨fault | place, tree⟩
  · simp only [Nat.add_sub_cancel]
  · by_cases empty : text = ""
    · simp only [empty, if_true, Nat.add_sub_cancel]
    · simp only [empty, if_false, Nat.add_sub_cancel]

theorem writes_expand (unlimited : plan.maxDepth = none) (fuel : Nat) :
    Writes plan name text (expand (σ := σ) plan (fuel + 1)) :=
  writes_nested unlimited (expand plan fuel)

end Expand

/-- A reference, or a rule in a production that has one of the names. -/
def Grammar.ReachesFrom (g : Grammar) (Known : String → Prop) (rule : Rule) : Prop :=
  (∃ name, rule = .nonTerminal name) ∨
    ∃ name body, Known name ∧ g.body? name = some body ∧ rule ∈ body.walk

theorem Grammar.ReachesFrom.child {g : Grammar} {Known : String → Prop} {rule item : Rule}
    (reached : g.ReachesFrom Known rule) (inside : item ∈ rule.children) :
    g.ReachesFrom Known item := by
  rcases reached with ⟨name, rfl⟩ | ⟨name, body, known, defined, visited⟩
  · cases inside
  · exact .inr ⟨name, body, known, defined, Rule.mem_walkFrom_of_mem_children inside visited⟩

open Expand

/-- The first plan has the production bound to a callback that writes the text, the second one has
the text for its body.  They share all other productions. -/
structure Plan.Rewrites {κ : Type} (σ : Type) [DecisionSource σ] (name text : String)
    (plan plan' : Plan κ) : Prop
    extends plan.Share σ (· ≠ name) (plan.grammar.ReachesFrom (· ≠ name)) plan' where
  defined : plan.grammar.defines name = true
  bound : plan.replacements.find? name = some (Callback.writing text)
  redefined : plan'.grammar.body? name = some (.literal text)
  unbound : plan'.replacements.find? name = none
  unlimited : plan'.maxDepth = none

namespace Plan.Rewrites

variable {σ κ : Type} [DecisionSource σ] {plan plan' : Plan κ} {name text : String}
  (rewrites : plan.Rewrites σ name text plan')
include rewrites

theorem coincide_nonTerminal {expand₁ expand₂ : Rule → Option NodeId → Expand σ κ Unit}
    (writes : Writes plan' name text expand₂) (parent : Option NodeId) :
    Coincide (· ≠ name) (step plan expand₁ (.nonTerminal name) parent)
      (step plan' expand₂ (.nonTerminal name) parent) := by
  obtain ⟨body, defined⟩ := Option.isSome_iff_exists.mp rewrites.defined
  have production : plan.grammar.production name = .ok body := by simp [Grammar.production, defined]
  have production' : plan'.grammar.production name = .ok (.literal text) := by
    simp [Grammar.production, rewrites.redefined]
  rw [step_nonTerminal, step_nonTerminal, production, production', lift_bind, lift_bind]
  apply (coincide_addNode _).bind
  intro id _ _ _ s amid
  have inside : s.productions.head? ≠ some name := fun here => amid.innermost name here rfl
  rw [exec_within, exec_within, produce, produce, rewrites.bound, rewrites.unbound]
  simp only
  rw [exec_ownCall_bind, exec_replace_writing, writes id _ rfl]
  have leaves : Coincide (fun _ => True)
      (leaf plan { kind := .literal, text } (some id) : Expand σ κ Unit)
      (leaf plan' { kind := .literal, text } (some id)) := coincide_leaf rewrites.maxSize_eq _ _
  obtain ⟨same, live_eq, productions_eq⟩ :=
    leaves { s with productions := name :: s.productions } ⟨fun _ _ => trivial, fun _ _ => trivial⟩
  rw [same]
  exact ⟨rfl, live_eq, congrArg List.tail productions_eq⟩

theorem coincide_expandOver {beyond beyond' : Rule → Option NodeId → Expand σ κ Unit}
    (further : ∀ rule parent, plan.grammar.ReachesFrom (· ≠ name) rule →
      Coincide (· ≠ name) (beyond rule parent) (beyond' rule parent))
    (writes : Writes plan' name text beyond') (fuel : Nat) (rule : Rule) (parent : Option NodeId)
    (reached : plan.grammar.ReachesFrom (· ≠ name) rule) :
    Coincide (· ≠ name) (expandOver beyond plan fuel rule parent)
      (expandOver beyond' plan' fuel rule parent) := by
  induction fuel generalizing rule parent with
  | zero => exact further rule parent reached
  | succ fuel ih =>
    have writesOn : Writes plan' name text (expandOver beyond' plan' fuel) := by
      cases fuel with
      | zero => exact writes
      | succ fuel => exact writes_nested rewrites.unlimited _
    apply Coincide.nested rewrites.maxDepth_eq
    by_cases here : rule = .nonTerminal name
    · subst here
      exact rewrites.coincide_nonTerminal writesOn parent
    · apply rewrites.coincide_step ih parent reached
      rintro other same rfl
      exact here same

end Plan.Rewrites

namespace Generator

variable {κ : Type} {b : Builder} {grammar : Grammar} {before after : List (Binding (Callback κ))}
  {name text : String} {config : Config} {g g' : Generator κ}

theorem bindings_of_new_none {bindings : List (Binding (Callback κ))}
    (made : new grammar (bindings.map .inr) none config = .ok g) :
    Bindable grammar.defines bindings ∧ ∀ production callback,
      g.replacements.bound? production = some callback ↔ ⟨production, callback⟩ ∈ bindings := by
  obtain ⟨listed, same, rest⟩ := bindings_of_new made
  rw [Option.toList_none, List.map_nil, List.append_nil] at same
  obtain rfl : bindings = listed := List.map_injective_iff.mpr (fun _ _ => Sum.inr.inj) same
  exact rest

/-- The edited grammar makes a generator without the binding. -/
theorem new_redefine
    (made : new grammar ((before ++ ⟨some name, .writing text⟩ :: after).map .inr) none config =
      .ok g) :
    ∃ g', new (grammar.redefine name (.literal text)) ((before ++ after).map .inr) none config =
      .ok g' := by
  have bindable := (bindings_of_new_none made).1
  have kept : (before ++ after).Sublist (before ++ ⟨some name, .writing text⟩ :: after) :=
    (List.sublist_cons_self _ _).append_left before
  have fits : Bindable (grammar.redefine name (.literal text)).defines (before ++ after) := by
    rw [Grammar.defines_redefine]
    constructor
    · exact bindable.distinct.sublist (kept.map _)
    · intro b member
      exact bindable.defined b (kept.subset member)
  apply new_of_bindable (by simp) fits
  intro set member
  rcases Grammar.mem_rulesOf_redefine member with before | edited
  · exact ofSet_of_new made before
  · simp [Rule.walk_literal] at edited

/-- It shares everything else with the generator that has the binding. -/
theorem rewrites_of_new {σ : Type} [DecisionSource σ]
    (named : ∀ b ∈ before ++ after, b.production ≠ none)
    (unlimited : config.limits.maxDepth = .null)
    (made : new grammar ((before ++ ⟨some name, .writing text⟩ :: after).map .inr) none config =
      .ok g)
    (madeToo : new (grammar.redefine name (.literal text)) ((before ++ after).map .inr) none
      config = .ok g') : g.plan.Rewrites σ name text g'.plan := by
  obtain ⟨bindable, held⟩ := bindings_of_new_none made
  obtain ⟨_, heldToo⟩ := bindings_of_new_none madeToo
  have listed : (⟨some name, .writing text⟩ : Binding (Callback κ)) ∈
      before ++ ⟨some name, .writing text⟩ :: after := by simp
  have bare : g.replacements.bound? none = none := by
    rw [Option.eq_none_iff_forall_ne_some]
    intro callback bound
    rcases List.mem_append.mp ((held _ _).mp bound) with first | second
    · exact named _ (List.mem_append_left _ first) rfl
    · rcases List.mem_cons.mp second with same | later
      · cases same
      · exact named _ (List.mem_append_right _ later) rfl
  have bareToo : g'.replacements.bound? none = none := by
    rw [Option.eq_none_iff_forall_ne_some]
    intro callback bound
    exact named _ ((heldToo _ _).mp bound) rfl
  have unbound : g'.replacements.bound? (some name) = none := by
    rw [Option.eq_none_iff_forall_ne_some]
    intro callback bound
    have distinct := bindable.distinct
    rw [List.map_append, List.map_cons, List.nodup_middle, List.nodup_cons, ← List.map_append]
      at distinct
    exact distinct.1 (List.mem_map.mpr ⟨_, (heldToo _ _).mp bound, rfl⟩)
  have others {other : String} (different : other ≠ name) :
      g'.replacements.bound? (some other) = g.replacements.bound? (some other) := by
    apply Option.ext
    intro callback
    rw [held, heldToo]
    simp [different]
  have resolved := resolved_of_new made
  have resolvedToo := resolved_of_new madeToo
  obtain ⟨table, _, _, _, rfl⟩ := new_eq_ok made
  obtain ⟨table', _, _, _, rfl⟩ := new_eq_ok madeToo
  have defined : grammar.defines name = true := bindable.defined _ listed name rfl
  exact {
    child := Grammar.ReachesFrom.child
    body := fun different found => .inr ⟨_, _, different, found, Rule.mem_walk_self _⟩
    body_eq := Grammar.body?_redefine_of_ne
    find_eq := fun different => by
      simp only [plan, Replacements.find?_eq, others different, bare, bareToo]
    consult_eq := by
      rintro set (⟨_, same⟩ | ⟨other, body, different, found, visited⟩)
      · cases same
      have kept : (grammar.redefine name (.literal text)).body? other = some body := by
        rw [Grammar.body?_redefine_of_ne different]
        exact found
      obtain ⟨c, stands⟩ := ofSet_of_new made (mem_rulesOf found visited)
      simp only [consult, resolved.classOf_eq found visited stands,
        resolvedToo.classOf_eq kept visited stands]
    maxDepth_eq := rfl
    maxSize_eq := rfl
    defined
    bound := by
      simp only [plan, Replacements.find?_eq, (held _ _).mpr listed]
      rfl
    redefined := by
      obtain ⟨body, found⟩ := Option.isSome_iff_exists.mp defined
      simp [plan, Grammar.body?_redefine, found]
    unbound := by
      simp only [plan, Replacements.find?_eq, unbound, bareToo]
      rfl
    unlimited := by
      simp only [plan, unlimited]
      rfl }

section

variable {σ : Type} [DecisionSource σ] (rewrites : g.plan.Rewrites σ name text g'.plan)
  {call : Call} {higher : Nat} {start : Option String} {source : σ} {user : κ} {first : String}
include rewrites

/-- What the first engine does, the second one does if the text may stand one level deeper. -/
theorem expandOver_textOver (extra ceiling : Nat) :
    (expandOver (textOver g'.plan name text (expand g.plan extra)) g'.plan ceiling
        (.nonTerminal first) none).exec (call.begin source user) =
      (expand g.plan (extra + ceiling) (.nonTerminal first) none).exec
        (call.begin source user) := by
  have amid : Amid (· ≠ name) (call.begin source user : Expansion σ κ) := ⟨by simp, by simp⟩
  rw [← expandOver_expand]
  exact (rewrites.coincide_expandOver
    (fun rule parent _ => coincide_textOver _ (restores_expand g.plan extra) rule parent)
    (writes_textOver _ _) ceiling (.nonTerminal first) none (.inl ⟨first, rfl⟩) _ amid).1

theorem expand_of_staysBelow_redefined (more : call.ceiling ≤ higher)
    (below : g'.StaysBelow call start source user) (found : g'.startOf start = .ok first) :
    (expand g'.plan higher (.nonTerminal first) none).exec (call.begin source user) =
      (expand g.plan higher (.nonTerminal first) none).exec (call.begin source user) := by
  obtain ⟨extra, rfl⟩ : ∃ extra, higher = extra + call.ceiling :=
    ⟨higher - call.ceiling, by omega⟩
  rw [← expandOver_textOver rewrites extra call.ceiling, ← expandOver_expand, below first found,
    below first found]

theorem expand_of_staysBelow_bound (more : call.ceiling < higher)
    (below : g.StaysBelow call start source user) (found : g.startOf start = .ok first) :
    (expand g'.plan higher (.nonTerminal first) none).exec (call.begin source user) =
      (expand g.plan higher (.nonTerminal first) none).exec (call.begin source user) := by
  obtain ⟨extra, rfl⟩ : ∃ extra, higher = extra + 1 + call.ceiling :=
    ⟨higher - call.ceiling - 1, by omega⟩
  have further (rule : Rule) (parent : Option NodeId) :
      Coincide (σ := σ) (· ≠ name) (expand g'.plan (extra + 1) rule parent)
        (expand g'.plan (extra + 1) rule parent) :=
    fun s _ => ⟨rfl, restores_expand g'.plan (extra + 1) rule parent s⟩
  have amid : Amid (· ≠ name) (call.begin source user : Expansion σ κ) := ⟨by simp, by simp⟩
  have same := (rewrites.coincide_expandOver (fun rule parent _ => further rule parent)
    (writes_expand rewrites.unlimited extra) call.ceiling (.nonTerminal first) none
    (.inl ⟨first, rfl⟩) _ amid).1
  rw [← expandOver_expand g'.plan (extra + 1), ← expandOver_expand g.plan (extra + 1), same,
    below first found, below first found]

end

/-- A binding to a callback that only writes a text does what the text does as the body of the
production.  The edited grammar is one that a builder makes, and it makes a generator without the
binding.  The literal is one level deeper than the callback.  If that level does not count, all runs
are the same; and as soon as one of two runs stays below a ceiling, both are the same under every
higher one, in outcome, tree, text and state of the source and in what they log. -/
theorem runs_redefined (built : b.build = .ok grammar)
    (named : ∀ b ∈ before ++ after, b.production ≠ none)
    (unlimited : config.limits.maxDepth = .null)
    (made : new grammar ((before ++ ⟨some name, .writing text⟩ :: after).map .inr) none config =
      .ok g) :
    (b.redefine name (.literal text)).build = .ok (grammar.redefine name (.literal text)) ∧
    ∃ g', new (grammar.redefine name (.literal text)) ((before ++ after).map .inr) none config =
        .ok g' ∧
      ∀ {σ : Type} [DecisionSource σ] (call : Call) (start : Option String) (source : σ)
        (user : κ),
        g'.runOver (textOver g'.plan name text fun _ _ => throw .nestingExhausted) call start
            source user =
          ((g.runWithin call start source user).outcome,
            (g.runWithin call start source user).final) ∧
        (g.StaysBelow call start source user → ∀ higher > call.ceiling,
          g'.runWithin { call with ceiling := higher } start source user =
            g.runWithin { call with ceiling := higher } start source user) ∧
        (g'.StaysBelow call start source user → ∀ higher ≥ call.ceiling,
          g'.runWithin { call with ceiling := higher } start source user =
            g.runWithin { call with ceiling := higher } start source user) := by
  obtain ⟨g', madeToo⟩ := new_redefine made
  refine ⟨Builder.build_redefine built name text, g', madeToo, ?_⟩
  intro σ _ call start source user
  have rewrites : g.plan.Rewrites σ name text g'.plan :=
    rewrites_of_new named unlimited made madeToo
  have same : g'.grammar = g.grammar.redefine name (.literal text) := by
    rw [grammar_of_new made, grammar_of_new madeToo]
  have starts : g'.startOf start = g.startOf start := by
    simp only [startOf, same, Grammar.defines_redefine]
    rfl
  have called : g'.grammar.name = g.grammar.name := by
    rw [same]
    rfl
  refine ⟨?_, ?_, ?_⟩
  · apply runOver_congr starts
    intro first _
    rw [← expand_zero g.plan, expandOver_textOver rewrites, Nat.zero_add]
  · intro below higher more
    apply runWithin_congr called starts
    intro first found
    have same := expand_of_staysBelow_bound rewrites more below found
    exact same
  · intro below higher more
    apply runWithin_congr called starts
    intro first found
    have same := expand_of_staysBelow_redefined rewrites more below (starts.trans found)
    exact same

/-- Sentences of letters, each with a dot. -/
def dotting : Builder where
  start := "s"
  name := "s"
  registry := lettering.registry
  pending :=
    [("s", [.sequence [.nonTerminal "p", .nonTerminal "q", .optional (.nonTerminal "s")]]),
      ("p", [.characters lastLetter]), ("q", [.literal "."])]

/-- Expands its production twice. -/
def doubling : Binding (Callback Unit) :=
  ⟨some "q", fun own => do Action.expandDefault own; Action.expandDefault own⟩

def dotted : Generator Unit where
  grammar :=
    { name := "s", start := "s", productions := dotting.bodies, registry := dotting.registry }
  replacements.named := [("q", doubling.callback), ("p", .writing "!")]
  config := { limits := { maxOutputSize := .int 4 } }
  classes := [(lastLetter, ⟨"AB", [98]⟩)]

theorem dotting_built : dotting.build = .ok dotted.grammar := by
  simp [Builder.build, dotting, Builder.bodies, Builder.bodyOf, Rule.walk, Rule.walkFrom,
    Rule.children, Builder.checkRule, Builder.defines, Builder.rulesOf?, List.lookup_cons]
  rfl

/-- Writes a mark, whatever its production says. -/
def marking : Binding (Callback Unit) := ⟨some "p", .writing "!"⟩

theorem dotted_made :
    new dotted.grammar (([doubling] ++ marking :: []).map .inr) none dotted.config =
      .ok dotted := by
  simp [new, rulesOf, dotted, dotting, Builder.bodies, Builder.bodyOf, Rule.walk, Rule.walkFrom,
    Rule.children, resolveSets]
  rfl

theorem dotted_propagate : dotted.replacements.Propagate := by
  intro name callback bound target
  have found : (dotted.replacements.named.lookup name).or none = some callback := bound
  rw [Option.or_none, List.lookup_eq_some_iff] at found
  obtain ⟨before, after, split, _⟩ := found
  have listed : (name, callback) ∈ dotted.replacements.named := by simp [split]
  rcases List.mem_cons.mp listed with first | listed
  · cases first
    refine ⟨fun fault => rfl, fun expanded => ?_⟩
    cases expanded with
    | error fault => trivial
    | ok _ => exact ⟨fun fault => rfl, fun expanded => by cases expanded <;> trivial⟩
  · cases List.mem_singleton.mp listed
    exact ⟨fun fault => rfl, fun written => by cases written <;> trivial⟩

/-- One sentence is short enough, and two are not. -/
theorem dotted_runs_redefined :
    let one : Script := { queue := [.skip] }
    let two : Script := { queue := [.take, .skip] }
    ∃ g', new (dotted.grammar.redefine "p" (.literal "!")) [.inr doubling] none dotted.config =
        .ok g' ∧
      (g'.runWithin (.first 450) none one ()).text.toOption = some "!.." ∧
      (faultOf (g'.runWithin (.first 450) none two ()).outcome).bind (·.message.toOption) =
        some "Generated output of 5 code points exceeds maximum of 4" ∧
      (g'.runWithin (.first 450) none two ()).final.text = "!..!." := by
  intro one two
  have named : ∀ b ∈ [doubling] ++ [], b.production ≠ none := by simp [doubling]
  have unlimited : dotted.config.limits.maxDepth = .null := rfl
  obtain ⟨_, g', made, runs⟩ := runs_redefined dotting_built named unlimited dotted_made
  have same (script : Script)
      (kind : (faultOf (dotted.runWithin (.first 20) none script ()).outcome).map Fault.kind ≠
        some .tooDeep) :
      g'.runWithin (.first 450) none script () = dotted.runWithin (.first 450) none script () := by
    obtain ⟨_, below, _⟩ := runs (.first 20) none script ()
    apply below ?_ 450 (by decide)
    apply staysBelow_of_propagate dotted dotted_propagate
    rintro name ⟨⟩ ended
    rw [ended] at kind
    exact kind rfl
  refine ⟨g', made, ?_⟩
  rw [same one (by decide +kernel), same two (by decide +kernel)]
  exact ⟨by decide +kernel, by decide +kernel, by decide +kernel⟩

end Generator

end SentenceGen
