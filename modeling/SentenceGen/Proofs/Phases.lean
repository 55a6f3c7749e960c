import SentenceGen.Proofs.Simulation

/-!
# The phases of a rule

A rule that is not replaced is expanded in two phases.  The first one puts its question, if it has
any, and touches neither tree nor text.  The second one adds the node, with the label that the first
one told, and expands the rules below it.
-/

namespace SentenceGen.Expand

variable {σ κ : Type}

theorem forM_singleton (act : Rule → Expand σ κ Unit) (item : Rule) :
    [item].forM act = act item := by
  change (act item >>= fun _ => pure ()) = _
  simp

section

variable [DecisionSource σ]

/-- Puts the question of a rule, and tells the label of its node and the rules to expand below. -/
def consult (plan : Plan κ) : Rule → Expand σ κ (Label × List Rule)
  | .literal text => pure ({ kind := .literal, text }, [])
  | .sequence items => pure ({ kind := .sequence }, items)
  | .alternative items => do
    let answer ← ask (.alternative (.int items.length))
    let (index, item) ← branchOf items answer
    return ({ kind := .alternative, value := .int index }, [item])
  | .optional item => do
    let answer ← ask .optional
    return ({ kind := .optional, value := .bool answer.truthy },
      if answer.truthy then [item] else [])
  | .repetition item bounds => do
    let site ← nextSite
    let answer ← ask (.repetition bounds site)
    let count ← countOf bounds site answer
    return ({ kind := .repetition, value := .int count }, List.replicate count.toNat item)
  | .nonTerminal name => do
    let body ← plan.grammar.production name
    return ({ kind := .nonTerminal, name := some name }, [body])
  | .characters set => do
    let members ← classOf plan set
    let answer ← ask (.codepoint (.ofClass members))
    let codepoint ← memberOf members set.name answer
    return ({ kind := .character, name := some set.name, text := (Char.ofNat codepoint).toString
              value := .int codepoint }, [])
  | .stray value => throw (.unknownRule value.kind)

/-- Adds a node and expands the rules below it. -/
def grow (plan : Plan κ) (expandOne : Rule → Option NodeId → Expand σ κ Unit)
    (parent : Option NodeId) (label : Label) (items : List Rule) : Expand σ κ Unit :=
  if label.kind.isLeaf then leaf plan label parent
  else do
    let id ← addNode (label.under parent)
    match label.kind, label.name with
    | .nonTerminal, some name => within name (items.forM fun item => expandOne item (some id))
    | _, _ => items.forM fun item => expandOne item (some id)

theorem step_eq (plan : Plan κ) (expandOne : Rule → Option NodeId → Expand σ κ Unit) (rule : Rule)
    (parent : Option NodeId)
    (kept : ∀ name, rule = .nonTerminal name → plan.replacements.find? name = none) :
    step plan expandOne rule parent =
      consult plan rule >>= fun (label, items) => grow plan expandOne parent label items := by
  cases rule with
  | literal text => rfl
  | sequence items => rfl
  | alternative items =>
    simp only [step, consult, bind_assoc, pure_bind]
    refine bind_congr fun answer => bind_congr fun branch => ?_
    obtain ⟨index, item⟩ := branch
    simp only [grow, forM_singleton]
    rfl
  | optional item =>
    simp only [step, consult, bind_assoc, pure_bind]
    refine bind_congr fun answer => ?_
    cases answer.truthy with
    | true => simp only [grow, if_true, forM_singleton]; rfl
    | false => rfl
  | repetition item bounds =>
    simp only [step, consult, bind_assoc, pure_bind]
    refine bind_congr fun site => bind_congr fun answer => bind_congr fun count =>
      bind_congr fun id => ?_
    exact times_eq_forM (fun item => expandOne item (some id)) item count.toNat
  | nonTerminal name =>
    rw [step_nonTerminal]
    simp only [consult, bind_assoc, pure_bind]
    refine bind_congr fun body => ?_
    simp only [grow, produce, kept name rfl, forM_singleton]
    rfl
  | characters set =>
    rw [step_characters]
    simp only [consult, bind_assoc, pure_bind]
    rfl
  | stray value => rfl

/-- A rule is replaced or it is not. -/
theorem kept_or_bound (plan : Plan κ) (rule : Rule) :
    (∀ name, rule = .nonTerminal name → plan.replacements.find? name = none) ∨
      ∃ name callback, rule = .nonTerminal name ∧
        plan.replacements.find? name = some callback := by
  cases rule with
  | nonTerminal name =>
    cases bound : plan.replacements.find? name with
    | none =>
      refine .inl ?_
      rintro _ ⟨⟩
      exact bound
    | some callback => exact .inr ⟨name, callback, rfl, bound⟩
  | _ => exact .inl nofun

/-! ### The first phase -/

theorem exec_ask_bind {β : Type} (q : Question) (next : Datum → Expand σ κ β)
    (s : Expansion σ κ) :
    (ask q >>= next).exec s =
      match (DecisionSource.ask q s.source).1 with
      | .ok answer => (next answer).exec { s with source := (DecisionSource.ask q s.source).2 }
      | .error fault => (.error fault, { s with source := (DecisionSource.ask q s.source).2 }) := by
  rw [exec_bind, exec_ask]
  cases (DecisionSource.ask q s.source).1 <;> rfl

/-- The first phase of a rule counts sites and asks the source, and touches nothing else. -/
theorem consult_left (plan : Plan κ) (rule : Rule) (s : Expansion σ κ) :
    ∃ source sites, (source = s.source ∨ ∃ q, source = (DecisionSource.ask q s.source).2) ∧
      ((consult plan rule).exec s).2 = { s with source, sites } := by
  cases rule with
  | literal | sequence | stray => exact ⟨_, _, .inl rfl, rfl⟩
  | alternative items =>
    rw [consult, exec_ask_bind]
    cases (DecisionSource.ask (.alternative (.int items.length)) s.source).1 with
    | error fault => exact ⟨_, s.sites, .inr ⟨_, rfl⟩, rfl⟩
    | ok answer =>
      simp only
      cases branchOf items answer <;> exact ⟨_, s.sites, .inr ⟨_, rfl⟩, rfl⟩
  | optional item =>
    rw [consult, exec_ask_bind]
    cases (DecisionSource.ask .optional s.source).1 <;>
      exact ⟨_, s.sites, .inr ⟨_, rfl⟩, rfl⟩
  | repetition item bounds =>
    rw [consult, exec_bind_of_ok (exec_nextSite s), exec_ask_bind]
    simp only
    cases (DecisionSource.ask
        (.repetition bounds ⟨.int s.sites, s.productions.head?⟩) s.source).1 with
    | error fault => exact ⟨_, s.sites + 1, .inr ⟨_, rfl⟩, rfl⟩
    | ok answer =>
      simp only
      cases countOf bounds ⟨.int s.sites, s.productions.head?⟩ answer <;>
        exact ⟨_, s.sites + 1, .inr ⟨_, rfl⟩, rfl⟩
  | nonTerminal name =>
    rw [consult]
    cases plan.grammar.production name <;> exact ⟨_, _, .inl rfl, rfl⟩
  | characters set =>
    rw [consult]
    cases classOf plan set with
    | error fault => exact ⟨_, _, .inl rfl, rfl⟩
    | ok members =>
      rw [exec_bind_of_ok (exec_lift _ s), exec_ask_bind]
      cases (DecisionSource.ask (.codepoint (.ofClass members)) s.source).1 with
      | error fault => exact ⟨_, s.sites, .inr ⟨_, rfl⟩, rfl⟩
      | ok answer =>
        simp only
        cases memberOf members set.name answer <;> exact ⟨_, s.sites, .inr ⟨_, rfl⟩, rfl⟩

/-- Productions have the labels of productions, and no other rule has. -/
theorem consult_label {rule : Rule} {s t : Expansion σ κ} {label : Label} {items : List Rule}
    (done : (consult plan rule).exec s = (.ok (label, items), t)) :
    (label.kind = .nonTerminal ∧ ∃ name, rule = .nonTerminal name ∧ label.name = some name) ∨
      label.kind ≠ .nonTerminal ∧ ∀ name, rule ≠ .nonTerminal name := by
  cases rule with
  | nonTerminal name =>
    simp only [consult, exec_bind_ok] at done
    obtain ⟨_, _, _, made⟩ := done
    cases made
    exact .inl ⟨rfl, name, rfl, rfl⟩
  | literal | sequence =>
    cases done
    exact .inr ⟨nofun, nofun⟩
  | stray => cases done
  | optional =>
    simp only [consult, exec_bind_ok] at done
    obtain ⟨_, _, _, made⟩ := done
    cases made
    exact .inr ⟨nofun, nofun⟩
  | alternative =>
    simp only [consult, exec_bind_ok] at done
    obtain ⟨_, _, _, _, _, _, made⟩ := done
    cases made
    exact .inr ⟨nofun, nofun⟩
  | repetition | characters =>
    simp only [consult, exec_bind_ok] at done
    obtain ⟨_, _, _, _, _, _, _, _, _, made⟩ := done
    cases made
    exact .inr ⟨nofun, nofun⟩

end

end SentenceGen.Expand
