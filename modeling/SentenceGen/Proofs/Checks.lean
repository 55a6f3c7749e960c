import SentenceGen.Proofs.Watching

/-!
# Checks before a run

A builder visits every rule of every production once.  So whatever rule stands in a built grammar,
the names in it are defined, and its character sets have members.
-/

namespace SentenceGen

/-- A check of all items passes if it passes for each. -/
theorem forM_eq_ok {α : Type} {items : List α} {check : α → Except Fault Unit} :
    items.forM check = .ok () ↔ ∀ item ∈ items, check item = .ok () := by
  induction items with
  | nil => simp [pure, Except.pure]
  | cons item rest ih =>
    change (check item >>= fun _ => rest.forM check) = .ok () ↔ _
    rw [List.forall_mem_cons, ← ih]
    cases check item with
    | error fault => simp [Bind.bind, Except.bind]
    | ok _ => simp [Bind.bind, Except.bind]

namespace Registry

/-- What is looked up for a set is the class that the set stands for. -/
theorem lookup_eq_ofSet (r : Registry) (set : CharacterSet) :
    r.lookup set.name set.exclude = r.ofSet set := by
  have hashable : set.exclude.forM Datum.requireHashable = .ok () := by
    apply forM_eq_ok.mpr
    intro value member
    simp [Datum.requireHashable, set.isSet.hashable value member]
  simp only [lookup, ofSet, CharacterClass.without, hashable]
  rfl

end Registry

namespace Grammar

/-- A rule stands in some production. -/
def Standing (g : Grammar) (rule : Rule) : Prop :=
  ∃ name body, g.body? name = some body ∧ rule ∈ body.walk

variable {g : Grammar}

theorem Standing.child {rule item : Rule} (standing : g.Standing rule)
    (inside : item ∈ rule.children) : g.Standing item := by
  obtain ⟨name, body, defined, visited⟩ := standing
  exact ⟨name, body, defined, Rule.mem_walkFrom_of_mem_children inside visited⟩

theorem standing_of_production {name : String} {body : Rule} (h : g.production name = .ok body) :
    g.Standing body :=
  ⟨name, body, Expand.production_ok h, Rule.mem_walk_self body⟩

/-- References to productions of the grammar, and what stands in them. -/
def Encloses (g : Grammar) (rule : Rule) : Prop :=
  (∃ name, rule = .nonTerminal name ∧ g.defines name = true) ∨ g.Standing rule

theorem Encloses.child {rule item : Rule} (enclosed : g.Encloses rule)
    (inside : item ∈ rule.children) : g.Encloses item := by
  rcases enclosed with ⟨name, rfl, _⟩ | standing
  · cases inside
  · exact .inr (standing.child inside)

/-- The names in a rule itself resolve. -/
def Checked (g : Grammar) : Rule → Prop
  | .nonTerminal name => g.defines name = true
  | .characters set => ∃ members, g.registry.ofSet set = .ok members ∧ members.isEmpty = false
  | .stray _ => False
  | _ => True

end Grammar

namespace Builder

/-- What a built grammar is made of, and that all its rules were checked. -/
theorem build_ok {b : Builder} {g : Grammar} (built : b.build = .ok g) :
    b.defines b.start = true ∧
      g = { name := b.name, start := b.start, productions := b.bodies, registry := b.registry } ∧
      ∀ entry ∈ b.bodies, ∀ rule ∈ entry.2.walk, b.checkRule entry.1 rule = .ok () := by
  unfold build at built
  split at built
  next started =>
    simp only [Bind.bind, Except.bind] at built
    split at built
    next => cases built
    next checked =>
      refine ⟨started, (Except.ok.inj built).symm, fun entry member => ?_⟩
      exact forM_eq_ok.mp (forM_eq_ok.mp checked entry member)
  next => cases built

theorem build_of_checked {b : Builder} (started : b.defines b.start = true)
    (checked : ∀ entry ∈ b.bodies, ∀ rule ∈ entry.2.walk, b.checkRule entry.1 rule = .ok ()) :
    b.build = .ok
      { name := b.name, start := b.start, productions := b.bodies, registry := b.registry } := by
  have passed : (b.bodies.forM fun entry => entry.2.walk.forM (b.checkRule entry.1)) = .ok () := by
    apply forM_eq_ok.mpr
    intro entry listed
    exact forM_eq_ok.mpr (checked entry listed)
  rw [build, if_pos started, passed]
  rfl

theorem defines_of_build {b : Builder} {g : Grammar} (built : b.build = .ok g) (name : String) :
    g.defines name = b.defines name := by
  obtain ⟨_, rfl, _⟩ := build_ok built
  have found : b.bodies.lookup name = (b.pending.lookup name).map bodyOf :=
    Replacements.lookup_map bodyOf name b.pending
  simp [Grammar.defines, Grammar.body?, found, defines, rulesOf?]

theorem checked_of_checkRule {b : Builder} {g : Grammar} (built : b.build = .ok g)
    {production : String} {rule : Rule} (proper : rule.stray? = none)
    (checked : b.checkRule production rule = .ok ()) : g.Checked rule := by
  cases rule with
  | nonTerminal name =>
    by_cases defined : b.defines name = true
    · exact (defines_of_build built name).trans defined
    · simp [checkRule, defined] at checked
  | characters set =>
    obtain ⟨_, rfl, _⟩ := build_ok built
    simp only [checkRule, Bind.bind, Except.bind] at checked
    split at checked
    next => cases checked
    next members resolved =>
      by_cases empty : members.isEmpty = true
      · simp [empty] at checked
      · exact ⟨members, resolved, by simpa using empty⟩
  | stray value => cases proper
  | _ => trivial

theorem checked_of_build {b : Builder} {g : Grammar} (built : b.build = .ok g) {rule : Rule}
    (proper : rule.stray? = none) (standing : g.Standing rule) : g.Checked rule := by
  obtain ⟨name, body, defined, visited⟩ := standing
  obtain ⟨_, same, checked⟩ := build_ok built
  have listed : (name, body) ∈ b.bodies := by
    have defined : b.bodies.lookup name = some body := by rw [same] at defined; exact defined
    obtain ⟨before, after, split, _⟩ := List.lookup_eq_some_iff.mp defined
    rw [split]
    exact List.mem_append_right _ List.mem_cons_self
  exact checked_of_checkRule built proper (checked (name, body) listed rule visited)

end Builder

end SentenceGen
