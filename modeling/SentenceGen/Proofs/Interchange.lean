import SentenceGen.Proofs.Inclusion

/-!
# Interchangeable grammars

What a generator does depends on its grammar only by the name, the start, the body of each
production and the classes of the character sets in the bodies.  The order of the productions does
not matter, nor what else is in the registry.
-/

namespace SentenceGen

open Expand

/-! ### Grammars that say the same -/

/-- The grammars have the same productions, in whatever order, and their character sets stand for
the same classes. -/
structure Grammar.Matches (g g' : Grammar) : Prop where
  name_eq : g'.name = g.name
  start_eq : g'.start = g.start
  body?_eq (name : String) : g'.body? name = g.body? name
  ofSet_eq {set : CharacterSet} : g.Standing (.characters set) →
    g'.registry.ofSet set = g.registry.ofSet set

/-- With whatever bindings and configuration, either both grammars are refused with the same fault,
or generators of both are made and every run of the one is the run of the other: the same outcome,
tree, text, state of the source and log. -/
def Grammar.Interchangeable (g g' : Grammar) : Prop :=
  ∀ {κ : Type} (entries : List (Datum ⊕ Binding (Callback κ))) (default : Option (Callback κ))
    (config : Config),
    (∃ fault, Generator.new g entries default config = .error fault ∧
      Generator.new g' entries default config = .error fault) ∨
    ∃ h h', Generator.new g entries default config = .ok h ∧
      Generator.new g' entries default config = .ok h' ∧
      (∀ {σ : Type} [DecisionSource σ] (call : Call) (start : Option String) (source : σ)
        (user : κ),
        h'.runWithin call start source user = h.runWithin call start source user) ∧
      ∀ (sowing : Datum → Nat) (call : Call) (start : Option String) (user : κ),
        h'.runFresh sowing call start user = h.runFresh sowing call start user

namespace Grammar.Matches

variable {κ : Type} {b b' : Builder} {g g' : Grammar} (same : g.Matches g')
  {entries entries' : List (Datum ⊕ Binding (Callback κ))}
  {default default' : Option (Callback κ)} {config : Config} {h h' : Generator κ}
include same

theorem defines_eq : g'.defines = g.defines := by
  funext name
  rw [Grammar.defines, Grammar.defines, same.body?_eq]

/-- The bindings are tied to the names of the productions, in whatever order these stand. -/
theorem new_cases (built : b.build = .ok g) (built' : b'.build = .ok g')
    (entries : List (Datum ⊕ Binding (Callback κ))) (default : Option (Callback κ))
    (config : Config) :
    (∃ fault, Generator.new g entries default config = .error fault ∧
      Generator.new g' entries default config = .error fault) ∨
    ∃ h h', Generator.new g entries default config = .ok h ∧
      Generator.new g' entries default config = .ok h' ∧ h'.replacements = h.replacements := by
  obtain ⟨classes, resolved⟩ :=
    Generator.resolveSets_of_ofSet (fun _ => Builder.ofSet_of_build built) []
  obtain ⟨classes', resolved'⟩ :=
    Generator.resolveSets_of_ofSet (fun _ => Builder.ofSet_of_build built') []
  unfold Generator.new
  simp only [same.defines_eq, resolved, resolved']
  cases Replacements.ofBindings g.defines
      (entries ++ default.toList.map fun callback => .inr (.default callback)) with
  | error fault => exact .inl ⟨fault, rfl, rfl⟩
  | ok replacements => exact .inr ⟨_, _, rfl, rfl, rfl⟩

theorem share {σ : Type} [DecisionSource σ]
    (made : Generator.new g entries default config = .ok h)
    (made' : Generator.new g' entries' default' config = .ok h')
    (bound : ∀ name, h'.replacements.find? name = h.replacements.find? name) :
    h.plan.Share σ (fun _ => True) g.Encloses h'.plan := by
  have resolved := Generator.resolved_of_new made
  have resolved' := Generator.resolved_of_new made'
  have resolvable (set : CharacterSet) (listed : .characters set ∈ Generator.rulesOf g) :
      ∃ c, g.registry.ofSet set = .ok c := Generator.ofSet_of_new made listed
  obtain ⟨_, _, _, _, rfl⟩ := Generator.new_eq_ok made
  obtain ⟨_, _, _, _, rfl⟩ := Generator.new_eq_ok made'
  exact {
    child := Grammar.Encloses.child
    body := fun _ found => .inr ⟨_, _, found, Rule.mem_walk_self _⟩
    body_eq := fun _ => same.body?_eq _
    find_eq := fun {name} _ => bound name
    consult_eq := by
      rintro set (⟨_, other, _⟩ | standing)
      · cases other
      have set_eq := same.ofSet_eq standing
      obtain ⟨name, body, found, visited⟩ := standing
      obtain ⟨c, stands⟩ := resolvable set (Generator.mem_rulesOf found visited)
      have found' : g'.body? name = some body := (same.body?_eq name).trans found
      simp only [consult, resolved.classOf_eq found visited stands,
        resolved'.classOf_eq found' visited (set_eq.trans stands)]
    maxDepth_eq := rfl
    maxSize_eq := rfl }

theorem startOf_eq (made : Generator.new g entries default config = .ok h)
    (made' : Generator.new g' entries' default' config = .ok h') (start : Option String) :
    h'.startOf start = h.startOf start := by
  simp only [Generator.startOf, Generator.grammar_of_new made, Generator.grammar_of_new made',
    same.start_eq, same.defines_eq]

theorem runWithin_eq {σ : Type} [DecisionSource σ]
    (made : Generator.new g entries default config = .ok h)
    (made' : Generator.new g' entries' default' config = .ok h')
    (bound : ∀ name, h'.replacements.find? name = h.replacements.find? name) (call : Call)
    (start : Option String) (source : σ) (user : κ) :
    h'.runWithin call start source user = h.runWithin call start source user := by
  have grammar_eq := Generator.grammar_of_new made
  have named : h'.grammar.name = h.grammar.name := by
    rw [Generator.grammar_of_new made', grammar_eq, same.name_eq]
  apply Generator.runWithin_congr named (same.startOf_eq made made' start)
  intro name found
  have defined : g.defines name = true := grammar_eq ▸ Generator.defines_of_startOf found
  have amid : Amid (fun _ => True) (call.begin source user : Expansion σ κ) :=
    { live := fun _ _ => trivial
      innermost := fun _ _ => trivial }
  exact ((same.share made made' bound).coincide_expand (fun _ _ => trivial) call.ceiling none
    (.inl ⟨name, rfl, defined⟩) _ amid).1

theorem runFresh_eq (made : Generator.new g entries default config = .ok h)
    (made' : Generator.new g' entries' default' config = .ok h')
    (bound : ∀ name, h'.replacements.find? name = h.replacements.find? name)
    (sowing : Datum → Nat) (call : Call) (start : Option String) (user : κ) :
    h'.runFresh sowing call start user = h.runFresh sowing call start user := by
  have config_eq : h'.config = h.config := by
    obtain ⟨_, _, _, _, rfl⟩ := Generator.new_eq_ok made
    obtain ⟨_, _, _, _, rfl⟩ := Generator.new_eq_ok made'
    rfl
  simp only [Generator.runFresh, Generator.freshSource,
    same.runWithin_eq made made' bound, config_eq, same.startOf_eq made made']

/-- Built grammars that say the same can take each other's place. -/
theorem interchangeable (built : b.build = .ok g) (built' : b'.build = .ok g') :
    g.Interchangeable g' := by
  intro κ entries default config
  rcases same.new_cases built built' entries default config with
    refused | ⟨h, h', made, made', bound⟩
  · exact .inl refused
  have bound (name : String) : h'.replacements.find? name = h.replacements.find? name := by
    rw [bound]
  exact .inr ⟨h, h', made, made', same.runWithin_eq made made' bound,
    same.runFresh_eq made made' bound⟩

end Grammar.Matches

/-! ### Builders that say the same -/

/-- The second builder has the rules of the first one for each name and nothing else, and its
registry resolves what the registry of the first one resolves, to the same class. -/
structure Builder.Matches (b b' : Builder) : Prop where
  name_eq : b'.name = b.name
  start_eq : b'.start = b.start
  rulesOf?_eq (name : String) : b'.rulesOf? name = b.rulesOf? name
  pending {entry : String × List Rule} : entry ∈ b'.pending → entry ∈ b.pending
  ofSet_eq {set : CharacterSet} {c : CharacterClass} : b.registry.ofSet set = .ok c →
    b'.registry.ofSet set = .ok c

namespace Builder.Matches

variable {b b' : Builder} (same : b.Matches b')
include same

theorem defines_eq (name : String) : b'.defines name = b.defines name := by
  rw [Builder.defines, Builder.defines, same.rulesOf?_eq]

theorem checkRule_ok {production : String} {rule : Rule}
    (passed : b.checkRule production rule = .ok ()) : b'.checkRule production rule = .ok () := by
  cases rule with
  | nonTerminal name =>
    rw [checkRule, same.defines_eq]
    exact passed
  | characters set =>
    cases resolved : b.registry.ofSet set with
    | error fault =>
      rw [checkRule, resolved] at passed
      cases passed
    | ok c =>
      rw [checkRule, resolved] at passed
      rw [checkRule, same.ofSet_eq resolved]
      exact passed
  | _ => exact passed

/-- What can be built of the first builder can be built of the second one, and says the same. -/
theorem build {g : Grammar} (built : b.build = .ok g) :
    ∃ g', b'.build = .ok g' ∧ g.Matches g' := by
  have resolvable (set : CharacterSet) (listed : .characters set ∈ Generator.rulesOf g) :
      ∃ c, g.registry.ofSet set = .ok c := ofSet_of_build built listed
  obtain ⟨started, rfl, checked⟩ := build_ok built
  have startedToo : b'.defines b'.start = true := by
    rw [same.start_eq, same.defines_eq]
    exact started
  refine ⟨_, build_of_checked startedToo ?_, same.name_eq, same.start_eq, ?_, ?_⟩
  · intro entry listed rule visited
    obtain ⟨source, member, rfl⟩ := List.mem_map.mp listed
    have listed : (source.1, bodyOf source.2) ∈ b.bodies :=
      List.mem_map_of_mem (same.pending member)
    exact same.checkRule_ok (checked _ listed rule visited)
  · intro name
    have found (b : Builder) : b.bodies.lookup name = (b.rulesOf? name).map bodyOf :=
      Replacements.lookup_map bodyOf name b.pending
    simp only [Grammar.body?, found, same.rulesOf?_eq]
  · rintro set ⟨name, body, found, visited⟩
    obtain ⟨c, stands⟩ := resolvable set (Generator.mem_rulesOf found visited)
    exact (same.ofSet_eq stands).trans stands.symm

/-- The grammars that are built can take each other's place. -/
theorem interchangeable {g : Grammar} (built : b.build = .ok g) :
    ∃ g', b'.build = .ok g' ∧ g.Interchangeable g' := by
  obtain ⟨g', built', matched⟩ := same.build built
  exact ⟨g', built', matched.interchangeable built built'⟩

end Builder.Matches

end SentenceGen
