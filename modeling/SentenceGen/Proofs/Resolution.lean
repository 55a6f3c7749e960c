import SentenceGen.Proofs.Checks
import SentenceGen.Proofs.Observation
import SentenceGen.Proofs.OutputLimit
import SentenceGen.Proofs.Wording

/-!
# What building a grammar promises

A run comes to rules through references and through callbacks, but to no others than the builder
checked and the generator knows.  So no run fails for a name that does not resolve: a fault of that
kind is the source's or a callback's own, whether it ends the run or is caught.
-/

namespace SentenceGen

/-! ### Faults of the engine and faults of others -/

namespace Fault

/-- Raised for a name that does not resolve, or for what is no rule. -/
def Unresolved : Fault → Prop
  | .undefinedProduction .. | .unknownCharacterClass _ | .missingKey _ | .unknownRule _ => True
  | _ => False

/-- A fault of this kind is the source's or a callback's own. -/
def Excused (own : Fault → Prop) (fault : Fault) : Prop := fault.Unresolved → own fault

theorem Unresolved.of_told {fault : Fault} (h : fault.told.Unresolved) : fault.Unresolved := by
  rcases fault.told_eq with same | unworded
  · rwa [same] at h
  · rw [unworded] at h
    exact h.elim

end Fault

/-- The tree does not look up names. -/
theorem Tree.resolved_of_add {t : Tree} {node : Node} {fault : Fault}
    (failed : (t.add node).1 = .error fault) : ¬ fault.Unresolved := by
  have resolved (id : NodeId) : ¬ (noPlace id).Unresolved := by
    unfold noPlace
    split <;> exact not_false
  unfold add at failed
  split at failed
  · cases failed
    exact not_false
  · cases parent : node.parent with
    | none => simp [parent] at failed
    | some id =>
      simp only [parent] at failed
      split at failed
      · cases failed
      · cases failed
        exact resolved id

/-- If what its requests report is excused, so is what a program ends with. -/
def Program.Excused {κ α : Type} (own : Fault → Prop) : Program κ (Except Fault α) → Prop
  | .done result => ∀ fault ∈ faultOf result, fault.Excused own
  | .write _ _ next =>
    ∀ result, (∀ fault ∈ faultOf result, fault.Excused own) → (next result).Excused own
  | .expand _ next =>
    ∀ result, (∀ fault ∈ faultOf result, fault.Excused own) → (next result).Excused own
  | .ask _ next =>
    ∀ result, (∀ fault ∈ faultOf result, fault.Excused own) → (next result).Excused own
  | .look next => ∀ view, (next view).Excused own
  | .store _ next => next.Excused own

namespace Expand

variable {σ κ α β : Type}

/-- Open contexts belong to productions, and source and data are fine. -/
structure InOrder (g : Grammar) (Fine : σ → κ → Prop) (s : Expansion σ κ) : Prop where
  live : ∀ context ∈ s.live, g.defines context.name = true
  fine : Fine s.source s.user

/-- What was in order stays in order, and faults are excused. -/
def Clears (g : Grammar) (Fine : σ → κ → Prop) (own : Fault → Prop) (action : Expand σ κ α) :
    Prop :=
  ∀ s, InOrder g Fine s →
    InOrder g Fine (action.exec s).2 ∧ ∀ fault ∈ faultOf (action.exec s).1, fault.Excused own

variable {g : Grammar} {Fine : σ → κ → Prop} {own : Fault → Prop}

theorem clears_lift {result : Except Fault α}
    (excused : ∀ fault ∈ faultOf result, fault.Excused own) :
    Clears g Fine own (liftM result : Expand σ κ α) :=
  fun _ inOrder => ⟨inOrder, excused⟩

theorem clears_pure (a : α) : Clears g Fine own (pure a : Expand σ κ α) :=
  clears_lift (by simp)

theorem clears_throw {fault : Fault} (excused : fault.Excused own) :
    Clears g Fine own (throw fault : Expand σ κ α) :=
  clears_lift (by simpa using excused)

theorem Clears.bind {action : Expand σ κ α} {next : α → Expand σ κ β}
    (first : Clears g Fine own action) (second : ∀ a, Clears g Fine own (next a)) :
    Clears g Fine own (action >>= next) := by
  intro s inOrder
  obtain ⟨inOrderOn, excused⟩ := first s inOrder
  rcases ran : action.exec s with ⟨fault | a, t⟩
  · rw [ran] at inOrderOn excused
    rw [exec_bind_of_error ran]
    exact ⟨inOrderOn, excused⟩
  · rw [ran] at inOrderOn
    rw [exec_bind_of_ok ran]
    exact second a t inOrderOn

theorem clears_addNode (node : Node) : Clears g Fine own (addNode node : Expand σ κ NodeId) := by
  intro s inOrder
  refine ⟨⟨inOrder.live, inOrder.fine⟩, fun fault raised unresolved => ?_⟩
  exact (Tree.resolved_of_add (mem_faultOf.mp raised) unresolved).elim

theorem clears_nextSite : Clears g Fine own (nextSite : Expand σ κ RepetitionSite) :=
  fun _ inOrder => ⟨⟨inOrder.live, inOrder.fine⟩, by simp⟩

theorem clears_leaf (plan : Plan κ) (label : Label) (parent : Option NodeId) :
    Clears g Fine own (leaf plan label parent : Expand σ κ Unit) := by
  apply (clears_addNode _).bind
  intro _
  by_cases empty : label.text = ""
  · rw [if_pos empty]
    exact clears_pure _
  · rw [if_neg empty]
    intro s inOrder
    rw [exec_append]
    refine ⟨⟨inOrder.live, inOrder.fine⟩, ?_⟩
    cases appended : appendOutcome plan (s.size + label.text.length) with
    | ok _ => simp
    | error fault =>
      obtain ⟨cutoff, _, rfl⟩ := tooLarge_of_appendOutcome appended
      rintro _ ⟨⟩ ⟨⟩

theorem clears_requireOpen (target : Context) :
    Clears g Fine own (requireOpen target : Expand σ κ Unit) := by
  intro s inOrder
  rw [exec_requireOpen]
  refine ⟨inOrder, ?_⟩
  split
  · simp
  · rintro _ ⟨⟩ ⟨⟩

theorem clears_writeTo (plan : Plan κ) (target : Context) (text : Datum) :
    Clears g Fine own (writeTo plan target text : Expand σ κ Unit) := by
  apply (clears_requireOpen target).bind
  intro _
  cases text with
  | str text => exact clears_leaf plan { kind := .literal, text } _
  | _ => exact clears_throw nofun

theorem Clears.nested {plan : Plan κ} {action : Expand σ κ Unit}
    (inside : Clears g Fine own action) : Clears g Fine own (nested plan action) := by
  intro s inOrder
  rw [exec_nested]
  cases entered : levelOutcome plan (s.depth + 1) s.productions with
  | error fault =>
    refine ⟨inOrder, ?_⟩
    unfold levelOutcome at entered
    split at entered
    · split at entered
      · cases entered
      · cases entered
        rintro _ ⟨⟩ ⟨⟩
    · cases entered
  | ok _ =>
    obtain ⟨inOrderOn, excused⟩ :=
      inside { s with depth := s.depth + 1 } ⟨inOrder.live, inOrder.fine⟩
    exact ⟨⟨inOrderOn.live, inOrderOn.fine⟩, excused⟩

theorem Clears.within {action : Expand σ κ Unit} (inside : Clears g Fine own action)
    (name : String) : Clears g Fine own (within name action) := by
  intro s inOrder
  obtain ⟨inOrderOn, excused⟩ :=
    inside { s with productions := name :: s.productions } ⟨inOrder.live, inOrder.fine⟩
  exact ⟨⟨inOrderOn.live, inOrderOn.fine⟩, excused⟩

variable {plan : Plan κ} {expandOne : Rule → Option NodeId → Expand σ κ Unit}

/-- A context that is open has a production to expand. -/
theorem clears_expandIn
    (each : ∀ rule parent, plan.grammar.Standing rule →
      Clears plan.grammar Fine own (expandOne rule parent)) (target : Context) :
    Clears plan.grammar Fine own (expandIn plan expandOne target) := by
  intro s inOrder
  unfold expandIn
  rw [exec_bind, exec_requireOpen]
  by_cases live : s.live.contains target = true
  · rw [if_pos live]
    have defined := inOrder.live target (List.contains_iff_mem.mp live)
    obtain ⟨body, found⟩ := Option.isSome_iff_exists.mp defined
    have production : plan.grammar.production target.name = .ok body := by
      simp [Grammar.production, found]
    simp only [production, lift_bind]
    exact each body _ (Grammar.standing_of_production production) s inOrder
  · rw [if_neg live]
    refine ⟨inOrder, ?_⟩
    rintro _ ⟨⟩ ⟨⟩

variable [DecisionSource σ]

theorem clears_replace {callback : Callback κ} {target : Context}
    (defined : g.defines target.name = true)
    (serves : Clears g Fine own (serve plan expandOne (callback target).run)) :
    Clears g Fine own (replace plan expandOne callback target) := by
  intro s inOrder
  rw [exec_replace]
  have opened : InOrder g Fine { s with live := target :: s.live } :=
    { live := by
        intro context live
        rcases List.mem_cons.mp live with rfl | before
        · exact defined
        · exact inOrder.live context before
      fine := inOrder.fine }
  obtain ⟨inOrderOn, excused⟩ := serves _ opened
  exact ⟨⟨fun context live => inOrderOn.live context (List.mem_of_mem_erase live), inOrderOn.fine⟩,
    excused⟩

end Expand

/-! ### Rules that resolve -/

/-- The plan knows what it needs for a rule. -/
def Plan.Knows {κ : Type} (plan : Plan κ) : Rule → Prop
  | .nonTerminal name => plan.grammar.defines name = true
  | .characters set =>
    ∃ members, plan.grammar.registry.lookup set.name set.exclude = .ok members ∧
      members.isEmpty = false ∧ Expand.classOf plan set = .ok members
  | .stray _ => False
  | _ => True

namespace Expand

variable {σ κ α : Type} {g : Grammar} {Fine : σ → κ → Prop} {own : Fault → Prop} {plan : Plan κ}

/-- Whatever the calls clear that a callback makes, the callback clears as a whole. -/
def ServesClear [DecisionSource σ] (plan : Plan κ) (Fine : σ → κ → Prop) (own : Fault → Prop) :
    Prop :=
  ∀ expandOne : Rule → Option NodeId → Expand σ κ Unit,
    (∀ rule parent, plan.grammar.Standing rule →
      Clears plan.grammar Fine own (expandOne rule parent)) →
    ∀ name callback, plan.replacements.find? name = some callback →
      ∀ target, Clears plan.grammar Fine own (serve plan expandOne (callback target).run)

/-- A rule that the plan knows, and whose parts stand in the grammar. -/
def Expected (plan : Plan κ) (rule : Rule) : Prop :=
  plan.Knows rule ∧ ∀ item ∈ rule.children, plan.grammar.Standing item

theorem expected_of_standing (known : ∀ rule, plan.grammar.Standing rule → plan.Knows rule)
    {rule : Rule} (standing : plan.grammar.Standing rule) : Expected plan rule :=
  ⟨known rule standing, fun _ inside => standing.child inside⟩

/-- No fault of an unresolved name comes of an expected rule. -/
theorem excused_of_refuses {rule : Rule} {fault : Fault} (expected : Expected plan rule)
    (refused : Refuses plan rule fault) : fault.Excused own := by
  intro unresolved
  cases refused with
  | branch refused =>
    unfold branchOf at refused
    split at refused
    · split at refused
      · cases refused
      · cases refused
        exact unresolved.of_told.elim
    · cases refused
      exact unresolved.of_told.elim
  | count refused =>
    unfold countOf at refused
    split at refused
    · cases refused
    · cases refused
      exact unresolved.of_told.elim
  | @production name _ undefined =>
    have defined : plan.grammar.defines name = true := expected.1
    obtain ⟨body, found⟩ := Option.isSome_iff_exists.mp defined
    simp [Grammar.production, found] at undefined
  | characters unresolved =>
    obtain ⟨members, _, _, known⟩ := expected.1
    rw [known] at unresolved
    cases unresolved
  | codepoint refused =>
    unfold memberOf at refused
    split at refused
    · cases refused
    · cases refused
      exact unresolved.of_told.elim
  | stray value => exact expected.1.elim

variable [DecisionSource σ]

/-- A source that keeps what is fine, and whose faults are its own. -/
structure Honest (Fine : σ → κ → Prop) (own : Fault → Prop) : Prop where
  asked {x : σ} {user : κ} (q : Question) : Fine x user → Fine (DecisionSource.ask q x).2 user
  blamed {x : σ} {q : Question} {fault : Fault} :
    (DecisionSource.ask q x).1 = .error fault → fault.Excused own

theorem clears_ask (honest : Honest (σ := σ) (κ := κ) Fine own) (q : Question) :
    Clears g Fine own (ask q : Expand σ κ Datum) :=
  fun _ inOrder => ⟨⟨inOrder.live, honest.asked q inOrder.fine⟩, fun _ raised =>
    honest.blamed (mem_faultOf.mp raised)⟩

/-- Clearance passes from calls to rules. -/
theorem clearance (plan : Plan κ) (honest : Honest (σ := σ) (κ := κ) Fine own)
    (known : ∀ rule, plan.grammar.Standing rule → plan.Knows rule)
    (serves : ServesClear (σ := σ) plan Fine own) :
    Simulation σ σ plan plan (Expected plan)
      (fun _ action _ => Clears plan.grammar Fine own action)
      (fun _ action _ => Clears plan.grammar Fine own action) where
  child expected inside := expected_of_standing known (expected.2 _ inside)
  body _ defined := expected_of_standing known (Grammar.standing_of_production defined)
  production_eq _ := rfl
  classOf_eq _ := rfl
  fails _ expected refused := clears_throw (excused_of_refuses expected refused)
  asks q next := (clears_ask honest q).bind next
  meets next := clears_nextSite.bind next
  leaf label parent := clears_leaf plan label parent
  opens label parent below := (clears_addNode _).bind below
  done _ := clears_pure ()
  next first second := first.bind fun _ => second
  produces {expand₁ _ name body} id expected found each := by
    have each (rule : Rule) (parent : Option NodeId) (standing : plan.grammar.Standing rule) :
        Clears plan.grammar Fine own (expand₁ rule parent) :=
      each rule parent (expected_of_standing known standing)
    apply Clears.within
    unfold produce
    split
    next => exact each body _ (Grammar.standing_of_production found)
    next callback bound =>
      have defined : plan.grammar.defines name = true := expected.1
      exact fun s =>
        clears_replace defined (serves expand₁ each name callback bound ⟨s.call, id, name⟩) s

/-! ### Faults in the log -/

/-- What the log tells of is excused. -/
def LogExcused (own : Fault → Prop) (_ : σ) (user : κ × List Reply) : Prop :=
  ∀ reply ∈ user.2, ∀ fault ∈ reply.fault?, fault.Excused own

omit [DecisionSource σ] in
theorem InOrder.noted {s : Expansion σ (κ × List Reply)}
    (inOrder : InOrder g (LogExcused own) s) (reply : Reply)
    (excused : ∀ fault ∈ reply.fault?, fault.Excused own) :
    InOrder g (LogExcused own) { s with user := (s.user.1, s.user.2 ++ [reply]) } where
  live := inOrder.live
  fine other member := by
    rcases List.mem_append.mp member with before | last
    · exact inOrder.fine other before
    · obtain rfl := List.mem_singleton.mp last
      exact excused

/-- A program that is excused for what its requests report is excused for what it ends with. -/
theorem excused_perform (honest : Honest (σ := σ) (κ := κ × List Reply) (LogExcused own) own)
    {expandOne : Rule → Option NodeId → Expand σ (κ × List Reply) Unit}
    (each : ∀ rule parent, plan.grammar.Standing rule →
      Clears plan.grammar (LogExcused own) own (expandOne rule parent))
    (program : Program κ (Except Fault Unit)) (excused : program.Excused own)
    (s : Expansion σ (κ × List Reply)) (inOrder : InOrder plan.grammar (LogExcused own) s) :
    let ended := (perform plan.watched expandOne program.watched).run s
    InOrder plan.grammar (LogExcused own) ended.2 ∧
      ∀ fault ∈ faultOf ended.1, fault.Excused own := by
  induction program generalizing s with
  | done result => exact ⟨inOrder, excused⟩
  | write target text next ih =>
    have wrote : Clears plan.grammar (LogExcused own) own
        (writeTo plan.watched target text : Expand σ _ Unit) :=
      clears_writeTo plan.watched target text
    obtain ⟨kept, reported⟩ := wrote s inOrder
    exact ih _ (excused _ reported) _ (kept.noted (.written _) reported)
  | expand target next ih =>
    have expanded : Clears plan.watched.grammar (LogExcused own) own
        (expandIn plan.watched expandOne target) := clears_expandIn each target
    obtain ⟨kept, reported⟩ := expanded s inOrder
    exact ih _ (excused _ reported) _ (kept.noted (.expanded _) reported)
  | ask question next ih =>
    obtain ⟨kept, reported⟩ := clears_ask honest question s inOrder
    exact ih _ (excused _ reported) _ (kept.noted (.answered question _) reported)
  | look next ih => exact ih _ (excused _) s inOrder
  | store user next ih =>
    exact ih excused { s with user := (user, s.user.2) } ⟨inOrder.live, inOrder.fine⟩

theorem servesClear_watched (honest : Honest (σ := σ) (κ := κ × List Reply) (LogExcused own) own)
    (excused : ∀ name callback, plan.replacements.find? name = some callback →
      ∀ target, (callback target).run.Excused own) :
    ServesClear (σ := σ) plan.watched (LogExcused own) own := by
  intro expandOne each name callback bound target s inOrder
  have bound : (plan.replacements.map Callback.watched).find? name = some callback := bound
  rw [Replacements.find?_map] at bound
  obtain ⟨original, found, rfl⟩ := Option.map_eq_some_iff.mp bound
  exact excused_perform honest each _ (excused name original found target) s inOrder

/-! ### Rules that are called -/

/-- All calls so far are of rules that the plan knows. -/
def CallsKnown (plan : Plan κ) (x : Observed σ) (_ : κ) : Prop := ∀ rule ∈ x.calls, plan.Knows rule

theorem clears_expand (honest : Honest (σ := σ) (κ := κ) Fine own)
    (known : ∀ rule, plan.grammar.Standing rule → plan.Knows rule)
    (serves : ServesClear (σ := σ) plan Fine own) (fuel : Nat) (rule : Rule)
    (parent : Option NodeId) (expected : Expected plan rule) :
    Clears plan.grammar Fine own (expand (σ := σ) plan fuel rule parent) := by
  induction fuel generalizing rule parent with
  | zero => exact clears_throw nofun
  | succ fuel ih =>
    have inside := (clearance plan honest known serves).step _ (expand plan fuel)
      (fun rule parent expected => ih rule parent expected) rule expected parent
    exact inside.nested

theorem clears_traced {P : Plan κ} (known : ∀ rule, P.grammar.Standing rule → P.Knows rule)
    (serves : ServesClear (σ := Observed σ) P (CallsKnown P) fun _ => True) (fuel : Nat)
    (rule : Rule) (parent : Option NodeId) (expected : Expected P rule) :
    Clears P.grammar (CallsKnown P) (fun _ => True)
      (traced (σ := σ) (throw .nestingExhausted) P fuel rule parent) := by
  have honest : Honest (σ := Observed σ) (κ := κ) (CallsKnown P) fun _ => True :=
    ⟨fun _ fine => fine, fun _ _ => trivial⟩
  induction fuel generalizing rule parent with
  | zero => exact clears_throw fun _ => trivial
  | succ fuel ih =>
    have inside := (clearance P honest known serves).step _
      (traced (throw .nestingExhausted) P fuel)
      (fun rule parent expected => ih rule parent expected) rule expected parent
    intro s inOrder
    have recorded : InOrder P.grammar (CallsKnown P)
        { s with source := { s.source with calls := s.source.calls ++ [rule] } } :=
      { live := inOrder.live
        fine := by
          intro other member
          rcases List.mem_append.mp member with before | last
          · exact inOrder.fine other before
          · rw [List.mem_singleton.mp last]
            exact expected.1 }
    exact inside.nested _ recorded

/-- The calls do not depend on the data of callbacks. -/
theorem servesClear_calls (P : Plan κ) :
    ServesClear (σ := Observed σ) P (CallsKnown P) fun _ => True := by
  intro expandOne each name callback bound target
  generalize (callback target).run = program
  intro s inOrder
  refine ⟨?_, fun _ _ _ => trivial⟩
  change InOrder _ _ ((perform P expandOne program).run s).2
  induction program generalizing s with
  | done result => exact inOrder
  | write target text next ih =>
    have wrote : Clears P.grammar (CallsKnown P) (fun _ => True)
        (writeTo P target text : Expand (Observed σ) κ Unit) := clears_writeTo P target text
    exact ih _ _ (wrote s inOrder).1
  | expand target next ih => exact ih _ _ (clears_expandIn each target s inOrder).1
  | ask question next ih => exact ih _ _ ⟨inOrder.live, inOrder.fine⟩
  | look next ih => exact ih _ s inOrder
  | store user next ih => exact ih { s with user } ⟨inOrder.live, inOrder.fine⟩

end Expand

/-- Expanding a set begins with one question, which offers just these members. -/
def Plan.Offers {κ : Type} (σ : Type) [DecisionSource σ] (plan : Plan κ) (set : CharacterSet)
    (members : CharacterClass) : Prop :=
  ∀ (expandOne : Rule → Option NodeId → Expand σ κ Unit) (parent : Option NodeId),
    ∃ next, Expand.step plan expandOne (.characters set) parent =
      Expand.ask (.codepoint (.ofClass members)) >>= next

theorem Plan.offers_of_classOf {σ κ : Type} [DecisionSource σ] {plan : Plan κ} {set : CharacterSet}
    {members : CharacterClass} (known : Expand.classOf plan set = .ok members) :
    plan.Offers σ set members := by
  intro expandOne parent
  rw [Expand.step_characters, known]
  exact ⟨_, rfl⟩

namespace Generator

open Expand

variable {σ κ : Type} {b : Builder} {grammar : Grammar}
  {bindings : List (Datum ⊕ Binding (Callback κ))} {default : Option (Callback κ)}
  {config : Config} {g : Generator κ}

theorem grammar_of_new (made : new grammar bindings default config = .ok g) :
    g.grammar = grammar := by
  obtain ⟨_, _, _, _, rfl⟩ := new_eq_ok made
  rfl

/-- What was checked when the grammar was built, a generator of it knows. -/
theorem knows_of_standing (built : b.build = .ok grammar)
    (proper : ∀ rule ∈ rulesOf grammar, rule.stray? = none)
    (made : new grammar bindings default config = .ok g) {rule : Rule}
    (standing : g.grammar.Standing rule) : g.plan.Knows rule := by
  have same := grammar_of_new made
  have resolved := resolved_of_new made
  have listed (rule : Rule) (standing : grammar.Standing rule) : rule ∈ rulesOf grammar := by
    obtain ⟨name, body, defined, visited⟩ := standing
    exact mem_rulesOf defined visited
  rw [← same] at built listed proper
  have checked := Builder.checked_of_build built (proper rule (listed rule standing)) standing
  cases rule with
  | nonTerminal name => exact checked
  | characters set =>
    obtain ⟨members, ofSet, nonempty⟩ := checked
    obtain ⟨c, found⟩ := Option.isSome_iff_exists.mp (resolved.covers set (.inr standing))
    obtain rfl : members = c := Except.ok.inj (ofSet.symm.trans (resolved.sound set c found))
    refine ⟨members, (Registry.lookup_eq_ofSet _ set).trans ofSet, nonempty, ?_⟩
    have found : g.plan.classes.lookup set = some members := found
    simp [classOf, found]
  | stray value => exact checked
  | _ => trivial

theorem defines_of_startOf {start : Option String} {name : String}
    (found : g.startOf start = .ok name) : g.grammar.defines name = true := by
  unfold startOf at found
  extract_lets first at found
  by_cases defined : g.grammar.defines first = true
  · rw [if_pos defined] at found
    rw [← Except.ok.inj found]
    exact defined
  · rw [if_neg defined] at found
    cases found

variable [DecisionSource σ]

theorem startOf_of_build (built : b.build = .ok grammar)
    (made : new grammar bindings default config = .ok g) {start : Option String}
    (defined : ∀ name, start = some name → name = "" ∨ grammar.defines name = true) :
    ∃ name, g.startOf start = .ok name ∧ g.grammar.defines name = true := by
  have same := grammar_of_new made
  have started : grammar.defines grammar.start = true := by
    rw [Builder.defines_of_build built]
    obtain ⟨started, rfl, _⟩ := Builder.build_ok built
    exact started
  rw [← same] at defined started
  have own : g.startOf none = .ok g.grammar.start := by simp [startOf, started]
  cases start with
  | none => exact ⟨_, own, started⟩
  | some name =>
    by_cases empty : name = ""
    · rw [empty]
      exact ⟨_, own, started⟩
    · have known := (defined name rfl).resolve_left empty
      exact ⟨name, by simp [startOf, known], known⟩

/-- A run calls only rules that the plan knows. -/
theorem knows_of_called (knows : ∀ rule, g.grammar.Standing rule → g.plan.Knows rule)
    {start : Option String} {name : String} (found : g.startOf start = .ok name)
    (defined : g.grammar.defines name = true) (call : Call) (source : σ) (user : κ) :
    ∀ rule ∈ (g.observe (throw .nestingExhausted) call start source user).2.source.calls,
      g.plan.Knows rule := by
  have expected : Expected g.plan.observed (.nonTerminal name) :=
    ⟨defined, by simp [Rule.children]⟩
  have inOrder : InOrder g.grammar (CallsKnown g.plan.observed) (observedStart call source user) :=
    ⟨by simp [observedStart], by simp [CallsKnown, observedStart]⟩
  have cleared := clears_traced knows (servesClear_calls g.plan.observed) call.ceiling
    (.nonTerminal name) none expected _ inOrder
  unfold observe
  simp only [found]
  obtain ⟨frozen, left⟩ := settle_left name ((traced (throw .nestingExhausted) g.plan.observed
    call.ceiling (.nonTerminal name) none).exec (observedStart call source user))
  rw [left]
  exact cleared.1.fine

/-- What a run reports, to its caller or to a callback, is excused. -/
theorem excused_of_reported (knows : ∀ rule, g.grammar.Standing rule → g.plan.Knows rule)
    {own : Fault → Prop}
    (blamed : ∀ (x : σ) q fault, (DecisionSource.ask q x).1 = .error fault → fault.Excused own)
    (excused : ∀ name callback, g.replacements.find? name = some callback →
      ∀ target, (callback target).run.Excused own)
    {start : Option String} {name : String} (found : g.startOf start = .ok name)
    (defined : g.grammar.defines name = true) (call : Call) (source : σ) (user : κ) :
    let r := g.watched.runWithin call start source (user, [])
    (∀ fault, r.outcome = .error fault → fault.Excused own) ∧
      ∀ reply ∈ r.final.user.2, ∀ fault ∈ reply.fault?, fault.Excused own := by
  have honest : Honest (σ := σ) (κ := κ × List Reply) (LogExcused own) own :=
    ⟨fun _ fine => fine, fun raised => blamed _ _ _ raised⟩
  have expected : Expected g.plan.watched (.nonTerminal name) :=
    ⟨defined, by simp [Rule.children]⟩
  have inOrder : InOrder g.grammar (LogExcused own)
      (call.begin source (user, []) : Expansion σ (κ × List Reply)) :=
    ⟨by simp, by simp [LogExcused]⟩
  have cleared := clears_expand honest knows (servesClear_watched honest excused) call.ceiling
    (.nonTerminal name) none expected _ inOrder
  have foundToo : g.watched.startOf start = .ok name := found
  have settled := runWithin_eq_settle g.watched foundToo call source (user, [])
  have same : g.watched.plan = g.plan.watched := rfl
  rw [same] at settled
  generalize (expand g.plan.watched call.ceiling (.nonTerminal name) none).exec
    (call.begin source (user, [])) = ended at cleared settled
  intro r
  have outcome : r.outcome = (settle name ended).1 := congrArg Prod.fst settled
  have final : r.final = (settle name ended).2 := congrArg Prod.snd settled
  constructor
  · intro fault failed
    rw [outcome] at failed
    rcases settle_error failed with raised | rfl
    · exact cleared.2 fault (mem_faultOf.mpr raised)
    · rintro ⟨⟩
  · obtain ⟨frozen, left⟩ := settle_left name ended
    rw [final, left]
    exact cleared.1.fine

/-- Nothing that was checked when the grammar was built fails in a run. -/
theorem run_resolves (built : b.build = .ok grammar)
    (proper : ∀ rule ∈ rulesOf grammar, rule.stray? = none)
    (made : new grammar bindings default config = .ok g) {start : Option String}
    (defined : ∀ name, start = some name → name = "" ∨ grammar.defines name = true)
    {own : Fault → Prop}
    (blamed : ∀ (x : σ) q fault, (DecisionSource.ask q x).1 = .error fault → fault.Excused own)
    (excused : ∀ name callback, g.replacements.find? name = some callback →
      ∀ target, (callback target).run.Excused own)
    (call : Call) (source : σ) (user : κ) :
    (∃ name, g.startOf start = .ok name) ∧
    (∀ rule ∈ (g.observe (throw .nestingExhausted) call start source user).2.source.calls,
      g.plan.Knows rule ∧ ∀ set, rule = .characters set → ∃ members,
        grammar.registry.lookup set.name set.exclude = .ok members ∧ members.isEmpty = false ∧
          g.plan.Offers σ set members) ∧
    (∀ fault, (g.runWithin call start source user).outcome = .error fault →
      fault.Excused own) ∧
    ∀ reply ∈ (g.watched.runWithin call start source (user, [])).final.user.2,
      ∀ fault ∈ reply.fault?, fault.Excused own := by
  obtain ⟨name, found, known⟩ := startOf_of_build built made defined
  have knows (rule : Rule) : g.plan.grammar.Standing rule → g.plan.Knows rule :=
    knows_of_standing built proper made
  refine ⟨⟨name, found⟩, ?_, ?_⟩
  · intro rule called
    have knows := knows_of_called knows found known call source user rule called
    refine ⟨knows, ?_⟩
    rintro set rfl
    obtain ⟨members, lookup, nonempty, classOf⟩ := knows
    refine ⟨members, ?_, nonempty, Plan.offers_of_classOf classOf⟩
    rw [← grammar_of_new made]
    exact lookup
  · rw [runWithin_watched g call start source user []]
    exact excused_of_reported knows blamed excused found known call source user

/-- The letters a and b without a. -/
def lastLetter : CharacterSet where
  name := "AB"
  exclude := [.int 97]
  isSet := ⟨by simp [Datum.hashable], by simp⟩

def lettering : Builder where
  start := "s"
  name := "s"
  registry := ⟨[("AB", ⟨"AB", [97, 98]⟩)], false⟩
  pending := [("s", [.sequence [.nonTerminal "t", .literal "!"]]), ("t", [.characters lastLetter])]

/-- A callback that goes on after its default expansion has failed. -/
def forgiving : Callback Unit := fun own => do
  try Action.expandDefault own
  catch _ => Action.write own (.str "?")

def lettered : Generator Unit where
  grammar :=
    { name := "s", start := "s", productions := lettering.bodies, registry := lettering.registry }
  replacements.default := some forgiving
  config := {}
  classes := [(lastLetter, ⟨"AB", [98]⟩)]

theorem lettering_built : lettering.build = .ok lettered.grammar := by
  simp [Builder.build, lettering, Builder.bodies, Builder.bodyOf, Rule.walk, Rule.walkFrom,
    Rule.children, Builder.checkRule, Builder.defines, Builder.rulesOf?, List.lookup_cons]
  rfl

theorem lettered_made : new lettered.grammar [] (some forgiving) {} = .ok lettered := by
  simp [new, rulesOf, lettered, lettering, Builder.bodies, Builder.bodyOf, Rule.walk, Rule.walkFrom,
    Rule.children, resolveSets]
  rfl

theorem lettered_proper : ∀ rule ∈ rulesOf lettered.grammar, rule.stray? = none := by
  simp [rulesOf, lettered, lettering, Builder.bodies, Builder.bodyOf, Rule.walk, Rule.walkFrom,
    Rule.children, Rule.stray?]

theorem forgiving_excused (own : Fault → Prop) (target : Context) :
    (forgiving target).run.Excused own := by
  intro expanded _
  cases expanded with
  | ok _ => exact fun _ => nofun
  | error fault =>
    intro wrote reported
    exact reported

theorem lettered_run_resolves :
    let source : Steady := ⟨.int 98⟩
    (lettered.runWithin (.first 20) none source ()).text.toOption = some "b!" ∧
      let calls :=
        (lettered.observe (throw .nestingExhausted) (.first 20) none source ()).2.source.calls
      calls.length = 5 ∧ ∀ rule ∈ calls, lettered.plan.Knows rule := by
  intro source
  have blamed (x : Steady) (q : Question) (fault : Fault)
      (failed : (DecisionSource.ask q x).1 = .error fault) : fault.Excused fun _ => False := by
    simp [DecisionSource.ask] at failed
  have excused (name : String) (callback : Callback Unit)
      (bound : lettered.replacements.find? name = some callback) (target : Context) :
      (callback target).run.Excused fun _ => False := by
    obtain rfl := Option.some.inj bound
    exact forgiving_excused _ target
  have defined (name : String) (given : (none : Option String) = some name) :
      name = "" ∨ lettered.grammar.defines name = true := by
    cases given
  obtain ⟨_, known, _, _⟩ := run_resolves lettering_built lettered_proper lettered_made defined
    blamed excused (.first 20) source ()
  exact ⟨by decide +kernel, by decide +kernel, fun rule called => (known rule called).1⟩

end Generator

end SentenceGen
