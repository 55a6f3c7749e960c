import SentenceGen.Proofs.Companions

/-!
# Below the ceiling

How deep rules may nest without a cutoff is up to the machine.  A run that never comes to its
ceiling is the same under every higher one, and whatever would be done at the ceiling.
-/

namespace SentenceGen

namespace Expand

variable {σ κ α β : Type}

section

variable [DecisionSource σ]

/-- Expands a rule; `fuel` rules deep it is expanded in another way, `beyond`. -/
def expandOver (beyond : Rule → Option NodeId → Expand σ κ Unit) (plan : Plan κ) :
    Nat → Rule → Option NodeId → Expand σ κ Unit
  | 0 => beyond
  | fuel + 1 => fun rule parent => nested plan (step plan (expandOver beyond plan fuel) rule parent)

theorem expand_zero (plan : Plan κ) :
    expand (σ := σ) plan 0 = fun _ _ => throw .nestingExhausted := by
  funext rule parent
  rw [expand]

/-- To go on as before is to go deeper. -/
theorem expandOver_expand (plan : Plan κ) (more fuel : Nat) :
    expandOver (expand plan more) plan fuel = expand (σ := σ) plan (more + fuel) := by
  induction fuel with
  | zero => rfl
  | succ fuel ih =>
    funext rule parent
    rw [expandOver, ih, ← Nat.add_assoc, expand]

end

/-! ### Callbacks that catch nothing -/

/-- Unless the first action ends at its ceiling, the second one does the same. -/
def Spares (a a' : Expand σ κ α) : Prop :=
  ∀ s, (a.exec s).1 ≠ .error .nestingExhausted → a'.exec s = a.exec s

theorem spares_self (action : Expand σ κ α) : Spares action action := fun _ _ => rfl

theorem Spares.bind {a a' : Expand σ κ α} {k k' : α → Expand σ κ β}
    (first : Spares a a') (second : ∀ x, Spares (k x) (k' x)) :
    Spares (a >>= k) (a' >>= k') := by
  intro s spared
  rcases ran : a.exec s with ⟨fault | x, t⟩
  · rw [exec_bind_of_error ran] at spared ⊢
    have ranToo : a'.exec s = (.error fault, t) := by
      rw [← ran]
      apply first
      rw [ran]
      rintro ⟨⟩
      exact spared rfl
    rw [exec_bind_of_error ranToo]
  · rw [exec_bind_of_ok ran] at spared ⊢
    have ranToo : a'.exec s = (.ok x, t) := by
      rw [← ran]
      apply first
      rw [ran]
      exact nofun
    rw [exec_bind_of_ok ranToo]
    exact second x t spared

theorem Spares.within {a a' : Expand σ κ Unit} (inside : Spares a a') (name : String) :
    Spares (within name a) (within name a') := by
  intro s spared
  rw [exec_within] at spared
  rw [exec_within, exec_within, inside _ spared]

theorem Spares.nested {plan : Plan κ} {a a' : Expand σ κ Unit} (inside : Spares a a') :
    Spares (nested plan a) (nested plan a') := by
  intro s spared
  rw [exec_nested] at spared
  rw [exec_nested, exec_nested]
  cases entered : levelOutcome plan (s.depth + 1) s.productions with
  | error fault => rfl
  | ok _ =>
    rw [entered] at spared
    simp only [inside _ spared]

section

variable {plan : Plan κ} {expand₁ expand₂ : Rule → Option NodeId → Expand σ κ Unit}
  (each : ∀ rule parent, Spares (expand₁ rule parent) (expand₂ rule parent))
include each

theorem spares_expandIn (target : Context) :
    Spares (expandIn plan expand₁ target) (expandIn plan expand₂ target) := by
  apply (spares_self _).bind
  intro _
  apply (spares_self _).bind
  intro body
  exact each body _

variable [DecisionSource σ]

/-- A program that catches nothing ends at the ceiling if one of its requests does. -/
theorem spares_serve (program : Program κ (Except Fault Unit)) (propagates : program.Propagates) :
    Spares (serve plan expand₁ program) (serve plan expand₂ program) := by
  induction program with
  | done result => exact spares_self _
  | write target text next ih => exact fun s spared => ih _ (propagates.2 _) _ spared
  | expand target next ih =>
    intro s spared
    rw [serve_expand, exec_attempt] at spared
    rw [serve_expand, serve_expand, exec_attempt, exec_attempt]
    have reached : ((expandIn plan expand₁ target).exec s).1 ≠ .error .nestingExhausted := by
      intro exhausted
      rw [exhausted] at spared
      exact spared (perform_givesUp _ (propagates.1 _) _)
    rw [spares_expandIn each target s reached]
    exact ih _ (propagates.2 _) _ spared
  | ask question next ih => exact fun s spared => ih _ (propagates.2 _) _ spared
  | look next ih => exact fun s spared => ih _ (propagates _) s spared
  | store user next ih => exact fun s spared => ih propagates { s with user } spared

end

variable [DecisionSource σ]

/-- Where nothing is caught, what is done at the ceiling counts only for runs that end there. -/
theorem sparing (plan : Plan κ) (propagate : plan.replacements.Propagate) :
    Simulation σ σ plan plan (fun _ => True) (fun _ a a' => Spares a a')
      (fun _ a a' => Spares a a') where
  child _ _ := trivial
  body _ _ := trivial
  production_eq _ := rfl
  classOf_eq _ := rfl
  fails _ _ _ := spares_self _
  asks _ next := (spares_self _).bind next
  meets next := (spares_self _).bind next
  leaf _ _ := spares_self _
  opens _ _ below := (spares_self _).bind below
  done _ := spares_self _
  next first second := first.bind fun _ => second
  produces {expand₁ expand₂ name body} id _ _ each := by
    apply Spares.within
    unfold produce
    split
    next => exact each body _ trivial
    next callback found =>
      apply (spares_self _).bind
      intro call s spared
      rw [exec_replace] at spared
      rw [exec_replace, exec_replace]
      have served := spares_serve (fun rule parent => each rule parent trivial)
        (callback ⟨call, id, name⟩).run (propagate name callback found ⟨call, id, name⟩) _ spared
      simp only [served]

theorem spares_expandOver (plan : Plan κ) (propagate : plan.replacements.Propagate)
    (beyond : Rule → Option NodeId → Expand σ κ Unit) (fuel : Nat) (rule : Rule)
    (parent : Option NodeId) :
    Spares (expand plan fuel rule parent) (expandOver beyond plan fuel rule parent) := by
  induction fuel generalizing rule parent with
  | zero => exact fun s exhausted => absurd rfl exhausted
  | succ fuel ih => exact ((sparing plan propagate).everywhere _ _ ih rule parent).nested

end Expand

namespace Generator

open Expand

variable {σ κ : Type} [DecisionSource σ]

/-- The run never comes to its ceiling: whatever would be done there, it is the same. -/
def StaysBelow (g : Generator κ) (call : Call) (start : Option String) (source : σ) (user : κ) :
    Prop :=
  ∀ name, g.startOf start = .ok name → ∀ beyond,
    (expandOver beyond g.plan call.ceiling (.nonTerminal name) none).exec (call.begin source user) =
      (expand g.plan call.ceiling (.nonTerminal name) none).exec (call.begin source user)

/-- Where no callback catches a fault, a run that does not end at its ceiling stays below it. -/
theorem staysBelow_of_propagate (g : Generator κ) (propagate : g.replacements.Propagate)
    {call : Call} {start : Option String} {source : σ} {user : κ}
    (spared : ∀ name, g.startOf start = .ok name →
      (g.runWithin call start source user).outcome ≠ .error (.tooDeep .null (.str name))) :
    g.StaysBelow call start source user := by
  intro name found beyond
  apply spares_expandOver g.plan propagate beyond
  intro exhausted
  have ended := g.runWithin_eq_settle found call source user
  rw [settle, exhausted] at ended
  exact spared name found (Prod.mk.inj ended).1

/-- The outcome of a run that does something else at its ceiling, and the state it leaves. -/
def runOver (g : Generator κ) (beyond : Rule → Option NodeId → Expand σ κ Unit) (call : Call)
    (start : Option String) (source : σ) (user : κ) : Except Fault Unit × Expansion σ κ :=
  match g.startOf start with
  | .error fault => (.error fault, call.begin source user)
  | .ok name =>
    settle name ((expandOver beyond g.plan call.ceiling (.nonTerminal name) none).exec
      (call.begin source user))

variable {g g' : Generator κ} {start start' : Option String} {name : String} {source : σ}
  {user : κ} {call : Call}

/-- How a run ends depends on its start and on the expansion of the start. -/
theorem ended_congr (found : g.startOf start = .ok name) (foundToo : g'.startOf start' = .ok name)
    (same : (expand g'.plan call.ceiling (.nonTerminal name) none).exec (call.begin source user) =
      (expand g.plan call.ceiling (.nonTerminal name) none).exec (call.begin source user)) :
    (g'.runWithin call start' source user).outcome =
        (g.runWithin call start source user).outcome ∧
      (g'.runWithin call start' source user).final =
        (g.runWithin call start source user).final := by
  have ended := g.runWithin_eq_settle found call source user
  have endedToo := g'.runWithin_eq_settle foundToo call source user
  rw [same, ← ended] at endedToo
  exact Prod.mk.inj endedToo

/-- Generators of grammars with one name and one start log the same if their expansions agree. -/
theorem runWithin_congr (named : g'.grammar.name = g.grammar.name)
    (starts : g'.startOf start = g.startOf start)
    (same : ∀ name, g.startOf start = .ok name →
      (expand g'.plan call.ceiling (.nonTerminal name) none).exec (call.begin source user) =
        (expand g.plan call.ceiling (.nonTerminal name) none).exec (call.begin source user)) :
    g'.runWithin call start source user = g.runWithin call start source user := by
  unfold runWithin
  rw [starts]
  cases found : g.startOf start with
  | error fault => rfl
  | ok name =>
    have derived : g'.derive call name source user = g.derive call name source user := by
      rw [derive_eq_settle, derive_eq_settle, same name found]
    simp only [derived, operation, named]

theorem runOver_congr {beyond : Rule → Option NodeId → Expand σ κ Unit}
    (starts : g'.startOf start = g.startOf start)
    (same : ∀ name, g.startOf start = .ok name →
      (expandOver beyond g'.plan call.ceiling (.nonTerminal name) none).exec
          (call.begin source user) =
        (expand g.plan call.ceiling (.nonTerminal name) none).exec (call.begin source user)) :
    g'.runOver beyond call start source user =
      ((g.runWithin call start source user).outcome,
        (g.runWithin call start source user).final) := by
  unfold runOver
  rw [starts]
  cases found : g.startOf start with
  | error fault =>
    unfold runWithin
    rw [found]
  | ok name =>
    rw [g.runWithin_eq_settle found]
    simp only [same name found]

end Generator

end SentenceGen
