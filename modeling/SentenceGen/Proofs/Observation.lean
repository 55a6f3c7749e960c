import SentenceGen.Generator
import SentenceGen.Proofs.Guarantee
import SentenceGen.Proofs.Watching

/-!
# Observed runs

An observed source keeps the questions that it is asked.  An observed program keeps the places of
the nodes that its own writes add, which the finished tree does not tell from what the engine added.
An observed expansion also keeps the rules that it was called for.  Observing changes nothing else.
-/

namespace SentenceGen

structure Observed (σ : Type) where
  inner : σ
  questions : List Question := []
  /-- The rules that were expanded, in the order of the calls. -/
  calls : List Rule := []

instance {σ : Type} [DecisionSource σ] : DecisionSource (Observed σ) where
  name o := DecisionSource.name o.inner
  shown o := DecisionSource.shown o.inner
  ask q o :=
    let (answer, inner) := DecisionSource.ask q o.inner
    (answer, { o with inner, questions := o.questions ++ [q] })

namespace Program

variable {κ α : Type}

/-- Keeps the places from the first number up to the second one. -/
def claim (first last : NodeId) (rest : Program (κ × List NodeId) α) :
    Program (κ × List NodeId) α :=
  .look fun view =>
    .store (view.user.1, view.user.2 ++ List.range' first (last - first)) rest

def observed : Program κ α → Program (κ × List NodeId) α
  | .done result => .done result
  | .write target text next =>
    .look fun before => .write target text fun r =>
      .look fun after => claim before.tree.size after.tree.size (next r).observed
  | .expand target next => .expand target fun r => (next r).observed
  | .ask question next => .ask question fun r => (next r).observed
  | .look next => .look fun view => (next ⟨view.tree, view.user.1⟩).observed
  | .store user next => .look fun view => .store (user, view.user.2) next.observed

end Program

def Callback.observed {κ : Type} (callback : Callback κ) : Callback (κ × List NodeId) :=
  fun target => ExceptT.mk (callback target).run.observed

def Plan.observed {κ : Type} (plan : Plan κ) : Plan (κ × List NodeId) where
  grammar := plan.grammar
  replacements := plan.replacements.map Callback.observed
  classes := plan.classes
  maxDepth := plan.maxDepth
  maxSize := plan.maxSize

/-- The state without what was observed. -/
def Expansion.forget {σ κ : Type} (s : Expansion (Observed σ) (κ × List NodeId)) :
    Expansion σ κ where
  call := s.call
  tree := s.tree
  chunks := s.chunks
  size := s.size
  depth := s.depth
  sites := s.sites
  productions := s.productions
  live := s.live
  source := s.source.inner
  user := s.user.1

namespace Expand

variable {σ κ α β : Type}

/-- The second action does, on the state without the observations, what the first one does. -/
def Forgets (observed : Expand (Observed σ) (κ × List NodeId) α) (plain : Expand σ κ α) : Prop :=
  ∀ s, plain.exec s.forget = ((observed.exec s).1, (observed.exec s).2.forget)

variable {a₁ : Expand (Observed σ) (κ × List NodeId) α} {a₂ : Expand σ κ α}

theorem Forgets.bind {k₁ : α → Expand (Observed σ) (κ × List NodeId) β} {k₂ : α → Expand σ κ β}
    (first : Forgets a₁ a₂) (second : ∀ a, Forgets (k₁ a) (k₂ a)) :
    Forgets (a₁ >>= k₁) (a₂ >>= k₂) := by
  intro s
  have forgotten := first s
  rcases ran : a₁.exec s with ⟨fault | a, t⟩
  · rw [ran] at forgotten
    rw [exec_bind_of_error ran, exec_bind_of_error forgotten]
  · rw [ran] at forgotten
    rw [exec_bind_of_ok ran, exec_bind_of_ok forgotten]
    exact second a t

theorem forgets_pure (a : α) :
    Forgets (pure a : Expand (Observed σ) (κ × List NodeId) α) (pure a : Expand σ κ α) :=
  fun _ => rfl

theorem forgets_throw (fault : Fault) :
    Forgets (throw fault : Expand (Observed σ) (κ × List NodeId) α) (throw fault : Expand σ κ α) :=
  fun _ => rfl

theorem forgets_lift (result : Except Fault α) :
    Forgets (liftM result : Expand (Observed σ) (κ × List NodeId) α)
      (liftM result : Expand σ κ α) :=
  fun _ => rfl

theorem forgets_ownCall :
    Forgets (ownCall : Expand (Observed σ) (κ × List NodeId) _) (ownCall : Expand σ κ _) :=
  fun _ => rfl

theorem forgets_addNode (node : Node) :
    Forgets (addNode node : Expand (Observed σ) (κ × List NodeId) _)
      (addNode node : Expand σ κ _) :=
  fun _ => rfl

theorem forgets_ask [DecisionSource σ] (q : Question) :
    Forgets (ask q : Expand (Observed σ) (κ × List NodeId) _) (ask q : Expand σ κ _) :=
  fun _ => rfl

theorem forgets_nextSite :
    Forgets (nextSite : Expand (Observed σ) (κ × List NodeId) _) (nextSite : Expand σ κ _) :=
  fun _ => rfl

variable (plan : Plan κ)

theorem forgets_leaf (label : Label) (parent : Option NodeId) :
    Forgets (leaf plan.observed label parent : Expand (Observed σ) _ Unit)
      (leaf plan label parent : Expand σ κ Unit) := by
  intro s
  have same : s.forget.tree = s.tree := rfl
  rw [exec_leaf, exec_leaf, same]
  rcases s.tree.add (label.under parent) with ⟨fault | id, tree⟩
  · rfl
  · by_cases empty : label.text = ""
    · simp only [empty, if_true]
      rfl
    · simp only [empty, if_false]
      rfl

theorem forgets_requireOpen (target : Context) :
    Forgets (requireOpen target : Expand (Observed σ) (κ × List NodeId) Unit)
      (requireOpen target : Expand σ κ Unit) := by
  intro s
  rw [exec_requireOpen, exec_requireOpen]
  rfl

theorem forgets_writeTo (target : Context) (text : Datum) :
    Forgets (writeTo plan.observed target text : Expand (Observed σ) _ Unit)
      (writeTo plan target text : Expand σ κ Unit) := by
  apply (forgets_requireOpen target).bind
  intro _
  cases text with
  | str text => exact forgets_leaf plan { kind := .literal, text } _
  | _ => exact forgets_throw _

theorem forgets_within {a₁ : Expand (Observed σ) (κ × List NodeId) Unit} {a₂ : Expand σ κ Unit}
    (h : Forgets a₁ a₂) (name : String) : Forgets (within name a₁) (within name a₂) := by
  intro s
  have inside : a₂.exec { s.forget with productions := name :: s.forget.productions } = _ :=
    h { s with productions := name :: s.productions }
  rw [exec_within, exec_within, inside]
  rfl

theorem forgets_nested {a₁ : Expand (Observed σ) (κ × List NodeId) Unit} {a₂ : Expand σ κ Unit}
    (h : Forgets a₁ a₂) : Forgets (nested plan.observed a₁) (nested plan a₂) := by
  intro s
  have inside : a₂.exec { s.forget with depth := s.forget.depth + 1 } = _ :=
    h { s with depth := s.depth + 1 }
  have alike : levelOutcome plan (s.forget.depth + 1) s.forget.productions =
      levelOutcome plan.observed (s.depth + 1) s.productions := rfl
  rw [exec_nested, exec_nested, inside, alike]
  cases levelOutcome plan.observed (s.depth + 1) s.productions with
  | error fault => rfl
  | ok _ => rfl

/-! ### Requests of programs -/

section

variable {plan} {expand₁ : Rule → Option NodeId → Expand (Observed σ) (κ × List NodeId) Unit}
  {expand₂ : Rule → Option NodeId → Expand σ κ Unit}

theorem forgets_expandIn
    (each : ∀ rule parent, Forgets (expand₁ rule parent) (expand₂ rule parent))
    (target : Context) :
    Forgets (expandIn plan.observed expand₁ target) (expandIn plan expand₂ target) := by
  apply (forgets_requireOpen target).bind
  intro _
  apply (forgets_lift _).bind
  intro body
  exact each body _

variable [DecisionSource σ]

/-- The state after a write of a callback, with the places of what it added kept. -/
def marking (before after : Expansion (Observed σ) (κ × List NodeId)) :
    Expansion (Observed σ) (κ × List NodeId) :=
  { after with
    user := (after.user.1,
      after.user.2 ++ List.range' before.tree.size (after.tree.size - before.tree.size)) }

theorem run_perform_observed_write (target : Context) (text : Datum)
    (next : Except Fault Unit → Program κ α) (s : Expansion (Observed σ) (κ × List NodeId)) :
    (perform plan.observed expand₁ (Program.write target text next).observed).run s =
      (perform plan.observed expand₁
        (next ((writeTo plan.observed target text).exec s).1).observed).run
          (marking s ((writeTo plan.observed target text).exec s).2) := rfl

variable (plan) in
theorem forgets_perform
    (each : ∀ rule parent, Forgets (expand₁ rule parent) (expand₂ rule parent))
    (program : Program κ α) (s : Expansion (Observed σ) (κ × List NodeId)) :
    (perform plan expand₂ program).run s.forget =
      (((perform plan.observed expand₁ program.observed).run s).1,
        ((perform plan.observed expand₁ program.observed).run s).2.forget) := by
  induction program generalizing s with
  | done result => rfl
  | write target text next ih =>
    rw [run_perform_write, forgets_writeTo plan target text s, run_perform_observed_write]
    exact ih _ (marking s _)
  | expand target next ih =>
    rw [run_perform_expand, forgets_expandIn each target s]
    exact ih _ _
  | ask question next ih =>
    rw [run_perform_ask, forgets_ask question s]
    exact ih _ _
  | look next ih => exact ih _ s
  | store user next ih => exact ih { s with user := (user, s.user.2) }

theorem forgets_replace
    (each : ∀ rule parent, Forgets (expand₁ rule parent) (expand₂ rule parent))
    (callback : Callback κ) (target : Context) :
    Forgets (replace plan.observed expand₁ callback.observed target)
      (replace plan expand₂ callback target) := by
  intro s
  have served := forgets_perform plan each (callback target).run
    { s with live := target :: s.live }
  have served : (serve plan expand₂ (callback target).run).exec
      { s.forget with live := target :: s.forget.live } = _ := served
  rw [exec_replace, exec_replace, served]
  rfl

/-- Observations are forgotten by calls as by rules. -/
theorem forgetting (plan : Plan κ) :
    Simulation (Observed σ) σ plan.observed plan (fun _ => True) (fun _ a₁ a₂ => Forgets a₁ a₂)
      (fun _ a₁ a₂ => Forgets a₁ a₂) where
  child _ _ := trivial
  body _ _ := trivial
  production_eq _ := rfl
  classOf_eq _ := rfl
  fails _ _ _ := forgets_throw _
  asks q next := (forgets_ask q).bind next
  meets next := forgets_nextSite.bind next
  leaf label parent := forgets_leaf plan label parent
  opens label parent below := (forgets_addNode _).bind below
  done _ := forgets_pure ()
  next first second := first.bind fun _ => second
  produces {expand₁ expand₂ name body} id _ _ each := by
    have each (rule : Rule) (parent : Option NodeId) :
        Forgets (expand₁ rule parent) (expand₂ rule parent) := each rule parent trivial
    have found : plan.observed.replacements.find? name = _ :=
      plan.replacements.find?_map Callback.observed name
    apply forgets_within
    unfold produce
    rw [found]
    cases plan.replacements.find? name with
    | none => exact each body _
    | some callback =>
      apply forgets_ownCall.bind
      intro call
      exact forgets_replace each callback _

end

/-! ### Traced expansions -/

def record (rule : Rule) : Expand (Observed σ) κ Unit :=
  modify fun s => { s with source := { s.source with calls := s.source.calls ++ [rule] } }

/-- Expands a rule at most `fuel` rules deep and keeps the rules that it comes to; `beyond` is what
happens deeper down. -/
def traced [DecisionSource σ] (beyond : Expand (Observed σ) κ Unit) (plan : Plan κ) :
    Nat → Rule → Option NodeId → Expand (Observed σ) κ Unit
  | 0, _, _ => beyond
  | fuel + 1, rule, parent => do
    record rule
    nested plan (step plan (traced beyond plan fuel) rule parent)

theorem exec_traced_succ [DecisionSource σ] (beyond : Expand (Observed σ) κ Unit) (plan : Plan κ)
    (fuel : Nat) (rule : Rule) (parent : Option NodeId) (s : Expansion (Observed σ) κ) :
    (traced beyond plan (fuel + 1) rule parent).exec s =
      (nested plan (step plan (traced beyond plan fuel) rule parent)).exec
        { s with source := { s.source with calls := s.source.calls ++ [rule] } } := rfl

/-- A guarantee that does not care for the record passes to traced expansions. -/
theorem Guarantee.traced [DecisionSource σ] {plan : Plan κ}
    {Holds : Expansion (Observed σ) κ → Option Fault → Expansion (Observed σ) κ → Prop}
    (h : Guarantee plan Holds) (serves : ServesAll plan Holds)
    (records : ∀ (rule : Rule) s, Holds s none
      { s with source := { s.source with calls := s.source.calls ++ [rule] } })
    {beyond : Expand (Observed σ) κ Unit} (further : Meets Holds beyond) (fuel : Nat)
    (rule : Rule) (parent : Option NodeId) :
    Meets Holds (traced beyond plan fuel rule parent) := by
  induction fuel generalizing rule parent with
  | zero => exact further
  | succ fuel ih =>
    intro s
    exact h.trans (records rule s) (h.nested (h.step serves ih rule parent) _)

/-- A traced expansion with observed callbacks goes like the expansion itself. -/
theorem forgets_traced [DecisionSource σ] (fuel : Nat) (rule : Rule) (parent : Option NodeId) :
    Forgets (σ := σ) (traced (throw .nestingExhausted) plan.observed fuel rule parent)
      (expand plan fuel rule parent) := by
  induction fuel generalizing rule parent with
  | zero => exact forgets_throw _
  | succ fuel ih =>
    have inside := (forgetting plan).everywhere _ _ ih rule parent
    intro s
    exact forgets_nested plan inside
      { s with source := { s.source with calls := s.source.calls ++ [rule] } }

end Expand

namespace Generator

variable {σ κ : Type}

/-- What a run makes of the way its expansion ended. -/
def settle (start : String) (ended : Except Fault Unit × Expansion σ κ) :
    Except Fault Unit × Expansion σ κ :=
  match ended.1 with
  | .ok () => (.ok (), { ended.2 with tree := ended.2.tree.freeze })
  | .error fault => (.error (surfaced start fault), ended.2)

/-- Only the tree of a completed run is frozen, and nothing else changes. -/
theorem settle_left (start : String) (ended : Except Fault Unit × Expansion σ κ) :
    ∃ frozen, (settle start ended).2 =
      { ended.2 with tree := { ended.2.tree with frozen := frozen } } := by
  obtain ⟨outcome, last⟩ := ended
  unfold settle
  cases outcome with
  | ok _ => exact ⟨true, rfl⟩
  | error fault => exact ⟨_, rfl⟩

theorem settle_error {start : String} {ended : Except Fault Unit × Expansion σ κ} {fault : Fault}
    (failed : (settle start ended).1 = .error fault) :
    ended.1 = .error fault ∨ fault = .tooDeep .null (.str start) := by
  obtain ⟨outcome, last⟩ := ended
  unfold settle at failed
  cases outcome with
  | ok _ => cases failed
  | error raised =>
    obtain rfl := Except.error.inj failed
    unfold surfaced
    split
    · exact .inr rfl
    · exact .inl rfl

theorem settle_of_error {start : String} {ended : Except Fault Unit × Expansion σ κ}
    {fault : Fault} (failed : ended.1 = .error fault) (ordinary : fault.kind ≠ .recursion) :
    settle start ended = (.error fault, ended.2) := by
  obtain ⟨outcome, last⟩ := ended
  obtain rfl : outcome = .error fault := failed
  simp only [settle, surfaced, if_neg ordinary]

theorem settle_ok {start : String} {ended : Except Fault Unit × Expansion σ κ}
    (completed : (settle start ended).1 = .ok ()) : ended = (.ok (), ended.2) := by
  obtain ⟨outcome, last⟩ := ended
  unfold settle at completed
  cases outcome with
  | ok _ => rfl
  | error fault => cases completed

theorem settle_forget (start : String)
    (ended : Except Fault Unit × Expansion (Observed σ) (κ × List NodeId)) :
    settle start (ended.1, ended.2.forget) =
      ((settle start ended).1, (settle start ended).2.forget) := by
  obtain ⟨outcome, last⟩ := ended
  unfold settle
  cases outcome with
  | ok _ => rfl
  | error fault => rfl

variable [DecisionSource σ] (g : Generator κ)

theorem derive_eq_settle (call : Call) (start : String) (source : σ) (user : κ) :
    g.derive call start source user =
      settle start ((Expand.expand g.plan call.ceiling (.nonTerminal start) none).exec
        (call.begin source user)) := by
  unfold derive settle Expand.exec
  rcases (Expand.expand g.plan call.ceiling (.nonTerminal start) none).run.run
    (call.begin source user) with ⟨_ | _, last⟩ <;> rfl

theorem runWithin_eq_settle {start : Option String} {name : String}
    (found : g.startOf start = .ok name) (call : Call) (source : σ) (user : κ) :
    ((g.runWithin call start source user).outcome,
        (g.runWithin call start source user).final) =
      settle name ((Expand.expand g.plan call.ceiling (.nonTerminal name) none).exec
        (call.begin source user)) := by
  simp only [runWithin, found]
  exact g.derive_eq_settle call name source user

def observedStart (call : Call) (source : σ) (user : κ) :
    Expansion (Observed σ) (κ × List NodeId) :=
  call.begin { inner := source } (user, [])

/-- The outcome of an observed run and the state that it ends in. -/
def observe (beyond : Expand (Observed σ) (κ × List NodeId) Unit) (call : Call)
    (start : Option String) (source : σ) (user : κ) :
    Except Fault Unit × Expansion (Observed σ) (κ × List NodeId) :=
  match g.startOf start with
  | .error fault => (.error fault, observedStart call source user)
  | .ok start =>
    settle start ((Expand.traced beyond g.plan.observed call.ceiling (.nonTerminal start) none).exec
      (observedStart call source user))

theorem observe_of_start {start : Option String} {name : String}
    (found : g.startOf start = .ok name)
    (beyond : Expand (Observed σ) (κ × List NodeId) Unit) (call : Call) (source : σ) (user : κ) :
    g.observe beyond call start source user =
      settle name ((Expand.traced beyond g.plan.observed call.ceiling (.nonTerminal name) none).exec
        (observedStart call source user)) := by
  simp only [observe, found]

/-- A completed run is a completed expansion, with its tree frozen. -/
theorem observe_ok {beyond : Expand (Observed σ) (κ × List NodeId) Unit} {call : Call}
    {start : Option String} {source : σ} {user : κ}
    (completed : (g.observe beyond call start source user).1 = .ok ()) :
    ∃ name last, g.startOf start = .ok name ∧
      (Expand.traced beyond g.plan.observed call.ceiling (.nonTerminal name) none).exec
        (observedStart call source user) = (.ok (), last) ∧
      g.observe beyond call start source user =
        (.ok (), { last with tree := last.tree.freeze }) := by
  cases found : g.startOf start with
  | error fault =>
    unfold observe at completed
    rw [found] at completed
    cases completed
  | ok name =>
    rw [g.observe_of_start found] at completed ⊢
    have ran := settle_ok completed
    refine ⟨name, _, rfl, ran, ?_⟩
    rw [ran]
    rfl

/-- Observing a run changes nothing else. -/
theorem runWithin_observe (call : Call) (start : Option String) (source : σ) (user : κ) :
    (g.runWithin call start source user).outcome =
        (g.observe (throw .nestingExhausted) call start source user).1 ∧
      (g.runWithin call start source user).final =
        (g.observe (throw .nestingExhausted) call start source user).2.forget := by
  unfold runWithin observe
  cases g.startOf start with
  | error fault => exact ⟨rfl, rfl⟩
  | ok start =>
    have same := Expand.forgets_traced g.plan call.ceiling (.nonTerminal start) none
      (observedStart call source user)
    have same : (Expand.expand g.plan call.ceiling (.nonTerminal start) none).exec
        (call.begin source user) = _ := same
    simp only [derive_eq_settle, same, settle_forget, and_self]

end Generator

end SentenceGen
