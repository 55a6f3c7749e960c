import SentenceGen.Proofs.Simulation

/-!
# Guarantees

A guarantee relates the state in which a piece of a call starts, how it ended and the state that it
left.  What holds of every primitive step, and of every callback as long as it holds of the calls
that the callback makes, holds of every call.
-/

namespace SentenceGen

namespace Expand

variable {σ κ α β : Type}

/-- A relation that primitive steps keep, across the counters that are taken back after them. -/
structure Guarantee [DecisionSource σ] (plan : Plan κ)
    (Holds : Expansion σ κ → Option Fault → Expansion σ κ → Prop) : Prop where
  refl (s : Expansion σ κ) (ended : Option Fault) : Holds s ended s
  trans {s t u : Expansion σ κ} {ended : Option Fault} :
    Holds s none t → Holds t ended u → Holds s ended u
  adds (s : Expansion σ κ) (ended : Option Fault) (node : Node) :
    Holds s ended { s with tree := (s.tree.add node).2 }
  appends (s : Expansion σ κ) (text : String) :
    Holds s (faultOf (appendOutcome plan (s.size + text.length)))
      { s with chunks := s.chunks.push text, size := s.size + text.length }
  asks (s : Expansion σ κ) (ended : Option Fault) (q : Question) :
    Holds s ended { s with source := (DecisionSource.ask q s.source).2 }
  meets (s : Expansion σ κ) : Holds s none { s with sites := s.sites + 1 }
  deepens {s t : Expansion σ κ} {ended : Option Fault} :
    Holds { s with depth := s.depth + 1 } ended t → Holds s ended { t with depth := t.depth - 1 }
  enters {s t : Expansion σ κ} {ended : Option Fault} (name : String) :
    Holds { s with productions := name :: s.productions } ended t →
      Holds s ended { t with productions := t.productions.tail }
  opens {s t : Expansion σ κ} {ended : Option Fault} (target : Context) :
    Holds { s with live := target :: s.live } ended t →
      Holds s ended { t with live := t.live.erase target }

/-- The relation holds of every run of the action. -/
def Meets (Holds : Expansion σ κ → Option Fault → Expansion σ κ → Prop) (action : Expand σ κ α) :
    Prop :=
  ∀ s, Holds s (faultOf (action.exec s).1) (action.exec s).2

theorem Meets.of_exec {Holds : Expansion σ κ → Option Fault → Expansion σ κ → Prop}
    {action : Expand σ κ α} (h : Meets Holds action) {s t : Expansion σ κ}
    {outcome : Except Fault α} (ran : action.exec s = (outcome, t)) :
    Holds s (faultOf outcome) t := by
  have holds := h s
  rw [ran] at holds
  exact holds

namespace Guarantee

variable [DecisionSource σ] {plan : Plan κ}
  {Holds : Expansion σ κ → Option Fault → Expansion σ κ → Prop} (h : Guarantee plan Holds)
include h

theorem pure (a : α) : Meets Holds (pure a : Expand σ κ α) := fun s => h.refl s none

theorem throw (fault : Fault) : Meets Holds (throw fault : Expand σ κ α) :=
  fun s => h.refl s (some fault)

theorem lift (result : Except Fault α) : Meets Holds (liftM result : Expand σ κ α) :=
  fun s => h.refl s (faultOf result)

theorem addNode (node : Node) : Meets Holds (addNode node : Expand σ κ NodeId) :=
  fun s => h.adds s _ node

theorem ask (q : Question) : Meets Holds (ask q : Expand σ κ Datum) := fun s => h.asks s _ q

theorem nextSite : Meets Holds (nextSite : Expand σ κ RepetitionSite) := h.meets

theorem bind {action : Expand σ κ α} {next : α → Expand σ κ β} (first : Meets Holds action)
    (second : ∀ a, Meets Holds (next a)) : Meets Holds (action >>= next) := by
  intro s
  rcases ran : action.exec s with ⟨fault | a, t⟩
  · rw [exec_bind_of_error ran]
    exact first.of_exec ran
  · rw [exec_bind_of_ok ran]
    exact h.trans (first.of_exec ran) (second a t)

theorem leaf (label : Label) (parent : Option NodeId) :
    Meets Holds (leaf plan label parent : Expand σ κ Unit) := by
  apply h.bind (h.addNode _)
  intro _
  by_cases empty : label.text = ""
  · rw [if_pos empty]
    exact h.pure ()
  · rw [if_neg empty]
    intro s
    rw [exec_append]
    exact h.appends s label.text

theorem requireOpen (target : Context) : Meets Holds (requireOpen target : Expand σ κ Unit) := by
  intro s
  rw [exec_requireOpen]
  exact h.refl s _

theorem writeTo (target : Context) (text : Datum) :
    Meets Holds (writeTo plan target text : Expand σ κ Unit) := by
  apply h.bind (h.requireOpen target)
  intro _
  cases text with
  | str text => exact h.leaf { kind := .literal, text } _
  | _ => exact h.throw _

theorem expandIn {expandOne : Rule → Option NodeId → Expand σ κ Unit}
    (each : ∀ rule parent, Meets Holds (expandOne rule parent)) (target : Context) :
    Meets Holds (expandIn plan expandOne target) := by
  apply h.bind (h.requireOpen target)
  intro _
  apply h.bind (h.lift _)
  intro body
  exact each body _

theorem within {action : Expand σ κ Unit} (inside : Meets Holds action) (name : String) :
    Meets Holds (within name action) := by
  intro s
  rw [exec_within]
  exact h.enters name (inside _)

theorem nested {action : Expand σ κ Unit} (inside : Meets Holds action) :
    Meets Holds (nested plan action) := by
  intro s
  rw [exec_nested]
  cases levelOutcome plan (s.depth + 1) s.productions with
  | error fault => exact h.refl s (some fault)
  | ok _ => exact h.deepens (inside _)

theorem replace {expandOne : Rule → Option NodeId → Expand σ κ Unit} {callback : Callback κ}
    {target : Context} (serves : Meets Holds (serve plan expandOne (callback target).run)) :
    Meets Holds (replace plan expandOne callback target) := by
  intro s
  rw [exec_replace]
  exact h.opens target (serves _)

end Guarantee

variable [DecisionSource σ] {plan : Plan κ}

/-- Whatever the calls guarantee that a callback makes, the callback guarantees as a whole. -/
def ServesAll (plan : Plan κ) (Holds : Expansion σ κ → Option Fault → Expansion σ κ → Prop) :
    Prop :=
  ∀ expandOne, (∀ rule parent, Meets Holds (expandOne rule parent)) →
    ∀ name callback, plan.replacements.find? name = some callback →
      ∀ target, Meets Holds (serve plan expandOne (callback target).run)

/-- Callbacks keep a guarantee that is about neither their data nor how a request ended. -/
theorem Guarantee.servesAll {Holds : Expansion σ κ → Option Fault → Expansion σ κ → Prop}
    (h : Guarantee plan Holds) (stores : ∀ s user, Holds s none { s with user })
    (resumes : ∀ {s t ended}, Holds s ended t → Holds s none t) : ServesAll plan Holds := by
  intro expandOne each _ callback _ target
  generalize (callback target).run = program
  intro s
  change Holds s (faultOf ((perform plan expandOne program).run s).1)
    ((perform plan expandOne program).run s).2
  induction program generalizing s with
  | done result => exact h.refl s _
  | write target text next ih => exact h.trans (resumes (h.writeTo target text s)) (ih _ _)
  | expand target next ih => exact h.trans (resumes (h.expandIn each target s)) (ih _ _)
  | ask question next ih => exact h.trans (resumes (h.ask question s)) (ih _ _)
  | look next ih => exact ih _ s
  | store user next ih => exact h.trans (stores s user) (ih _)

/-- A guarantee passes from calls to rules. -/
theorem Guarantee.simulation {Holds : Expansion σ κ → Option Fault → Expansion σ κ → Prop}
    (h : Guarantee plan Holds) (serves : ServesAll plan Holds) :
    Simulation σ σ plan plan (fun _ => True) (fun _ action _ => Meets Holds action)
      (fun _ action _ => Meets Holds action) where
  child _ _ := trivial
  body _ _ := trivial
  production_eq _ := rfl
  classOf_eq _ := rfl
  fails _ _ _ := h.throw _
  asks q next := h.bind (h.ask q) next
  meets next := h.bind h.nextSite next
  leaf label parent := h.leaf label parent
  opens label parent below := h.bind (h.addNode _) below
  done _ := h.pure ()
  next first second := h.bind first fun _ => second
  produces {expand₁ _ name body} id _ _ each := by
    have each (rule : Rule) (parent : Option NodeId) : Meets Holds (expand₁ rule parent) :=
      each rule parent trivial
    apply h.within
    unfold produce
    split
    next => exact each body _
    next callback found =>
      exact fun s => h.replace (serves expand₁ each name callback found ⟨s.call, id, name⟩) s

theorem Guarantee.step {Holds : Expansion σ κ → Option Fault → Expansion σ κ → Prop}
    (h : Guarantee plan Holds) (serves : ServesAll plan Holds)
    {expandOne : Rule → Option NodeId → Expand σ κ Unit}
    (each : ∀ rule parent, Meets Holds (expandOne rule parent)) (rule : Rule)
    (parent : Option NodeId) : Meets Holds (step plan expandOne rule parent) :=
  (h.simulation serves).everywhere expandOne expandOne each rule parent

theorem Guarantee.expand {Holds : Expansion σ κ → Option Fault → Expansion σ κ → Prop}
    (h : Guarantee plan Holds) (serves : ServesAll plan Holds) (fuel : Nat) (rule : Rule)
    (parent : Option NodeId) : Meets Holds (expand plan fuel rule parent) := by
  induction fuel generalizing rule parent with
  | zero => exact h.throw _
  | succ fuel ih => exact h.nested (h.step serves ih rule parent)

/-- What was opened or entered on the way in is closed and left on the way out. -/
theorem restores (plan : Plan κ) :
    Guarantee (σ := σ) plan fun s _ t => t.live = s.live ∧ t.productions = s.productions where
  refl _ _ := ⟨rfl, rfl⟩
  trans first second := ⟨second.1.trans first.1, second.2.trans first.2⟩
  adds _ _ _ := ⟨rfl, rfl⟩
  appends _ _ := ⟨rfl, rfl⟩
  asks _ _ _ := ⟨rfl, rfl⟩
  meets _ := ⟨rfl, rfl⟩
  deepens inside := inside
  enters _ inside := ⟨inside.1, congrArg List.tail inside.2⟩
  opens target inside := by
    obtain ⟨live_eq, productions_eq⟩ := inside
    exact ⟨by rw [live_eq, List.erase_cons_head], productions_eq⟩

theorem restores_expand (plan : Plan κ) (fuel : Nat) (rule : Rule) (parent : Option NodeId) :
    Meets (σ := σ) (fun s _ t => t.live = s.live ∧ t.productions = s.productions)
      (expand plan fuel rule parent) :=
  (restores plan).expand ((restores plan).servesAll (fun _ _ => ⟨rfl, rfl⟩) id) fuel rule parent

end Expand

end SentenceGen
