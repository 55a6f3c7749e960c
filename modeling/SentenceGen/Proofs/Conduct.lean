import SentenceGen.Proofs.Building
import SentenceGen.Proofs.Chronicles
import SentenceGen.Proofs.Lockstep

/-!
# The conduct of chronicled runs

What holds along a run is about three things: the state before something is done below a place, how
that state goes over into the one after it, and the state of a callback that was called.  If it
holds of every piece of a run, of adding a node, of coming to a rule, of what a callback does and of
its end, it holds of the run, whatever its rules and callbacks are.
-/

namespace SentenceGen

namespace Expansion

variable {σ κ : Type}

variable (s : Expansion (Chronicled σ κ) κ) (name : String) (parent : Option NodeId)

@[simp] theorem call_spoken (text : String) : (s.spoken text).call = s.call := by
  unfold spoken
  split <;> rfl

@[simp] theorem tree_spoken (text : String) : (s.spoken text).tree = s.tree := by
  unfold spoken
  split <;> rfl

@[simp] theorem productions_spoken (text : String) :
    (s.spoken text).productions = s.productions := by
  unfold spoken
  split <;> rfl

@[simp] theorem live_spoken (text : String) : (s.spoken text).live = s.live := by
  unfold spoken
  split <;> rfl

@[simp] theorem events_spoken (text : String) : (s.spoken text).events = s.events := by
  unfold spoken
  split <;> rfl

theorem bare_spoken (text : String) : (s.spoken text).bare = s.bare.spoken text := by
  unfold spoken
  split <;> rfl

/-- The production at the next place, as a context of the call. -/
def nextContext : Context := ⟨s.call, s.tree.size, name⟩

/-- The state with a node for a production, which is being expanded. -/
def entering : Expansion (Chronicled σ κ) κ :=
  { s.grown (Label.under { kind := .nonTerminal, name := some name } parent) with
    productions := name :: s.productions }

/-- The state in which the body of the production comes next. -/
def keeping : Expansion (Chronicled σ κ) κ :=
  (s.entering name parent).told (.kept (s.nextContext name))

/-- The state in which a callback begins for the production. -/
def calling (callback : Callback κ) : Expansion (Chronicled σ κ) κ :=
  { (s.entering name parent).told (.called callback (s.nextContext name)) with
    live := s.nextContext name :: s.live }

/-- The state after the innermost production. -/
def leftProduction : Expansion (Chronicled σ κ) κ := { s with productions := s.productions.tail }

/-- The state after a callback. -/
def closed (target : Context) : Expansion (Chronicled σ κ) κ :=
  { s with live := s.live.erase target }.told (.finished target)

/-- Nothing was touched that a run has to show. -/
structure Untouched (s t : Expansion (Chronicled σ κ) κ) : Prop where
  call_eq : t.call = s.call
  tree_eq : t.tree = s.tree
  chunks_eq : t.chunks = s.chunks
  size_eq : t.size = s.size
  productions_eq : t.productions = s.productions
  live_eq : t.live = s.live
  events_eq : t.events = s.events

theorem Untouched.refl : Untouched s s := ⟨rfl, rfl, rfl, rfl, rfl, rfl, rfl⟩

end Expansion

namespace Expand

open Expansion

variable {σ κ α β : Type}

/-- What holds before something is done below a place, how it goes on, and what holds of a callback
with its context, the state in which it began and the present one.  In the strict case callbacks
keep to their own contexts. -/
structure Conduct (σ : Type) {κ : Type} (plan : Plan κ) (strict : Prop) where
  Fits : Option NodeId → Expansion (Chronicled σ κ) κ → Prop
  Moves : Option NodeId → Expansion (Chronicled σ κ) κ → Expansion (Chronicled σ κ) κ → Prop
  Runs : Context → Expansion (Chronicled σ κ) κ → Expansion (Chronicled σ κ) κ → Prop
  takes {parent : Option NodeId} {s : Expansion (Chronicled σ κ) κ} : Fits parent s →
    s.tree.Takes parent
  stays {parent : Option NodeId} {s t : Expansion (Chronicled σ κ) κ} : Fits parent s →
    Untouched s t → Fits parent t
  refl {parent : Option NodeId} {s : Expansion (Chronicled σ κ) κ} : Fits parent s →
    Moves parent s s
  trans {parent : Option NodeId} {s t u : Expansion (Chronicled σ κ) κ} : Moves parent s t →
    Moves parent t u → Moves parent s u
  ends {parent : Option NodeId} {s t u : Expansion (Chronicled σ κ) κ} : Moves parent s t →
    Untouched t u → Moves parent s u
  next {id : NodeId} {s t : Expansion (Chronicled σ κ) κ} : Fits (some id) s →
    Moves (some id) s t → Fits (some id) t
  reaches {parent : Option NodeId} {s : Expansion (Chronicled σ κ) κ} : Fits parent s →
    let t := s.told (.reached s.bare)
    Fits parent t ∧ Moves parent s t
  leaf {id : NodeId} {s : Expansion (Chronicled σ κ) κ} {label : Label} : Fits (some id) s →
    label.Made → label.kind.isLeaf = true →
      Moves (some id) s ((s.grown (label.under (some id))).spoken label.text)
  inner {id : NodeId} {s : Expansion (Chronicled σ κ) κ} {label : Label} : Fits (some id) s →
    label.Made → label.kind.isLeaf = false → label.kind ≠ .nonTerminal →
      let below := s.grown (label.under (some id))
      Fits (some s.tree.size) below ∧
        ∀ {t}, Moves (some s.tree.size) below t → Moves (some id) s t
  keeps {parent : Option NodeId} {s : Expansion (Chronicled σ κ) κ} {name : String} :
    Fits parent s → plan.replacements.find? name = none →
      let below := s.keeping name parent
      Fits (some s.tree.size) below ∧
        ∀ {t}, Moves (some s.tree.size) below t → Moves parent s t.leftProduction
  calls {parent : Option NodeId} {s : Expansion (Chronicled σ κ) κ} {name : String}
    {callback : Callback κ} : Fits parent s → plan.replacements.find? name = some callback →
      let own := s.nextContext name
      let begun := s.calling name parent callback
      Runs own begun begun ∧
        ∀ {t}, Runs own begun t → Moves parent s (t.closed own).leftProduction
  acts {own : Context} {begun s : Expansion (Chronicled σ κ) κ} : Runs own begun s →
    Runs own begun (s.told (.acted ⟨own, begun.bare, s.bare⟩))
  resumes {own : Context} {begun s t : Expansion (Chronicled σ κ) κ} : Runs own begun s →
    Untouched s t → Runs own begun t
  requests {own target : Context} {begun s : Expansion (Chronicled σ κ) κ} : Runs own begun s →
    target ∈ s.live → (strict → target = own) →
      Fits (some target.node) s ∧ ∀ {t}, Moves (some target.node) s t → Runs own begun t

/-- Only productions are expanded under no parent. -/
def Outermost (rule : Rule) (parent : Option NodeId) : Prop :=
  parent = none → ∃ name, rule = .nonTerminal name

theorem outermost_some (rule : Rule) (id : NodeId) : Outermost rule (some id) := nofun

/-- The action touches nothing that a run has to show. -/
def Rests (action : Expand (Chronicled σ κ) κ α) : Prop :=
  ∀ s, Untouched s (action.exec s).2

theorem rests_lift (result : Except Fault α) :
    Rests (liftM result : Expand (Chronicled σ κ) κ α) :=
  fun s => .refl s

theorem rests_consult [DecisionSource σ] (plan : Plan κ) (rule : Rule) :
    Rests (consult plan rule : Expand (Chronicled σ κ) κ (Label × List Rule)) := by
  intro s
  obtain ⟨source, sites, from_source, left⟩ := consult_left plan rule s
  have events_eq : source.events = s.source.events := by
    rcases from_source with rfl | ⟨q, rfl⟩ <;> rfl
  rw [left]
  exact ⟨rfl, rfl, rfl, rfl, rfl, rfl, events_eq⟩

/-! ### What the pieces do -/

section

variable {label : Label} {parent : Option NodeId} {s : Expansion (Chronicled σ κ) κ}

theorem exec_addTold_of_takes (takes : s.tree.Takes parent) :
    (addTold (label.under parent)).exec s = (.ok s.tree.size, s.grown (label.under parent)) := by
  have added : s.tree.Takes (label.under parent).parent := takes
  change ((s.tree.add (label.under parent)).1, _) = _
  rw [congrArg Prod.fst (Tree.add_eq added)]

theorem exec_leafTold (takes : s.tree.Takes parent) (plan : Plan κ) :
    ((leafTold plan label parent).exec s).2 =
      (s.grown (label.under parent)).spoken label.text := by
  rw [leafTold, exec_bind_of_ok (exec_addTold_of_takes takes), Expansion.spoken]
  by_cases empty : label.text = ""
  · rw [if_pos empty, if_pos empty]
    rfl
  · rw [if_neg empty, if_neg empty, exec_append]

variable [DecisionSource σ] {plan : Plan κ}
  {expandOne : Rule → Option NodeId → Expand (Chronicled σ κ) κ Unit} {name : String}

theorem exec_produceTold_of_kept (unbound : plan.replacements.find? name = none) (body : Rule)
    (id : NodeId) (s : Expansion (Chronicled σ κ) κ) :
    (produceTold plan expandOne name body id).exec s =
      (expandOne body (some id)).exec (s.told (.kept ⟨s.call, id, name⟩)) := by
  rw [produceTold, exec_ownCall_bind, unbound]
  rfl

theorem exec_produceTold_of_bound {callback : Callback κ}
    (bound : plan.replacements.find? name = some callback) (body : Rule) (id : NodeId)
    (s : Expansion (Chronicled σ κ) κ) :
    ((produceTold plan expandOne name body id).exec s).2 =
      let own : Context := ⟨s.call, id, name⟩
      let begun := { s.told (.called callback own) with live := own :: s.live }
      ((serveTold plan expandOne own begun.bare (callback own).run).exec begun).2.closed own := by
  rw [produceTold, exec_ownCall_bind, bound]
  rfl

end

namespace Conduct

variable {plan : Plan κ} {strict : Prop} (c : Conduct σ plan strict) {parent : Option NodeId}

/-- The action goes on from what holds before it. -/
def Goes (parent : Option NodeId) (action : Expand (Chronicled σ κ) κ α) : Prop :=
  ∀ s, c.Fits parent s → c.Moves parent s (action.exec s).2

variable {c}

/-! ### Building blocks -/

theorem moves_of_untouched {s t u : Expansion (Chronicled σ κ) κ} (fits : c.Fits parent s)
    (untouched : Untouched s t) (moves : c.Moves parent t u) : c.Moves parent s u :=
  c.trans (c.ends (c.refl fits) untouched) moves

theorem goes_of_rests {action : Expand (Chronicled σ κ) κ α} (rests : Rests action) :
    c.Goes parent action :=
  fun s fits => c.ends (c.refl fits) (rests s)

theorem Goes.after {action : Expand (Chronicled σ κ) κ α} {next : α → Expand (Chronicled σ κ) κ β}
    (rests : Rests action)
    (further : ∀ a s t, action.exec s = (.ok a, t) → c.Goes parent (next a)) :
    c.Goes parent (action >>= next) := by
  intro s fits
  have untouched := rests s
  rcases ran : action.exec s with ⟨fault | a, t⟩
  · rw [exec_bind_of_error ran]
    rw [ran] at untouched
    exact c.ends (c.refl fits) untouched
  · rw [exec_bind_of_ok ran]
    rw [ran] at untouched
    exact moves_of_untouched fits untouched (further a s t ran t (c.stays fits untouched))

theorem goes_forM {act : Rule → Expand (Chronicled σ κ) κ Unit} {id : NodeId}
    (each : ∀ item, c.Goes (some id) (act item)) (items : List Rule) :
    c.Goes (some id) (items.forM act) := by
  induction items with
  | nil => exact goes_of_rests (rests_lift (.ok ()))
  | cons item rest ih =>
    intro s fits
    have first := each item s fits
    change c.Moves (some id) s ((act item >>= fun _ => rest.forM act).exec s).2
    rcases ran : (act item).exec s with ⟨fault | _, t⟩
    · rw [exec_bind_of_error ran]
      rw [ran] at first
      exact first
    · rw [exec_bind_of_ok ran]
      rw [ran] at first
      exact c.trans first (ih t (c.next fits first))

theorem Goes.nested {action : Expand (Chronicled σ κ) κ Unit} (inside : c.Goes parent action) :
    c.Goes parent (nested plan action) := by
  intro s fits
  rw [exec_nested]
  cases levelOutcome plan (s.depth + 1) s.productions with
  | error fault => exact c.refl fits
  | ok _ =>
    have deeper : Untouched s { s with depth := s.depth + 1 } := ⟨rfl, rfl, rfl, rfl, rfl, rfl, rfl⟩
    have moves := moves_of_untouched fits deeper (inside _ (c.stays fits deeper))
    exact c.ends moves ⟨rfl, rfl, rfl, rfl, rfl, rfl, rfl⟩

theorem goes_leafTold {id : NodeId} {label : Label} (made : label.Made)
    (isLeaf : label.kind.isLeaf = true) : c.Goes (some id) (leafTold plan label (some id)) := by
  intro s fits
  rw [exec_leafTold (c.takes fits)]
  exact c.leaf fits made isLeaf

theorem runs_writeTold {own target : Context} {begun s : Expansion (Chronicled σ κ) κ}
    (runs : c.Runs own begun s) (allowed : strict → target = own) (text : Datum) :
    c.Runs own begun ((writeTold plan target text).exec s).2 := by
  unfold writeTold
  rw [exec_bind, exec_requireOpen]
  by_cases live : s.live.contains target = true
  · rw [if_pos live]
    obtain ⟨fits, onwards⟩ := c.requests runs (List.contains_iff_mem.mp live) allowed
    cases text with
    | str text => exact onwards (goes_leafTold (.literal text) rfl s fits)
    | _ => exact runs
  · rw [if_neg live]
    exact runs

/-! ### Callbacks and rules -/

section

variable {expandOne : Rule → Option NodeId → Expand (Chronicled σ κ) κ Unit}
  (each : ∀ rule parent, Outermost rule parent → c.Goes parent (expandOne rule parent))
include each

theorem goes_growTold {id : NodeId} {label : Label} (made : label.Made)
    (other : label.kind ≠ .nonTerminal) (items : List Rule) :
    c.Goes (some id) (growTold plan expandOne (some id) label items) := by
  unfold growTold
  by_cases leaf : label.kind.isLeaf = true
  · rw [if_pos leaf]
    exact goes_leafTold made leaf
  · rw [if_neg leaf]
    intro s fits
    obtain ⟨below, onwards⟩ := c.inner fits made (Bool.eq_false_iff.mpr leaf) other
    rw [exec_bind_of_ok (exec_addTold_of_takes (c.takes fits))]
    split
    next name production _ => exact absurd production other
    next =>
      exact onwards (goes_forM (fun item => each item _ (outermost_some item _)) items _ below)

theorem runs_expandIn {own target : Context} {begun s : Expansion (Chronicled σ κ) κ}
    (runs : c.Runs own begun s) (allowed : strict → target = own) :
    c.Runs own begun ((expandIn plan expandOne target).exec s).2 := by
  rw [expandIn, exec_bind, exec_requireOpen]
  by_cases live : s.live.contains target = true
  · rw [if_pos live]
    obtain ⟨fits, onwards⟩ := c.requests runs (List.contains_iff_mem.mp live) allowed
    simp only [exec_bind, exec_lift]
    cases plan.grammar.production target.name with
    | error fault => exact runs
    | ok body => exact onwards (each body _ (outermost_some body target.node) s fits)
  · rw [if_neg live]
    exact runs

variable [DecisionSource σ]

/-- A callback goes on to the end, whatever it asks for. -/
theorem runs_serveTold {own : Context} {begun : Expansion (Chronicled σ κ) κ}
    (program : Program κ (Except Fault Unit)) (isLocal : strict → program.Local own)
    {s : Expansion (Chronicled σ κ) κ} (runs : c.Runs own begun s) :
    c.Runs own begun ((serveTold plan expandOne own begun.bare program).exec s).2 := by
  induction program generalizing s with
  | done result => exact c.acts runs
  | write target text next ih =>
    refine ih _ (fun must => (isLocal must).2 _) ?_
    exact runs_writeTold (c.acts runs) (fun must => (isLocal must).1) text
  | expand target next ih =>
    refine ih _ (fun must => (isLocal must).2 _) ?_
    exact runs_expandIn each (c.acts runs) fun must => (isLocal must).1
  | ask question next ih =>
    refine ih _ (fun must => isLocal must _) ?_
    exact c.resumes (c.acts runs) ⟨rfl, rfl, rfl, rfl, rfl, rfl, rfl⟩
  | look next ih => exact ih _ (fun must => isLocal must _) (c.acts runs)
  | store user next ih =>
    exact ih isLocal (c.resumes (c.acts runs) ⟨rfl, rfl, rfl, rfl, rfl, rfl, rfl⟩)

theorem goes_stepTold (isLocal : strict → plan.replacements.Local) (rule : Rule)
    (outermost : Outermost rule parent) : c.Goes parent (stepTold plan expandOne rule parent) := by
  have stepped (kept : ∀ name, rule ≠ .nonTerminal name) : c.Goes parent
      (consult plan rule >>= fun made => growTold plan expandOne parent made.1 made.2) := by
    obtain _ | id := parent
    · obtain ⟨name, same⟩ := outermost rfl
      exact absurd same (kept name)
    · apply Goes.after (rests_consult plan rule)
      rintro ⟨label, items⟩ s t done
      rcases consult_label done with ⟨_, name, same, _⟩ | ⟨other, _⟩
      · exact absurd same (kept name)
      · exact goes_growTold each (consult_made done) other items
  cases rule with
  | nonTerminal name =>
    intro s fits
    rw [stepTold, exec_bind, exec_lift]
    cases plan.grammar.production name with
    | error fault => exact c.refl fits
    | ok body =>
      simp only
      rw [exec_bind_of_ok (exec_addTold_of_takes (c.takes fits)), exec_within]
      cases bound : plan.replacements.find? name with
      | none =>
        obtain ⟨below, onwards⟩ := c.keeps fits bound
        rw [exec_produceTold_of_kept bound]
        exact onwards (each body _ (outermost_some body s.tree.size) _ below)
      | some callback =>
        obtain ⟨runs, onwards⟩ := c.calls fits bound
        rw [exec_produceTold_of_bound bound]
        exact onwards (runs_serveTold each _ (fun must => isLocal must name callback bound _) runs)
  | _ => exact stepped fun _ same => Rule.noConfusion same

end

theorem goes_chronicled [DecisionSource σ] (isLocal : strict → plan.replacements.Local)
    (fuel : Nat) (rule : Rule) (parent : Option NodeId) (outermost : Outermost rule parent) :
    c.Goes parent (chronicled (σ := σ) plan fuel rule parent) := by
  induction fuel generalizing rule parent with
  | zero => exact goes_of_rests (rests_lift (.error .nestingExhausted))
  | succ fuel ih =>
    intro s fits
    obtain ⟨reached, moves⟩ := c.reaches fits
    exact c.trans moves ((goes_stepTold ih isLocal rule outermost).nested _ reached)

end Conduct

end Expand

/-- What holds along chronicled runs holds of a run from its start to the state that it leaves, the
tree of which may be frozen by then. -/
theorem Generator.chronicle_moves {σ κ : Type} [DecisionSource σ] (g : Generator κ) {strict : Prop}
    (c : Expand.Conduct σ g.plan strict) (isLocal : strict → g.replacements.Local) (call : Call)
    (start : Option String) (source : σ) (user : κ) :
    let begun : Expansion (Chronicled σ κ) κ := call.begin { inner := source } user
    c.Fits none begun → ∃ ended frozen, c.Moves none begun ended ∧
      (g.chronicle call start source user).2 =
        { ended with tree := { ended.tree with frozen } } := by
  intro begun fits
  cases found : g.startOf start with
  | error fault =>
    refine ⟨begun, begun.tree.frozen, c.refl fits, ?_⟩
    simp only [chronicle, found]
    rfl
  | ok name =>
    have moves := Expand.Conduct.goes_chronicled isLocal call.ceiling (.nonTerminal name) none
      (fun _ => ⟨name, rfl⟩) begun fits
    obtain ⟨frozen, left⟩ := settle_left name
      ((Expand.chronicled g.plan call.ceiling (.nonTerminal name) none).exec begun)
    refine ⟨_, frozen, moves, ?_⟩
    simp only [chronicle, found]
    exact left

end SentenceGen
