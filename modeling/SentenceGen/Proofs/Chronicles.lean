import SentenceGen.Proofs.Phases
import SentenceGen.Proofs.Projections

/-!
# Chronicles of runs

A chronicled run keeps beside the source what happens in it: every node that is added, every rule
that is come to, and of every production whether it is expanded by its rules or a callback is called
instead, what the callback has before it whenever it can look around and when it ends.  At other
times nobody but the engine acts.  In everything else the run goes like the one that keeps nothing.
-/

namespace SentenceGen

variable {σ κ : Type}

/-- A moment of a running callback, outside the expansions that it asks for. -/
structure Moment (σ κ : Type) where
  own : Context
  /-- The state in which the callback was called. -/
  entered : Expansion σ κ
  now : Expansion σ κ

inductive Event (σ κ : Type) where
  /-- A node was added, which made this tree. -/
  | added (tree : Tree)
  /-- A rule is come to. -/
  | reached (now : Expansion σ κ)
  /-- The production at a node has no callback and is expanded by its rules. -/
  | kept (place : Context)
  /-- A callback is called for the production at a node. -/
  | called (callback : Callback κ) (place : Context)
  /-- A callback makes a request or ends. -/
  | acted (moment : Moment σ κ)
  /-- The callback for the production at a node returned or raised. -/
  | finished (place : Context)

namespace Event

/-- The production that an event is about when it is come to. -/
def place? : Event σ κ → Option Context
  | .kept place | .called _ place => some place
  | _ => none

def tree? : Event σ κ → Option Tree
  | .added tree => some tree
  | _ => none

def moment? : Event σ κ → Option (Moment σ κ)
  | .acted moment => some moment
  | _ => none

/-- The state of the run, of the events at which somebody can see it. -/
def now? : Event σ κ → Option (Expansion σ κ)
  | .reached now => some now
  | .acted moment => some moment.now
  | _ => none

end Event

/-- A source with what happened so far, the latest last. -/
structure Chronicled (σ κ : Type) where
  inner : σ
  events : List (Event σ κ) := []

instance [DecisionSource σ] : DecisionSource (Chronicled σ κ) where
  name c := DecisionSource.name c.inner
  shown c := DecisionSource.shown c.inner
  ask q c :=
    let (answer, inner) := DecisionSource.ask q c.inner
    (answer, { c with inner })

namespace Expansion

variable (s : Expansion (Chronicled σ κ) κ)

/-- The state without the chronicle. -/
def bare : Expansion σ κ := s.withSource s.source.inner

def events : List (Event σ κ) := s.source.events

/-- The state with one event more. -/
def told (event : Event σ κ) : Expansion (Chronicled σ κ) κ :=
  { s with source := { s.source with events := s.source.events ++ [event] } }

@[simp] theorem events_told (event : Event σ κ) : (s.told event).events = s.events ++ [event] := rfl

/-- The state with one node more. -/
def grown (node : Node) : Expansion (Chronicled σ κ) κ :=
  { s with tree := (s.tree.add node).2 }.told (.added (s.tree.add node).2)

theorem events_grown (node : Node) :
    (s.grown node).events = s.events ++ [.added (s.tree.add node).2] := rfl

end Expansion

namespace Expand

variable {α β : Type}

def tell (event : Event σ κ) : Expand (Chronicled σ κ) κ PUnit := modify fun s => s.told event

/-- Keeps the present state. -/
def mark : Expand (Chronicled σ κ) κ PUnit := modify fun s => s.told (.reached s.bare)

/-- Keeps the present state, in which a callback acts. -/
def witness (own : Context) (entered : Expansion σ κ) : Expand (Chronicled σ κ) κ PUnit :=
  modify fun s => s.told (.acted ⟨own, entered, s.bare⟩)

def addTold (node : Node) : Expand (Chronicled σ κ) κ NodeId :=
  ExceptT.mk (modifyGet fun s => ((s.tree.add node).1, s.grown node))

def leafTold (plan : Plan κ) (label : Label) (parent : Option NodeId) :
    Expand (Chronicled σ κ) κ Unit := do
  let _ ← addTold (label.under parent)
  unless label.text = "" do append plan label.text

def writeTold (plan : Plan κ) (target : Context) (text : Datum) :
    Expand (Chronicled σ κ) κ Unit := do
  requireOpen target
  match text with
  | .str text => leafTold plan { kind := .literal, text } (some target.node)
  | _ => throw (.writeNotText text.kind)

section

variable (plan : Plan κ) (expandOne : Rule → Option NodeId → Expand (Chronicled σ κ) κ Unit)

def growTold (parent : Option NodeId) (label : Label) (items : List Rule) :
    Expand (Chronicled σ κ) κ Unit :=
  if label.kind.isLeaf then leafTold plan label parent
  else do
    let id ← addTold (label.under parent)
    match label.kind, label.name with
    | .nonTerminal, some name => within name (items.forM fun item => expandOne item (some id))
    | _, _ => items.forM fun item => expandOne item (some id)

variable [DecisionSource σ]

/-- Serves a program, and keeps the state before each request and at the end. -/
def serveTold (own : Context) (entered : Expansion σ κ) :
    Program κ (Except Fault Unit) → Expand (Chronicled σ κ) κ Unit
  | .done result => do
    witness own entered
    liftM result
  | .write target text next => do
    witness own entered
    attempt (writeTold plan target text) fun result => serveTold own entered (next result)
  | .expand target next => do
    witness own entered
    attempt (expandIn plan expandOne target) fun result => serveTold own entered (next result)
  | .ask question next => do
    witness own entered
    attempt (ask question) fun result => serveTold own entered (next result)
  | .look next => do
    witness own entered
    let s ← get
    serveTold own entered (next ⟨s.tree, s.user⟩)
  | .store user next => do
    witness own entered
    modify fun s => { s with user }
    serveTold own entered next

def replaceTold (callback : Callback κ) (target : Context) : Expand (Chronicled σ κ) κ Unit := do
  tell (.called callback target)
  let served := during target do
    let s ← get
    serveTold plan expandOne target s.bare (callback target).run
  attempt served fun result => do
    tell (.finished target)
    liftM result

def produceTold (name : String) (body : Rule) (id : NodeId) : Expand (Chronicled σ κ) κ Unit := do
  let call ← ownCall
  match plan.replacements.find? name with
  | none => do
    tell (.kept ⟨call, id, name⟩)
    expandOne body (some id)
  | some callback => replaceTold plan expandOne callback ⟨call, id, name⟩

def stepTold (rule : Rule) (parent : Option NodeId) : Expand (Chronicled σ κ) κ Unit :=
  match rule with
  | .nonTerminal name => do
    let body ← liftM (plan.grammar.production name)
    let id ← addTold (Label.under { kind := .nonTerminal, name := some name } parent)
    within name (produceTold plan expandOne name body id)
  | rule => consult plan rule >>= fun (label, items) => growTold plan expandOne parent label items

end

/-- Expands a rule as the engine does, and keeps what happens. -/
def chronicled [DecisionSource σ] (plan : Plan κ) :
    Nat → Rule → Option NodeId → Expand (Chronicled σ κ) κ Unit
  | 0, _, _ => throw .nestingExhausted
  | fuel + 1, rule, parent => do
    mark
    nested plan (stepTold plan (chronicled plan fuel) rule parent)

/-! ### Keeping what happens changes nothing else -/

/-- The second action is the first one without the chronicle. -/
abbrev Chronicles (a₁ : Expand (Chronicled σ κ) κ α) (a₂ : Expand σ κ α) : Prop :=
  Projects Chronicled.inner a₁ a₂

theorem Chronicles.told {a₁ : Expand (Chronicled σ κ) κ α} {a₂ : Expand σ κ α}
    (h : Chronicles a₁ a₂) (event : Event σ κ) : Chronicles (tell event >>= fun _ => a₁) a₂ :=
  h.after fun _ => rfl

theorem Chronicles.marked {a₁ : Expand (Chronicled σ κ) κ α} {a₂ : Expand σ κ α}
    (h : Chronicles a₁ a₂) : Chronicles (mark >>= fun _ => a₁) a₂ :=
  h.after fun _ => rfl

theorem Chronicles.witnessed {a₁ : Expand (Chronicled σ κ) κ α} {a₂ : Expand σ κ α}
    (h : Chronicles a₁ a₂) (own : Context) (entered : Expansion σ κ) :
    Chronicles (witness own entered >>= fun _ => a₁) a₂ :=
  h.after fun _ => rfl

theorem companions_chronicled [DecisionSource σ] :
    Companions (fun (c : Chronicled σ κ) (x : σ) => x = c.inner) fun _ _ => False :=
  .of_inner fun _ _ => rfl

theorem chronicles_addTold (node : Node) :
    Chronicles (addTold node : Expand (Chronicled σ κ) κ _) (addNode node) :=
  Projects.of_exec_eq fun _ => rfl

theorem chronicles_forM {act₁ : Rule → Expand (Chronicled σ κ) κ Unit}
    {act₂ : Rule → Expand σ κ Unit} (each : ∀ item, Chronicles (act₁ item) (act₂ item))
    (items : List Rule) : Chronicles (items.forM act₁) (items.forM act₂) := by
  induction items with
  | nil => exact (blind_pure ()).accompanies
  | cons item rest ih => exact (each item).bind fun _ => ih

theorem blind_append {σ₁ σ₂ : Type} (plan : Plan κ) (text : String) :
    Blind (append plan text : Expand σ₁ κ Unit) (append plan text : Expand σ₂ κ Unit) := by
  intro s
  rw [exec_append]
  refine ⟨rfl, fun y => ?_⟩
  rw [exec_append]
  rfl

/-- The first phase of a rule goes alike from sources that agree. -/
theorem accompanies_consult {σ₁ σ₂ : Type} [DecisionSource σ₁] [DecisionSource σ₂]
    {Agree : σ₁ → σ₂ → Prop} {Lost : σ₁ → Fault → Prop} {strict : Prop}
    (h : Companions Agree Lost) (plan : Plan κ) (rule : Rule) :
    Accompanies Agree Lost strict (consult plan rule : Expand σ₁ κ _)
      (consult plan rule : Expand σ₂ κ _) := by
  cases rule with
  | literal | sequence => exact (blind_pure _).accompanies
  | stray => exact (blind_throw _).accompanies
  | alternative items =>
    apply (accompanies_ask h _).bind
    intro answer
    apply (blind_lift _).accompanies.bind
    exact fun _ => (blind_pure _).accompanies
  | optional item =>
    apply (accompanies_ask h _).bind
    exact fun _ => (blind_pure _).accompanies
  | repetition item bounds =>
    apply blind_nextSite.accompanies.bind
    intro site
    apply (accompanies_ask h _).bind
    intro answer
    apply (blind_lift _).accompanies.bind
    exact fun _ => (blind_pure _).accompanies
  | nonTerminal name =>
    apply (blind_lift _).accompanies.bind
    exact fun _ => (blind_pure _).accompanies
  | characters set =>
    apply (blind_lift _).accompanies.bind
    intro members
    apply (accompanies_ask h _).bind
    intro answer
    apply (blind_lift _).accompanies.bind
    exact fun _ => (blind_pure _).accompanies

theorem chronicles_leafTold (plan : Plan κ) (label : Label) (parent : Option NodeId) :
    Chronicles (leafTold plan label parent : Expand (Chronicled σ κ) κ Unit)
      (leaf plan label parent) := by
  apply (chronicles_addTold _).bind
  intro _
  split
  · exact (blind_pure ()).accompanies
  · exact (blind_append plan label.text).accompanies

theorem chronicles_writeTold (plan : Plan κ) (target : Context) (text : Datum) :
    Chronicles (writeTold plan target text : Expand (Chronicled σ κ) κ Unit)
      (writeTo plan target text) := by
  apply (blind_requireOpen target).accompanies.bind
  intro _
  cases text with
  | str text => exact chronicles_leafTold plan { kind := .literal, text } _
  | _ => exact (blind_throw _).accompanies

section

variable {plan : Plan κ} {expand₁ : Rule → Option NodeId → Expand (Chronicled σ κ) κ Unit}
  {expand₂ : Rule → Option NodeId → Expand σ κ Unit}
  (each : ∀ rule parent, Chronicles (expand₁ rule parent) (expand₂ rule parent))
include each

theorem chronicles_growTold (parent : Option NodeId) (label : Label) (items : List Rule) :
    Chronicles (growTold plan expand₁ parent label items)
      (grow plan expand₂ parent label items) := by
  have below (id : NodeId) := chronicles_forM (fun item => each item (some id)) items
  unfold growTold grow
  by_cases leaf : label.kind.isLeaf = true
  · rw [if_pos leaf, if_pos leaf]
    exact chronicles_leafTold plan label parent
  · rw [if_neg leaf, if_neg leaf]
    apply (chronicles_addTold _).bind
    intro id
    cases label.kind with
    | nonTerminal =>
      cases label.name with
      | none => exact below id
      | some name => exact (below id).within name
    | _ => exact below id

variable [DecisionSource σ]

theorem chronicles_serveTold (own : Context) (entered : Expansion σ κ)
    (program : Program κ (Except Fault Unit)) :
    Chronicles (serveTold plan expand₁ own entered program) (serve plan expand₂ program) := by
  induction program with
  | done result =>
    have lifted : Chronicles (liftM result : Expand (Chronicled σ κ) κ Unit)
        (serve plan expand₂ (.done result)) := Blind.accompanies fun _ => ⟨rfl, fun _ => rfl⟩
    exact lifted.witnessed own entered
  | write target text next ih =>
    rw [serve_write]
    exact .witnessed (Projects.attempt (chronicles_writeTold plan target text) ih) own entered
  | expand target next ih =>
    rw [serve_expand]
    exact .witnessed (Projects.attempt (accompanies_expandIn each target) ih) own entered
  | ask question next ih =>
    rw [serve_ask]
    have asked := Projects.attempt (accompanies_ask companions_chronicled question) ih
    exact Chronicles.witnessed asked own entered
  | look next ih => exact Chronicles.witnessed (Projects.look ih) own entered
  | store user next ih => exact Chronicles.witnessed (Projects.store ih user) own entered

theorem chronicles_replaceTold (callback : Callback κ) (target : Context) :
    Chronicles (replaceTold plan expand₁ callback target)
      (replace plan expand₂ callback target) := by
  have served : Chronicles (do
      let s ← get
      serveTold plan expand₁ target s.bare (callback target).run)
      (serve plan expand₂ (callback target).run) :=
    Projects.reading fun s => chronicles_serveTold each target s.bare (callback target).run
  have passed (result : Except Fault Unit) :
      Chronicles (liftM result : Expand (Chronicled σ κ) κ Unit) (liftM result : Expand σ κ _) :=
    (blind_lift result).accompanies
  have closed (result : Except Fault Unit) := (passed result).told (.finished target)
  exact Chronicles.told (Projects.attempt (Projects.during served target) closed) _

theorem chronicles_produceTold (name : String) (body : Rule) (id : NodeId) :
    Chronicles (produceTold plan expand₁ name body id) (produce plan expand₂ name body id) := by
  refine Projects.of_exec_eq fun s => ?_
  rw [produceTold, exec_ownCall_bind, produce]
  cases plan.replacements.find? name with
  | none =>
    have expanded := (each body (some id)).told (.kept ⟨s.call, id, name⟩)
    exact expanded.exec_eq s
  | some callback =>
    rw [exec_ownCall_bind]
    exact (chronicles_replaceTold each callback ⟨s.call, id, name⟩).exec_eq s

theorem chronicles_stepTold (rule : Rule) (parent : Option NodeId) :
    Chronicles (stepTold plan expand₁ rule parent) (step plan expand₂ rule parent) := by
  have stepped (kept : ∀ name, rule ≠ .nonTerminal name) : Chronicles
      (consult plan rule >>= fun (label, items) => growTold plan expand₁ parent label items)
      (step plan expand₂ rule parent) := by
    rw [step_eq plan expand₂ rule parent fun name same => absurd same (kept name)]
    apply (accompanies_consult companions_chronicled plan rule).bind
    rintro ⟨label, items⟩
    exact chronicles_growTold each parent label items
  cases rule with
  | nonTerminal name =>
    rw [stepTold, step_nonTerminal]
    apply (blind_lift _).accompanies.bind
    intro body
    apply (chronicles_addTold _).bind
    intro id
    exact (chronicles_produceTold each name body id).within name
  | _ => exact stepped nofun

end

theorem chronicles_chronicled [DecisionSource σ] (plan : Plan κ) (fuel : Nat) (rule : Rule)
    (parent : Option NodeId) :
    Chronicles (chronicled (σ := σ) plan fuel rule parent) (expand plan fuel rule parent) := by
  induction fuel generalizing rule parent with
  | zero => exact (blind_throw _).accompanies
  | succ fuel ih => exact Chronicles.marked (chronicles_stepTold ih rule parent).nested

end Expand

namespace Generator

variable [DecisionSource σ] (g : Generator κ)

/-- The outcome of a chronicled run and the state that it ends in. -/
def chronicle (call : Call) (start : Option String) (source : σ) (user : κ) :
    Except Fault Unit × Expansion (Chronicled σ κ) κ :=
  match g.startOf start with
  | .error fault => (.error fault, call.begin { inner := source } user)
  | .ok start =>
    settle start ((Expand.chronicled g.plan call.ceiling (.nonTerminal start) none).exec
      (call.begin { inner := source } user))

/-- Keeping a chronicle of a run changes nothing else. -/
theorem runWithin_chronicle (call : Call) (start : Option String) (source : σ) (user : κ) :
    (g.runWithin call start source user).outcome = (g.chronicle call start source user).1 ∧
      (g.runWithin call start source user).final =
        (g.chronicle call start source user).2.bare := by
  cases found : g.startOf start with
  | error fault => simp only [runWithin, chronicle, found, Expansion.bare]; trivial
  | ok name =>
    have chronicled :=
      Expand.chronicles_chronicled (σ := σ) g.plan call.ceiling (.nonTerminal name) none
    simp only [chronicle, found]
    exact g.runWithin_projects found chronicled { inner := source } user

end Generator

end SentenceGen
