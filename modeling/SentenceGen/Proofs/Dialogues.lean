import Mathlib.Tactic.Choose
import SentenceGen.Proofs.Companions

/-!
# Runs as dialogues

The engine and its callbacks know a source by its answers only.  So there is one tree of questions
that every run follows, whatever its source is: each question, and what comes of them all, depends
on the answers before.  If callbacks pass faults on, a question that fails is the last one.
-/

namespace SentenceGen

/-- Questions that depend on the answers before, and what comes of them. -/
inductive Dialogue (ρ : Type) where
  | ends (result : ρ)
  | asks (q : Question) (next : Except Fault Datum → Dialogue ρ)

namespace Dialogue

variable {ρ ρ' σ κ α β S T : Type}

def bind (f : ρ → Dialogue ρ') : Dialogue ρ → Dialogue ρ'
  | .ends result => f result
  | .asks q next => .asks q fun answer => (next answer).bind f

/-- Holds the dialogue with a source. -/
def run [DecisionSource σ] : Dialogue ρ → σ → ρ × σ
  | .ends result, source => (result, source)
  | .asks q next, source =>
    let (answer, source) := DecisionSource.ask q source
    (next answer).run source

theorem run_asks [DecisionSource σ] (q : Question) (next : Except Fault Datum → Dialogue ρ)
    (source : σ) : (asks q next).run source =
      (next (DecisionSource.ask q source).1).run (DecisionSource.ask q source).2 := rfl

theorem run_bind [DecisionSource σ] (d : Dialogue ρ) (f : ρ → Dialogue ρ') (source : σ) :
    (d.bind f).run source = (f (d.run source).1).run (d.run source).2 := by
  induction d generalizing source with
  | ends result => rfl
  | asks q next ih => exact ih _ _

/-- An answer that is a fault ends the dialogue with that fault. -/
def Propagates : Dialogue (Except Fault α × S) → Prop
  | .ends _ => True
  | .asks _ next =>
    (∀ fault, ∃ left, next (.error fault) = .ends (.error fault, left)) ∧
      ∀ answer, (next answer).Propagates

theorem Propagates.bind {d : Dialogue (Except Fault α × S)}
    {f : Except Fault α × S → Dialogue (Except Fault β × T)} (h : d.Propagates)
    (each : ∀ ended, (f ended).Propagates)
    (passes : ∀ fault left, ∃ left', f (.error fault, left) = .ends (.error fault, left')) :
    (d.bind f).Propagates := by
  induction d with
  | ends result => exact each result
  | asks q next ih =>
    refine ⟨fun fault => ?_, fun answer => ih answer (h.2 answer)⟩
    obtain ⟨left, last⟩ := h.1 fault
    change ∃ left, (next (.error fault)).bind f = .ends (.error fault, left)
    rw [last]
    exact passes fault left

/-- The outcome of a dialogue with a source and the state that it leaves. -/
def ended [DecisionSource σ] (d : Dialogue (Except Fault α × Expansion Unit κ)) (source : σ) :
    Except Fault α × Expansion σ κ :=
  ((d.run source).1.1, (d.run source).1.2.withSource (d.run source).2)

theorem ended_bind [DecisionSource σ] (d : Dialogue ρ)
    (f : ρ → Dialogue (Except Fault α × Expansion Unit κ)) (source : σ) :
    (d.bind f).ended source = (f (d.run source).1).ended (d.run source).2 := by
  rw [ended, run_bind]
  rfl

end Dialogue

namespace Expand

variable {σ κ α β : Type} [DecisionSource σ] {strict : Prop}

/-! ### Actions -/

/-- From that state on, the action is one dialogue with its source, whatever that is.  In the strict
case a fault ends the dialogue. -/
def SpeaksFrom (strict : Prop) (s : Expansion Unit κ) (action : Expand σ κ α) : Prop :=
  ∃ d : Dialogue (Except Fault α × Expansion Unit κ), (strict → d.Propagates) ∧
    ∀ source, action.exec (s.withSource source) = d.ended source

def Speaks (strict : Prop) (action : Expand σ κ α) : Prop := ∀ s, SpeaksFrom strict s action

theorem Blind.speaks {a₀ : Expand Unit κ α} {a : Expand σ κ α} (h : Blind a₀ a) :
    Speaks strict a :=
  fun s => ⟨.ends (a₀.exec s), fun _ => trivial, (h s).2⟩

theorem speaks_ask (q : Question) : Speaks strict (ask q : Expand σ κ Datum) :=
  fun s => ⟨.asks q fun answer => .ends (answer, s),
    fun _ => ⟨fun _ => ⟨s, rfl⟩, fun _ => trivial⟩, fun _ => rfl⟩

/-- What comes after an action gets its outcome, and passes on its faults in the strict case. -/
theorem Speaks.attempt {action : Expand σ κ α} {next : Except Fault α → Expand σ κ β}
    (first : Speaks strict action) (second : ∀ result, Speaks strict (next result))
    (gives : strict → ∀ fault (s : Expansion Unit κ), ∃ left : Expansion Unit κ, ∀ source,
      (next (.error fault)).exec (s.withSource source) = (.error fault, left.withSource source)) :
    Speaks strict (attempt action next) := by
  have each (result : Except Fault α) (s : Expansion Unit κ) :
      ∃ d : Dialogue (Except Fault β × Expansion Unit κ),
        (strict → d.Propagates ∧ ∀ fault, result = .error fault →
          ∃ left, d = .ends (.error fault, left)) ∧
        ∀ source, (next result).exec (s.withSource source) = d.ended source := by
    obtain ⟨d, propagates, ran⟩ := second result s
    cases result with
    | ok a => exact ⟨d, fun must => ⟨propagates must, nofun⟩, ran⟩
    | error fault =>
      -- In the strict case the dialogue is over at once, which `second` does not say.
      by_cases must : strict
      · obtain ⟨left, gave⟩ := gives must fault s
        refine ⟨.ends (.error fault, left), fun _ => ⟨trivial, ?_⟩, gave⟩
        rintro _ ⟨⟩
        exact ⟨left, rfl⟩
      · exact ⟨d, fun h => absurd h must, ran⟩
  choose later strictly ranLater using each
  intro s
  obtain ⟨d, propagates, ran⟩ := first s
  refine ⟨d.bind fun ended => later ended.1 ended.2, fun must => ?_, fun source => ?_⟩
  · exact (propagates must).bind (fun ended => (strictly _ _ must).1)
      fun fault left => (strictly _ _ must).2 fault rfl
  · rw [exec_attempt, ran, Dialogue.ended_bind]
    exact ranLater _ _ _

theorem Speaks.bind {action : Expand σ κ α} {next : α → Expand σ κ β}
    (first : Speaks strict action) (second : ∀ a, Speaks strict (next a)) :
    Speaks strict (action >>= next) := by
  have passing : action >>= next =
      Expand.attempt action fun result => ExceptT.mk (ExceptT.bindCont next result) := rfl
  rw [passing]
  refine first.attempt (fun result => ?_) fun _ fault s => ⟨s, fun _ => rfl⟩
  cases result with
  | ok a => exact second a
  | error fault => exact (blind_throw fault).speaks

/-- The source has no part in what is changed on the way in and on the way out. -/
theorem SpeaksFrom.around {action outer : Expand σ κ α} {inside s : Expansion Unit κ}
    (h : SpeaksFrom strict inside action) (leave : Expansion Unit κ → Expansion Unit κ)
    (same : ∀ source outcome left rest,
      action.exec (inside.withSource source) = (outcome, left.withSource rest) →
        outer.exec (s.withSource source) = (outcome, (leave left).withSource rest)) :
    SpeaksFrom strict s outer := by
  obtain ⟨d, propagates, ran⟩ := h
  refine ⟨d.bind fun ended => .ends (ended.1, leave ended.2), fun must => ?_, fun source => ?_⟩
  · exact (propagates must).bind (fun _ => trivial) fun _ left => ⟨leave left, rfl⟩
  · rw [Dialogue.ended_bind]
    exact same source _ _ _ (ran source)

theorem Speaks.within {action : Expand σ κ Unit} (h : Speaks strict action) (name : String) :
    Speaks strict (within name action) := by
  intro s
  refine (h { s with productions := name :: s.productions }).around
    (fun s => { s with productions := s.productions.tail }) ?_
  intro source outcome left rest ran
  have ran : action.exec
      { s.withSource source with productions := name :: (s.withSource source).productions } = _ :=
    ran
  rw [exec_within, ran]
  rfl

theorem Speaks.nested {plan : Plan κ} {action : Expand σ κ Unit} (h : Speaks strict action) :
    Speaks strict (nested plan action) := by
  intro s
  cases crossed : levelOutcome plan (s.depth + 1) s.productions with
  | error fault =>
    refine ⟨.ends (.error fault, s), fun _ => trivial, fun source => ?_⟩
    have crossed : levelOutcome plan ((s.withSource source).depth + 1)
      (s.withSource source).productions = _ := crossed
    rw [exec_nested, crossed]
    rfl
  | ok _ =>
    refine (h { s with depth := s.depth + 1 }).around (fun s => { s with depth := s.depth - 1 }) ?_
    intro source outcome left rest ran
    have ran : action.exec
      { s.withSource source with depth := (s.withSource source).depth + 1 } = _ := ran
    have crossed : levelOutcome plan ((s.withSource source).depth + 1)
      (s.withSource source).productions = _ := crossed
    rw [exec_nested, crossed]
    simp only [ran]
    rfl

theorem speaks_writeTo (plan : Plan κ) (target : Context) (text : Datum) :
    Speaks strict (writeTo plan target text : Expand σ κ Unit) := by
  apply (blind_requireOpen target).speaks.bind
  intro _
  cases text with
  | str text => exact (blind_leaf plan { kind := .literal, text } _).speaks
  | _ => exact (blind_throw _).speaks

/-! ### Programs -/

variable {plan : Plan κ} {expandOne : Rule → Option NodeId → Expand σ κ Unit}

theorem speaks_expandIn (each : ∀ rule parent, Speaks strict (expandOne rule parent))
    (target : Context) : Speaks strict (expandIn plan expandOne target) := by
  apply (blind_requireOpen target).speaks.bind
  intro _
  apply (blind_lift _).speaks.bind
  intro body
  exact each body _

variable (plan expandOne) in
/-- A program that gives up leaves the source alone. -/
theorem exec_serve_givesUp {fault : Fault} (program : Program κ (Except Fault Unit))
    (gives : program.GivesUp fault) (s : Expansion Unit κ) : ∃ left : Expansion Unit κ, ∀ source,
      (serve plan expandOne program).exec (s.withSource source) =
        (.error fault, left.withSource source) := by
  induction program generalizing s with
  | done result =>
    refine ⟨s, fun source => ?_⟩
    rw [show result = .error fault from gives]
    rfl
  | write | expand | ask => exact gives.elim
  | look next ih => exact ih ⟨s.tree, s.user⟩ (gives _) s
  | store user next ih => exact ih gives { s with user }

variable (plan) in
theorem speaks_serve (each : ∀ rule parent, Speaks strict (expandOne rule parent))
    (program : Program κ (Except Fault Unit)) (propagates : strict → program.Propagates) :
    Speaks strict (serve plan expandOne program) := by
  induction program with
  | done result => exact (blind_lift result).speaks
  | write target text next ih =>
    rw [serve_write]
    exact (speaks_writeTo plan target text).attempt
      (fun result => ih result fun must => (propagates must).2 result)
      fun must fault => exec_serve_givesUp plan expandOne _ ((propagates must).1 fault)
  | expand target next ih =>
    rw [serve_expand]
    exact (speaks_expandIn each target).attempt
      (fun result => ih result fun must => (propagates must).2 result)
      fun must fault => exec_serve_givesUp plan expandOne _ ((propagates must).1 fault)
  | ask question next ih =>
    rw [serve_ask]
    exact (speaks_ask question).attempt
      (fun result => ih result fun must => (propagates must).2 result)
      fun must fault => exec_serve_givesUp plan expandOne _ ((propagates must).1 fault)
  | look next ih =>
    intro s
    exact ih ⟨s.tree, s.user⟩ (fun must => propagates must _) s
  | store user next ih =>
    intro s
    exact ih propagates { s with user }

theorem speaks_replace (each : ∀ rule parent, Speaks strict (expandOne rule parent))
    (callback : Callback κ) (target : Context)
    (propagates : strict → (callback target).run.Propagates) :
    Speaks strict (replace plan expandOne callback target) := by
  intro s
  refine (speaks_serve plan each (callback target).run propagates
    { s with live := target :: s.live }).around
      (fun s => { s with live := s.live.erase target }) ?_
  intro source outcome left rest ran
  have ran : (serve plan expandOne (callback target).run).exec
      { s.withSource source with live := target :: (s.withSource source).live } = _ := ran
  rw [exec_replace]
  simp only [ran]
  rfl

/-! ### The engine -/

theorem speaking (plan : Plan κ) (propagate : strict → plan.replacements.Propagate) :
    Simulation σ σ plan plan (fun _ => True) (fun _ action _ => Speaks strict action)
      (fun _ action _ => Speaks strict action) where
  child _ _ := trivial
  body _ _ := trivial
  production_eq _ := rfl
  classOf_eq _ := rfl
  fails _ _ _ := (blind_throw _).speaks
  asks q next := (speaks_ask q).bind next
  meets next := blind_nextSite.speaks.bind next
  leaf label parent := (blind_leaf plan label parent).speaks
  opens label parent below := (blind_addNode _).speaks.bind below
  done _ := (blind_pure ()).speaks
  next first second := first.bind fun _ => second
  produces {expand₁ _ name body} id _ _ each := by
    have each (rule : Rule) (parent : Option NodeId) : Speaks strict (expand₁ rule parent) :=
      each rule parent trivial
    apply Speaks.within
    unfold produce
    split
    next => exact each body _
    next callback found =>
      apply blind_ownCall.speaks.bind
      intro call
      exact speaks_replace each callback _ fun must =>
        propagate must name callback found ⟨call, id, name⟩

theorem speaks_expand (plan : Plan κ) (propagate : strict → plan.replacements.Propagate)
    (fuel : Nat) (rule : Rule) (parent : Option NodeId) :
    Speaks strict (expand plan fuel rule parent : Expand σ κ Unit) := by
  induction fuel generalizing rule parent with
  | zero => exact (blind_throw _).speaks
  | succ fuel ih =>
    exact ((speaking plan propagate).everywhere _ (expand plan fuel) ih rule parent).nested

end Expand

/-- Whatever its source is, a run is the same dialogue with it. -/
theorem Generator.runWithin_dialogue {σ κ : Type} [DecisionSource σ] (g : Generator κ)
    (call : Call) (start : Option String) (user : κ) :
    ∃ (name : String) (d : Dialogue (Except Fault Unit × Expansion Unit κ)),
      (g.replacements.Propagate → d.Propagates) ∧ ∀ source : σ,
        ((g.runWithin call start source user).outcome,
          (g.runWithin call start source user).final) = settle name (d.ended source) := by
  cases found : g.startOf start with
  | error fault =>
    refine ⟨"", .ends (.error fault, call.begin () user), fun _ => trivial, fun source => ?_⟩
    have ordinary : fault.kind ≠ .recursion := by
      simp only [startOf] at found
      split at found <;> split at found <;> cases found <;> exact nofun
    rw [settle_of_error rfl ordinary]
    simp only [runWithin, found]
    rfl
  | ok name =>
    have speaks : Expand.Speaks g.replacements.Propagate
        (Expand.expand g.plan call.ceiling (.nonTerminal name) none : Expand σ κ Unit) :=
      Expand.speaks_expand g.plan id call.ceiling _ _
    obtain ⟨d, propagates, ran⟩ := speaks (call.begin () user)
    refine ⟨name, d, propagates, fun source => ?_⟩
    rw [g.runWithin_eq_settle found, ← ran]
    rfl

end SentenceGen
