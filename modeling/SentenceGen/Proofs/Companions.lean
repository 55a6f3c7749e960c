import SentenceGen.Proofs.Cutoffs

/-!
# Sources that go together

The engine knows a source only by its answers.  Two sources that answer alike make two runs alike in
everything but the sources.  The second source may fail where the first one answers; then the first
one is lost for good, and what the second engine does from there is up to its callbacks.
-/

namespace SentenceGen

/-- The same state with another source. -/
def Expansion.withSource {σ₁ σ₂ κ : Type} (s : Expansion σ₁ κ) (source : σ₂) : Expansion σ₂ κ where
  call := s.call
  tree := s.tree
  chunks := s.chunks
  size := s.size
  depth := s.depth
  sites := s.sites
  productions := s.productions
  live := s.live
  source
  user := s.user

/-- Sources that agree answer alike and agree again, or the second one fails and the first one is
lost with that fault. -/
structure Companions {σ₁ σ₂ : Type} [DecisionSource σ₁] [DecisionSource σ₂]
    (Agree : σ₁ → σ₂ → Prop) (Lost : σ₁ → Fault → Prop) : Prop where
  asked {x : σ₁} {y : σ₂} (q : Question) : Agree x y →
    (DecisionSource.ask q y).1 = (DecisionSource.ask q x).1 ∧
        Agree (DecisionSource.ask q x).2 (DecisionSource.ask q y).2 ∨
      ∃ fault, (DecisionSource.ask q y).1 = .error fault ∧
        Lost (DecisionSource.ask q x).2 fault
  stays {x : σ₁} {fault : Fault} (q : Question) : Lost x fault →
    Lost (DecisionSource.ask q x).2 fault
  ordinary {x : σ₁} {fault : Fault} : Lost x fault → fault.kind ≠ .recursion

/-- A source that asks another one for its answers goes together with it. -/
theorem Companions.of_inner {τ σ : Type} [DecisionSource τ] [DecisionSource σ] {inner : τ → σ}
    (asked : ∀ q x, DecisionSource.ask q (inner x) =
      ((DecisionSource.ask q x).1, inner (DecisionSource.ask q x).2)) :
    Companions (fun x y => y = inner x) fun _ _ => False where
  asked := by
    rintro x _ q rfl
    rw [asked]
    exact .inl ⟨rfl, rfl⟩
  stays _ lost := lost
  ordinary lost := lost.elim

namespace Expand

variable {σ₁ σ₂ κ α β : Type}

/-! ### Actions -/

/-- How two runs ended: alike but for sources that agree, or with the first source lost.  In the
strict case the second run then failed. -/
def Beside (Agree : σ₁ → σ₂ → Prop) (Lost : σ₁ → Fault → Prop) (strict : Prop)
    (ended₁ : Except Fault α × Expansion σ₁ κ) (ended₂ : Except Fault α × Expansion σ₂ κ) : Prop :=
  (∃ y, Agree ended₁.2.source y ∧ ended₂ = (ended₁.1, ended₁.2.withSource y)) ∨
    ∃ fault, Lost ended₁.2.source fault ∧ (strict → ended₂.1 = .error fault)

/-- A lost source stays lost. -/
def Sinks (Lost : σ₁ → Fault → Prop) (s t : Expansion σ₁ κ) : Prop :=
  ∀ fault, Lost s.source fault → Lost t.source fault

structure Accompanies (Agree : σ₁ → σ₂ → Prop) (Lost : σ₁ → Fault → Prop) (strict : Prop)
    (a₁ : Expand σ₁ κ α) (a₂ : Expand σ₂ κ α) : Prop where
  sinks : Meets (fun s _ t => Sinks Lost s t) a₁
  beside (s : Expansion σ₁ κ) (y : σ₂) : Agree s.source y →
    Beside Agree Lost strict (a₁.exec s) (a₂.exec (s.withSource y))

/-- Neither action looks at its source, and they do the same. -/
def Blind (a₁ : Expand σ₁ κ α) (a₂ : Expand σ₂ κ α) : Prop :=
  ∀ s, (a₁.exec s).2.source = s.source ∧
    ∀ y, a₂.exec (s.withSource y) = ((a₁.exec s).1, (a₁.exec s).2.withSource y)

variable {Agree : σ₁ → σ₂ → Prop} {Lost : σ₁ → Fault → Prop} {strict : Prop}
  {a₁ : Expand σ₁ κ α} {a₂ : Expand σ₂ κ α}

theorem Blind.accompanies (h : Blind a₁ a₂) : Accompanies Agree Lost strict a₁ a₂ where
  sinks s fault lost := by
    rw [(h s).1]
    exact lost
  beside s y agree := by
    obtain ⟨source_eq, same⟩ := h s
    refine .inl ⟨y, ?_, same y⟩
    rw [source_eq]
    exact agree

theorem Accompanies.bind {k₁ : α → Expand σ₁ κ β} {k₂ : α → Expand σ₂ κ β}
    (first : Accompanies Agree Lost strict a₁ a₂)
    (second : ∀ a, Accompanies Agree Lost strict (k₁ a) (k₂ a)) :
    Accompanies Agree Lost strict (a₁ >>= k₁) (a₂ >>= k₂) := by
  have sinksOn (s : Expansion σ₁ κ) : Sinks Lost (a₁.exec s).2 ((a₁ >>= k₁).exec s).2 := by
    intro fault lost
    rcases ran : a₁.exec s with ⟨failure | a, t⟩
    · rw [exec_bind_of_error ran]
      rwa [ran] at lost
    · rw [exec_bind_of_ok ran]
      rw [ran] at lost
      exact (second a).sinks t fault lost
  constructor
  · intro s fault lost
    exact sinksOn s fault (first.sinks s fault lost)
  · intro s y agree
    rcases first.beside s y agree with ⟨y', agreed, same⟩ | ⟨fault, lost, failed⟩
    · rcases ran : a₁.exec s with ⟨failure | a, t⟩
      · rw [ran] at agreed same
        rw [exec_bind_of_error ran, exec_bind_of_error same]
        exact .inl ⟨y', agreed, rfl⟩
      · rw [ran] at agreed same
        rw [exec_bind_of_ok ran, exec_bind_of_ok same]
        exact (second a).beside t y' agreed
    · refine .inr ⟨fault, sinksOn s fault lost, fun must => ?_⟩
      have stopped : a₂.exec (s.withSource y) = (.error fault, _) := Prod.ext (failed must) rfl
      rw [exec_bind_of_error stopped]

theorem blind_pure (a : α) : Blind (pure a : Expand σ₁ κ α) (pure a : Expand σ₂ κ α) :=
  fun _ => ⟨rfl, fun _ => rfl⟩

theorem blind_throw (fault : Fault) :
    Blind (throw fault : Expand σ₁ κ α) (throw fault : Expand σ₂ κ α) :=
  fun _ => ⟨rfl, fun _ => rfl⟩

theorem blind_lift (result : Except Fault α) :
    Blind (liftM result : Expand σ₁ κ α) (liftM result : Expand σ₂ κ α) :=
  fun _ => ⟨rfl, fun _ => rfl⟩

theorem blind_addNode (node : Node) :
    Blind (addNode node : Expand σ₁ κ _) (addNode node : Expand σ₂ κ _) :=
  fun _ => ⟨rfl, fun _ => rfl⟩

theorem blind_ownCall : Blind (ownCall : Expand σ₁ κ _) (ownCall : Expand σ₂ κ _) :=
  fun _ => ⟨rfl, fun _ => rfl⟩

theorem blind_nextSite : Blind (nextSite : Expand σ₁ κ _) (nextSite : Expand σ₂ κ _) :=
  fun _ => ⟨rfl, fun _ => rfl⟩

theorem blind_requireOpen (target : Context) :
    Blind (requireOpen target : Expand σ₁ κ _) (requireOpen target : Expand σ₂ κ _) := by
  intro s
  simp only [exec_requireOpen, true_and]
  intro y
  rfl

theorem blind_leaf (plan : Plan κ) (label : Label) (parent : Option NodeId) :
    Blind (leaf plan label parent : Expand σ₁ κ Unit) (leaf plan label parent : Expand σ₂ κ _) := by
  intro s
  constructor
  · obtain ⟨chunks, size, left⟩ := exec_leaf_left plan label parent s
    rw [left]
  · intro y
    have same : (s.withSource y).tree = s.tree := rfl
    rw [exec_leaf, exec_leaf, same]
    rcases s.tree.add (label.under parent) with ⟨fault | id, tree⟩
    · rfl
    · by_cases empty : label.text = ""
      · simp only [empty, if_true]
        rfl
      · simp only [empty, if_false]
        rfl

theorem accompanies_writeTo (plan : Plan κ) (target : Context) (text : Datum) :
    Accompanies Agree Lost strict (writeTo plan target text : Expand σ₁ κ Unit)
      (writeTo plan target text : Expand σ₂ κ Unit) := by
  apply (blind_requireOpen target).accompanies.bind
  intro _
  cases text with
  | str text => exact (blind_leaf plan { kind := .literal, text } _).accompanies
  | _ => exact (blind_throw _).accompanies

theorem Accompanies.within {a₁ : Expand σ₁ κ Unit} {a₂ : Expand σ₂ κ Unit}
    (h : Accompanies Agree Lost strict a₁ a₂) (name : String) :
    Accompanies Agree Lost strict (within name a₁) (within name a₂) where
  sinks s := h.sinks { s with productions := name :: s.productions }
  beside s y agree := by
    rw [exec_within, exec_within]
    rcases h.beside { s with productions := name :: s.productions } y agree with
      ⟨y', agreed, same⟩ | lost
    · have same : a₂.exec { s.withSource y with productions := name :: s.productions } = _ := same
      have named : (s.withSource y).productions = s.productions := rfl
      rw [named, same]
      exact .inl ⟨y', agreed, rfl⟩
    · exact .inr lost

theorem Accompanies.nested {plan : Plan κ} {a₁ : Expand σ₁ κ Unit} {a₂ : Expand σ₂ κ Unit}
    (h : Accompanies Agree Lost strict a₁ a₂) :
    Accompanies Agree Lost strict (nested plan a₁) (nested plan a₂) where
  sinks s := by
    rw [exec_nested]
    cases levelOutcome plan (s.depth + 1) s.productions with
    | error fault => exact fun _ lost => lost
    | ok _ => exact h.sinks { s with depth := s.depth + 1 }
  beside s y agree := by
    have level : levelOutcome plan ((s.withSource y).depth + 1) (s.withSource y).productions =
        levelOutcome plan (s.depth + 1) s.productions := rfl
    rw [exec_nested, exec_nested, level]
    cases levelOutcome plan (s.depth + 1) s.productions with
    | error fault => exact .inl ⟨y, agree, rfl⟩
    | ok _ =>
      rcases h.beside { s with depth := s.depth + 1 } y agree with ⟨y', agreed, same⟩ | lost
      · have same : a₂.exec { s.withSource y with depth := (s.withSource y).depth + 1 } = _ := same
        simp only [same]
        exact .inl ⟨y', agreed, rfl⟩
      · exact .inr lost

/-- What comes after an action gets its outcome, or passes on the fault of the second engine. -/
theorem Accompanies.attempt {a₁ : Expand σ₁ κ α} {a₂ : Expand σ₂ κ α}
    (first : Accompanies Agree Lost strict a₁ a₂) {k₁ : Except Fault α → Expand σ₁ κ β}
    {k₂ : Except Fault α → Expand σ₂ κ β}
    (gives : strict → ∀ fault s, ((k₂ (.error fault)).exec s).1 = .error fault)
    (second : ∀ result, Accompanies Agree Lost strict (k₁ result) (k₂ result)) :
    Accompanies Agree Lost strict (attempt a₁ k₁) (attempt a₂ k₂) where
  sinks s fault lost := (second _).sinks _ fault (first.sinks s fault lost)
  beside s y agree := by
    rw [exec_attempt, exec_attempt]
    rcases first.beside s y agree with ⟨y', agreed, same⟩ | ⟨fault, lost, failed⟩
    · rw [same]
      exact (second _).beside _ y' agreed
    · refine .inr ⟨fault, (second _).sinks _ fault lost, fun must => ?_⟩
      rw [failed must]
      exact gives must fault _

/-! ### Programs -/

variable {plan : Plan κ} {expand₁ : Rule → Option NodeId → Expand σ₁ κ Unit}
  {expand₂ : Rule → Option NodeId → Expand σ₂ κ Unit}

theorem accompanies_expandIn
    (each : ∀ rule parent,
      Accompanies Agree Lost strict (expand₁ rule parent) (expand₂ rule parent))
    (target : Context) :
    Accompanies Agree Lost strict (expandIn plan expand₁ target)
      (expandIn plan expand₂ target) := by
  apply (blind_requireOpen target).accompanies.bind
  intro _
  apply (blind_lift _).accompanies.bind
  intro body
  exact each body _

variable [DecisionSource σ₁]

theorem perform_givesUp {fault : Fault} (program : Program κ (Except Fault α))
    (gives : program.GivesUp fault) (s : Expansion σ₁ κ) :
    ((perform plan expand₁ program).run s).1 = .error fault := by
  induction program generalizing s with
  | done result => exact gives
  | write | expand | ask => exact gives.elim
  | look next ih => exact ih _ (gives _) s
  | store user next ih => exact ih gives { s with user }

variable [DecisionSource σ₂]

theorem accompanies_ask (h : Companions Agree Lost) (q : Question) :
    Accompanies Agree Lost strict (ask q : Expand σ₁ κ _) (ask q : Expand σ₂ κ _) where
  sinks _ _ lost := h.stays q lost
  beside s y agree := by
    rcases h.asked q agree with ⟨same, agreed⟩ | ⟨fault, failed, lost⟩
    · refine .inl ⟨_, agreed, ?_⟩
      rw [exec_ask, exec_ask, ← same]
      rfl
    · exact .inr ⟨fault, lost, fun _ => failed⟩

variable (plan) in
theorem accompanies_serve (h : Companions Agree Lost)
    (each : ∀ rule parent,
      Accompanies Agree Lost strict (expand₁ rule parent) (expand₂ rule parent))
    (program : Program κ (Except Fault Unit)) (propagates : strict → program.Propagates) :
    Accompanies Agree Lost strict (serve plan expand₁ program) (serve plan expand₂ program) := by
  have gives {α : Type} {next : Except Fault α → Program κ (Except Fault Unit)} {rest : Prop}
      (propagates : strict → (∀ fault, (next (.error fault)).GivesUp fault) ∧ rest) (must : strict)
      (fault : Fault) (s : Expansion σ₂ κ) :
      ((serve plan expand₂ (next (.error fault))).exec s).1 = .error fault :=
    perform_givesUp _ ((propagates must).1 fault) s
  induction program with
  | done result => exact Blind.accompanies fun _ => ⟨rfl, fun _ => rfl⟩
  | write target text next ih =>
    rw [serve_write, serve_write]
    exact (accompanies_writeTo plan target text).attempt (gives propagates)
      fun result => ih result fun must => (propagates must).2 result
  | expand target next ih =>
    rw [serve_expand, serve_expand]
    exact (accompanies_expandIn each target).attempt (gives propagates)
      fun result => ih result fun must => (propagates must).2 result
  | ask question next ih =>
    rw [serve_ask, serve_ask]
    exact (accompanies_ask h question).attempt (gives propagates)
      fun result => ih result fun must => (propagates must).2 result
  | look next ih =>
    constructor
    · intro s
      exact (ih ⟨s.tree, s.user⟩ fun must => propagates must _).sinks s
    · intro s y agree
      exact (ih ⟨s.tree, s.user⟩ fun must => propagates must _).beside s y agree
  | store user next ih =>
    constructor
    · intro s
      exact (ih propagates).sinks { s with user }
    · intro s y agree
      exact (ih propagates).beside { s with user } y agree

theorem accompanies_replace (h : Companions Agree Lost)
    (each : ∀ rule parent,
      Accompanies Agree Lost strict (expand₁ rule parent) (expand₂ rule parent))
    (callback : Callback κ) (target : Context)
    (propagates : strict → (callback target).run.Propagates) :
    Accompanies Agree Lost strict (replace plan expand₁ callback target)
      (replace plan expand₂ callback target) := by
  have served := accompanies_serve plan h each (callback target).run propagates
  constructor
  · intro s
    exact served.sinks { s with live := target :: s.live }
  · intro s y agree
    rw [exec_replace, exec_replace]
    rcases served.beside { s with live := target :: s.live } y agree with ⟨y', agreed, same⟩ | lost
    · have same : (serve plan expand₂ (callback target).run).exec
          { s.withSource y with live := target :: (s.withSource y).live } = _ := same
      simp only [same]
      exact .inl ⟨y', agreed, rfl⟩
    · exact .inr lost

/-! ### The engine -/

theorem accompanying (h : Companions Agree Lost) (plan : Plan κ)
    (propagate : strict → plan.replacements.Propagate) :
    Simulation σ₁ σ₂ plan plan (fun _ => True)
      (fun _ a₁ a₂ => Accompanies Agree Lost strict a₁ a₂)
      (fun _ a₁ a₂ => Accompanies Agree Lost strict a₁ a₂) where
  child _ _ := trivial
  body _ _ := trivial
  production_eq _ := rfl
  classOf_eq _ := rfl
  fails _ _ _ := (blind_throw _).accompanies
  asks q next := (accompanies_ask h q).bind next
  meets next := blind_nextSite.accompanies.bind next
  leaf label parent := (blind_leaf plan label parent).accompanies
  opens label parent below := (blind_addNode _).accompanies.bind below
  done _ := (blind_pure ()).accompanies
  next first second := first.bind fun _ => second
  produces {expand₁ expand₂ name body} id _ _ each := by
    have each (rule : Rule) (parent : Option NodeId) :
        Accompanies Agree Lost strict (expand₁ rule parent) (expand₂ rule parent) :=
      each rule parent trivial
    apply Accompanies.within
    unfold produce
    split
    next => exact each body _
    next callback found =>
      apply blind_ownCall.accompanies.bind
      intro call
      exact accompanies_replace h each callback _ fun must =>
        propagate must name callback found ⟨call, id, name⟩

theorem accompanies_expand (h : Companions Agree Lost) (plan : Plan κ)
    (propagate : strict → plan.replacements.Propagate) (fuel : Nat) (rule : Rule)
    (parent : Option NodeId) :
    Accompanies Agree Lost strict (expand plan fuel rule parent : Expand σ₁ κ Unit)
      (expand plan fuel rule parent : Expand σ₂ κ Unit) := by
  induction fuel generalizing rule parent with
  | zero => exact (blind_throw _).accompanies
  | succ fuel ih => exact ((accompanying h plan propagate).everywhere _ _ ih rule parent).nested

end Expand

namespace Generator

variable {σ₁ σ₂ κ : Type} [DecisionSource σ₁] [DecisionSource σ₂] {Agree : σ₁ → σ₂ → Prop}
  {Lost : σ₁ → Fault → Prop}

/-- Runs from sources that agree go alike in everything but the sources, until the first source is
lost. -/
theorem runWithin_beside (h : Companions Agree Lost) (strict : Prop) (g : Generator κ)
    (propagate : strict → g.replacements.Propagate) (call : Call) (start : Option String)
    {x : σ₁} {y : σ₂} (agree : Agree x y) (user : κ) :
    Expand.Beside Agree Lost strict
      ((g.runWithin call start x user).outcome, (g.runWithin call start x user).final)
      ((g.runWithin call start y user).outcome, (g.runWithin call start y user).final) := by
  cases found : g.startOf start with
  | error fault =>
    simp only [runWithin, found]
    exact .inl ⟨y, agree, rfl⟩
  | ok name =>
    rw [g.runWithin_eq_settle found, g.runWithin_eq_settle found]
    have accompanied :=
      Expand.accompanies_expand h g.plan propagate call.ceiling (.nonTerminal name) none
    have beside := accompanied.beside (call.begin x user) y agree
    have beside : Expand.Beside Agree Lost strict
        ((Expand.expand g.plan call.ceiling (.nonTerminal name) none).exec (call.begin x user))
        ((Expand.expand g.plan call.ceiling (.nonTerminal name) none).exec (call.begin y user)) :=
      beside
    revert beside
    generalize (Expand.expand g.plan call.ceiling (.nonTerminal name) none).exec
      (call.begin x user) = ended₁
    generalize (Expand.expand g.plan call.ceiling (.nonTerminal name) none).exec
      (call.begin y user) = ended₂
    rintro (⟨y', agreed, rfl⟩ | ⟨fault, lost, failed⟩)
    · obtain ⟨outcome, last⟩ := ended₁
      refine .inl ⟨y', ?_⟩
      cases outcome with
      | ok _ => exact ⟨agreed, rfl⟩
      | error fault => exact ⟨agreed, rfl⟩
    · refine .inr ⟨fault, ?_, fun must => ?_⟩
      · obtain ⟨frozen, left⟩ := settle_left name ended₁
        rw [left]
        exact lost
      · rw [settle_of_error (failed must) (h.ordinary lost)]

end Generator

/-- What no question changes about a source holds at the end of every run. -/
theorem Generator.source_runWithin {σ κ : Type} [DecisionSource σ] {P : σ → Prop}
    (kept : ∀ q x, P x → P (DecisionSource.ask q x).2) (g : Generator κ) (call : Call)
    (start : Option String) {source : σ} (holds : P source) (user : κ) :
    P (g.runWithin call start source user).final.source := by
  have guarantee : Expand.Guarantee (σ := σ) g.plan fun s _ t => P s.source → P t.source :=
    { refl := fun _ _ holds => holds
      trans := fun first second holds => second (first holds)
      adds := fun _ _ _ holds => holds
      appends := fun _ _ holds => holds
      asks := fun s _ q holds => kept q s.source holds
      meets := fun _ holds => holds
      deepens := fun inside => inside
      enters := fun _ inside => inside
      opens := fun _ inside => inside }
  have serves := guarantee.servesAll (fun _ _ holds => holds) fun resumed => resumed
  cases found : g.startOf start with
  | error fault =>
    simp only [runWithin, found]
    exact holds
  | ok name =>
    have meets := guarantee.expand serves call.ceiling (.nonTerminal name) none
      (call.begin source user) holds
    have final_eq : (g.runWithin call start source user).final = (settle name _).2 :=
      congrArg Prod.snd (g.runWithin_eq_settle found call source user)
    obtain ⟨frozen, left⟩ := settle_left name
      ((Expand.expand g.plan call.ceiling (.nonTerminal name) none).exec (call.begin source user))
    rw [final_eq, left]
    exact meets

/-- A source that keeps what it was asked and what it answered. -/
structure Transcript (σ : Type) where
  inner : σ
  log : List (Question × Except Fault Datum) := []

namespace Transcript

variable {σ : Type} [DecisionSource σ]

instance : DecisionSource (Transcript σ) where
  name t := DecisionSource.name t.inner
  shown t := DecisionSource.shown t.inner
  ask q t :=
    let (answer, inner) := DecisionSource.ask q t.inner
    (answer, { inner, log := t.log ++ [(q, answer)] })

theorem ask_eq (q : Question) (t : Transcript σ) :
    DecisionSource.ask q t =
      ((DecisionSource.ask q t.inner).1,
        { inner := (DecisionSource.ask q t.inner).2
          log := t.log ++ [(q, (DecisionSource.ask q t.inner).1)] }) := rfl

theorem companions :
    Companions (fun (t : Transcript σ) (x : σ) => x = t.inner) fun _ _ => False :=
  .of_inner fun _ _ => rfl

end Transcript

/-- Keeping a transcript changes nothing else. -/
theorem Generator.runWithin_transcript {σ κ : Type} [DecisionSource σ] (g : Generator κ)
    (call : Call) (start : Option String) (source : σ) (user : κ) :
    let told := g.runWithin call start ({ inner := source } : Transcript σ) user
    (g.runWithin call start source user).outcome = told.outcome ∧
      (g.runWithin call start source user).final =
        told.final.withSource told.final.source.inner := by
  intro told
  have agree : source = ({ inner := source } : Transcript σ).inner := rfl
  have beside := g.runWithin_beside Transcript.companions False False.elim call start agree user
  rcases beside with ⟨_, rfl, same⟩ | ⟨_, lost, _⟩
  · exact Prod.mk.inj same
  · exact lost.elim

end SentenceGen
