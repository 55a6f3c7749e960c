import SentenceGen.Proofs.Companions

/-!
# Sources with something beside them

A source may carry more than the engine asks it for, such as notes about the run.  An engine that
also writes such notes goes, but for them, like the one that knows nothing of them.
-/

namespace SentenceGen

variable {τ σ κ α β : Type} {inner : τ → σ}

namespace Expand

/-- Keeps a context open during an action. -/
def during (target : Context) (action : Expand σ κ Unit) : Expand σ κ Unit := do
  modify fun s => { s with live := target :: s.live }
  leaving (fun s => { s with live := s.live.erase target }) action

theorem exec_during (target : Context) (action : Expand σ κ Unit) (s : Expansion σ κ) :
    (during target action).exec s =
      let (outcome, t) := action.exec { s with live := target :: s.live }
      (outcome, { t with live := t.live.erase target }) := rfl

/-- The second action is the first one without what its source carries beside the inner one. -/
abbrev Projects (inner : τ → σ) (a₁ : Expand τ κ α) (a₂ : Expand σ κ α) : Prop :=
  Accompanies (fun x y => y = inner x) (fun _ _ => False) False a₁ a₂

namespace Projects

variable {a₁ : Expand τ κ α} {a₂ : Expand σ κ α}

theorem exec_eq (h : Projects inner a₁ a₂) (s : Expansion τ κ) :
    a₂.exec (s.withSource (inner s.source)) =
      ((a₁.exec s).1, (a₁.exec s).2.withSource (inner (a₁.exec s).2.source)) := by
  rcases h.beside s _ rfl with ⟨_, rfl, same⟩ | ⟨_, lost, _⟩
  · exact same
  · exact lost.elim

theorem of_exec_eq (same : ∀ s, a₂.exec (s.withSource (inner s.source)) =
      ((a₁.exec s).1, (a₁.exec s).2.withSource (inner (a₁.exec s).2.source))) :
    Projects inner a₁ a₂ where
  sinks _ _ lost := lost.elim
  beside s y agree := by
    subst agree
    exact .inl ⟨_, rfl, same s⟩

theorem attempt (first : Projects inner a₁ a₂) {k₁ : Except Fault α → Expand τ κ β}
    {k₂ : Except Fault α → Expand σ κ β}
    (second : ∀ result, Projects inner (k₁ result) (k₂ result)) :
    Projects inner (attempt a₁ k₁) (attempt a₂ k₂) :=
  Accompanies.attempt first (fun must => must.elim) second

/-- A change beside the inner source makes no difference. -/
theorem after {change : Expansion τ κ → Expansion τ κ}
    (beside : ∀ s, (change s).withSource (inner (change s).source) =
      s.withSource (inner s.source)) (h : Projects inner a₁ a₂) :
    Projects inner (modify change >>= fun _ => a₁) a₂ :=
  of_exec_eq fun s => by
    rw [← beside]
    exact h.exec_eq (change s)

theorem reading {k₁ : Expansion τ κ → Expand τ κ α} (each : ∀ s, Projects inner (k₁ s) a₂) :
    Projects inner (get >>= k₁) a₂ :=
  of_exec_eq fun s => (each s).exec_eq s

theorem look {k₁ : View κ → Expand τ κ α} {k₂ : View κ → Expand σ κ α}
    (each : ∀ view, Projects inner (k₁ view) (k₂ view)) :
    Projects inner (get >>= fun s => k₁ ⟨s.tree, s.user⟩)
      (get >>= fun s => k₂ ⟨s.tree, s.user⟩) :=
  of_exec_eq fun s => (each ⟨s.tree, s.user⟩).exec_eq s

theorem store (h : Projects inner a₁ a₂) (user : κ) :
    Projects inner (modify (fun s => { s with user }) >>= fun _ => a₁)
      (modify (fun s => { s with user }) >>= fun _ => a₂) :=
  of_exec_eq fun s => h.exec_eq { s with user }

theorem during {a₁ : Expand τ κ Unit} {a₂ : Expand σ κ Unit} (h : Projects inner a₁ a₂)
    (target : Context) : Projects inner (during target a₁) (during target a₂) :=
  of_exec_eq fun s => by
    have same : a₂.exec { s.withSource (inner s.source) with
      live := target :: (s.withSource (inner s.source)).live } = _ :=
        h.exec_eq { s with live := target :: s.live }
    rw [exec_during, exec_during, same]
    rfl

end Projects

end Expand

namespace Generator

theorem settle_withSource (start : String) (ended : Except Fault Unit × Expansion σ κ)
    (source : τ) : settle start (ended.1, ended.2.withSource source) =
      ((settle start ended).1, (settle start ended).2.withSource source) := by
  obtain ⟨outcome, last⟩ := ended
  cases outcome with
  | ok _ => rfl
  | error fault => rfl

theorem settle_source (start : String) (ended : Except Fault Unit × Expansion σ κ) :
    (settle start ended).2.source = ended.2.source := by
  obtain ⟨frozen, left⟩ := settle_left start ended
  rw [left]

/-- A run of an engine that writes beside the source is, but for that, the run itself. -/
theorem runWithin_projects [DecisionSource σ] (g : Generator κ) {call : Call}
    {start : Option String} {name : String} (found : g.startOf start = .ok name)
    {engine : Expand τ κ Unit}
    (projects :
      Expand.Projects inner engine (Expand.expand g.plan call.ceiling (.nonTerminal name) none))
    (source : τ) (user : κ) :
    let r := g.runWithin call start (inner source) user
    let ended := settle name (engine.exec (call.begin source user))
    r.outcome = ended.1 ∧ r.final = ended.2.withSource (inner ended.2.source) := by
  intro r ended
  have ran : (Expand.expand g.plan call.ceiling (.nonTerminal name) none).exec
      (call.begin (inner source) user) = _ := projects.exec_eq (call.begin source user)
  apply Prod.mk.inj
  rw [g.runWithin_eq_settle found, ran, settle_withSource, ← settle_source name]

end Generator

end SentenceGen
