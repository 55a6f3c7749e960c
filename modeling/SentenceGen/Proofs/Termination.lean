import SentenceGen.Proofs.Levels

/-!
# The depth cutoff ends every run

A cutoff on the depth bounds the nesting of calls, so the fuel of the expansion never counts once
there is more of it than the cutoff admits: whatever the grammar, the source and the callbacks, the
run makes finitely many calls and comes to an end of its own.
-/

namespace SentenceGen

namespace Expand

variable {σ κ α β : Type}

/-- At a given depth the actions do the same, and come back to that depth. -/
def AgreeAt (depth : Nat) (a₁ a₂ : Expand (Observed σ) (κ × List NodeId) α) : Prop :=
  ∀ s, s.depth = depth → a₁.exec s = a₂.exec s ∧ (a₁.exec s).2.depth = depth

variable {depth : Nat} {a₁ a₂ : Expand (Observed σ) (κ × List NodeId) α}

theorem agreeAt_self {action : Expand (Observed σ) (κ × List NodeId) α}
    (passed : Meets (fun s _ t => Passed s t) action) : AgreeAt depth action action :=
  fun s here => ⟨rfl, (passed s).depth_eq.trans here⟩

theorem AgreeAt.bind {k₁ k₂ : α → Expand (Observed σ) (κ × List NodeId) β}
    (first : AgreeAt depth a₁ a₂) (second : ∀ a, AgreeAt depth (k₁ a) (k₂ a)) :
    AgreeAt depth (a₁ >>= k₁) (a₂ >>= k₂) := by
  intro s here
  obtain ⟨same, back⟩ := first s here
  rcases ran : a₁.exec s with ⟨fault | a, t⟩
  · have ranToo : a₂.exec s = (.error fault, t) := same.symm.trans ran
    rw [exec_bind_of_error ran, exec_bind_of_error ranToo]
    rw [ran] at back
    exact ⟨rfl, back⟩
  · have ranToo : a₂.exec s = (.ok a, t) := same.symm.trans ran
    rw [exec_bind_of_ok ran, exec_bind_of_ok ranToo]
    rw [ran] at back
    exact second a t back

theorem AgreeAt.within {a₁ a₂ : Expand (Observed σ) (κ × List NodeId) Unit}
    (inside : AgreeAt depth a₁ a₂) (name : String) :
    AgreeAt depth (within name a₁) (within name a₂) := by
  intro s here
  obtain ⟨same, back⟩ := inside { s with productions := name :: s.productions } here
  rw [exec_within, exec_within, same]
  exact ⟨rfl, same ▸ back⟩

variable [DecisionSource σ] {plan : Plan κ}
  {expand₁ expand₂ : Rule → Option NodeId → Expand (Observed σ) (κ × List NodeId) Unit}

variable (plan) in
theorem agreeAt_expandIn
    (each : ∀ rule parent, AgreeAt depth (expand₁ rule parent) (expand₂ rule parent))
    (target : Context) :
    AgreeAt depth (expandIn plan.observed expand₁ target)
      (expandIn plan.observed expand₂ target) := by
  apply (agreeAt_self ((passes plan).requireOpen target)).bind
  intro _
  apply (agreeAt_self ((passes plan).lift _)).bind
  intro body
  exact each body _

variable (plan) in
theorem agreeAt_perform
    (each : ∀ rule parent, AgreeAt depth (expand₁ rule parent) (expand₂ rule parent))
    (program : Program κ α) (s : Expansion (Observed σ) (κ × List NodeId))
    (here : s.depth = depth) :
    (perform plan.observed expand₁ program.observed).run s =
        (perform plan.observed expand₂ program.observed).run s ∧
      ((perform plan.observed expand₁ program.observed).run s).2.depth = depth := by
  induction program generalizing s with
  | done result => exact ⟨rfl, here⟩
  | write target text next ih =>
    rw [run_perform_observed_write, run_perform_observed_write]
    have wrote := (passes plan).writeTo target text s
    exact ih _ (marking s _) (wrote.depth_eq.trans here)
  | expand target next ih =>
    obtain ⟨same, back⟩ := agreeAt_expandIn plan each target s here
    simp only [Program.observed, run_perform_expand, ← same]
    exact ih _ _ back
  | ask question next ih =>
    have asked := (passes plan).ask question s
    exact ih _ _ (asked.depth_eq.trans here)
  | look next ih => exact ih _ s here
  | store user next ih => exact ih { s with user := (user, s.user.2) } here

theorem agreeAt_replace
    (each : ∀ rule parent, AgreeAt depth (expand₁ rule parent) (expand₂ rule parent))
    (callback : Callback κ) (target : Context) :
    AgreeAt depth (replace plan.observed expand₁ callback.observed target)
      (replace plan.observed expand₂ callback.observed target) := by
  intro s here
  obtain ⟨same, back⟩ := agreeAt_perform plan each (callback target).run
    { s with live := target :: s.live } here
  have same : (serve plan.observed expand₁ (callback.observed target).run).exec
      { s with live := target :: s.live } = _ := same
  rw [exec_replace, exec_replace, same]
  exact ⟨rfl, by rw [← same]; exact back⟩

/-- Agreement at one depth passes from calls to rules. -/
theorem agreement (plan : Plan κ) (depth : Nat) :
    Simulation (Observed σ) (Observed σ) plan.observed plan.observed (fun _ => True)
      (fun _ a₁ a₂ => AgreeAt depth a₁ a₂) (fun _ a₁ a₂ => AgreeAt depth a₁ a₂) where
  child _ _ := trivial
  body _ _ := trivial
  production_eq _ := rfl
  classOf_eq _ := rfl
  fails _ _ _ := agreeAt_self ((passes plan).throw _)
  asks q next := (agreeAt_self ((passes plan).ask q)).bind next
  meets next := (agreeAt_self (passes plan).nextSite).bind next
  leaf label parent := agreeAt_self ((passes plan).leaf label parent)
  opens label parent below := (agreeAt_self ((passes plan).addNode _)).bind below
  done _ := agreeAt_self ((passes plan).pure ())
  next first second := first.bind fun _ => second
  produces {expand₁ expand₂ name body} id _ _ each := by
    have each (rule : Rule) (parent : Option NodeId) :
        AgreeAt depth (expand₁ rule parent) (expand₂ rule parent) := each rule parent trivial
    apply AgreeAt.within
    unfold produce
    split
    next => exact each body _
    next callback found =>
      obtain ⟨original, _, rfl⟩ := observed_callback found
      exact fun s => agreeAt_replace each original ⟨s.call, id, name⟩ s

variable (plan) in
/-- Below the cutoff two expansions with fuel enough agree, whatever they do without fuel. -/
theorem agreeAt_traced {bound : Nat} (limited : ∀ n, Admitted plan n → n ≤ bound)
    (beyond₁ beyond₂ : Expand (Observed σ) (κ × List NodeId) Unit) {fuel₁ fuel₂ depth : Nat}
    (within : depth ≤ bound) (enough₁ : bound < depth + fuel₁) (enough₂ : bound < depth + fuel₂)
    (rule : Rule) (parent : Option NodeId) :
    AgreeAt depth (traced beyond₁ plan.observed fuel₁ rule parent)
      (traced beyond₂ plan.observed fuel₂ rule parent) := by
  induction fuel₁ generalizing fuel₂ depth rule parent with
  | zero => omega
  | succ fuel₁ ih =>
    obtain ⟨fuel₂, rfl⟩ : ∃ fuel, fuel₂ = fuel + 1 := ⟨fuel₂ - 1, by omega⟩
    intro s here
    rw [exec_traced_succ, exec_traced_succ, exec_nested, exec_nested]
    cases entered : levelOutcome plan.observed (s.depth + 1) s.productions with
    | error fault =>
      exact ⟨rfl, here⟩
    | ok _ =>
      have admitted : Admitted plan (s.depth + 1) := levelOutcome_eq_ok.mp entered
      have deeper := limited _ admitted
      have inside (rule : Rule) (parent : Option NodeId) :
          AgreeAt (depth + 1) (traced beyond₁ plan.observed fuel₁ rule parent)
            (traced beyond₂ plan.observed fuel₂ rule parent) :=
        ih (by omega) (by omega) (by omega) rule parent
      obtain ⟨same, back⟩ := (agreement plan (depth + 1)).everywhere _ _ inside rule parent
        { s with
          depth := s.depth + 1, source := { s.source with calls := s.source.calls ++ [rule] } }
        (congrArg (· + 1) here)
      simp only [same]
      refine ⟨trivial, ?_⟩
      simp only [← same, back, Nat.add_sub_cancel]

/-- Depth and productions after a call, completed or not, are what they were before it. -/
theorem expand_restores (plan : Plan κ) (fuel : Nat) (rule : Rule) (parent : Option NodeId)
    (s : Expansion σ κ) :
    ((expand plan fuel rule parent).exec s).2.depth = s.depth ∧
      ((expand plan fuel rule parent).exec s).2.productions = s.productions := by
  let start : Expansion (Observed σ) (κ × List NodeId) :=
    { s with source := { inner := s.source }, user := (s.user, []) }
  have passed := passed_traced plan ((passes plan).throw .nestingExhausted) fuel rule
    parent start
  have same : (expand plan fuel rule parent).exec s = _ :=
    forgets_traced plan fuel rule parent start
  rw [same]
  exact ⟨passed.depth_eq, passed.productions_eq⟩

end Expand

namespace Generator

open Expand

variable {σ κ : Type} [DecisionSource σ]

theorem admitted_iff (g : Generator κ) {bound : Nat}
    (limited : g.config.limits.maxDepth = .int bound) (n : Nat) :
    Admitted g.plan n ↔ n ≤ bound := by
  have cutoff : g.plan.maxDepth = some ⟨.int bound, bound⟩ := by
    rw [plan, limited, Cutoff.ofDatum?_int]
  simp [Admitted, cutoff, Cutoff.admits]

/-- With a cutoff on the depth, a run needs no more fuel than the cutoff admits. -/
theorem observe_eq (g : Generator κ) {bound : Nat}
    (limited : g.config.limits.maxDepth = .int bound)
    (beyond₁ beyond₂ : Expand (Observed σ) (κ × List NodeId) Unit) {call₁ call₂ : Call}
    (same : call₁.serial = call₂.serial) (enough₁ : bound < call₁.ceiling)
    (enough₂ : bound < call₂.ceiling) (start : Option String) (source : σ) (user : κ) :
    g.observe beyond₁ call₁ start source user = g.observe beyond₂ call₂ start source user := by
  have begun : observedStart call₁ source user = observedStart call₂ source user :=
    congrArg (fun serial => ({ call := serial, source := { inner := source }, user := (user, []) } :
      Expansion (Observed σ) (κ × List NodeId))) same
  unfold observe
  rw [begun]
  cases g.startOf start with
  | error fault => rfl
  | ok start =>
    have agree : AgreeAt 0 (traced beyond₁ g.plan.observed call₁.ceiling (.nonTerminal start) none)
        (traced beyond₂ g.plan.observed call₂.ceiling (.nonTerminal start) none) :=
      agreeAt_traced g.plan (fun n => (g.admitted_iff limited n).mp) beyond₁ beyond₂
        (Nat.zero_le bound) (by omega) (by omega) (.nonTerminal start) none
    simp only [(agree (observedStart call₂ source user) rfl).1]

/-- A cutoff on the depth makes every run end: once there is more fuel than the cutoff admits, the
run makes the same finitely many calls and comes to the same end whatever the fuel is and whatever
would happen without it.  No node lies deeper than the cutoff unless a callback wrote it, and every
call leaves depth and productions as they were, also if it fails. -/
theorem run_ends (g : Generator κ) {bound : Nat} (limited : g.config.limits.maxDepth = .int bound)
    (start : Option String) (source : σ) (user : κ) :
    (∀ serial, ∃ outcome last, ∀ ceiling > bound,
      (∀ beyond, g.observe beyond { ceiling, serial } start source user = (outcome, last)) ∧
        (g.runWithin { ceiling, serial } start source user).outcome = outcome ∧
        (g.runWithin { ceiling, serial } start source user).final = last.forget) ∧
    (∀ call, ∃ last : Expansion (Observed σ) (κ × List NodeId),
      g.observe (throw .nestingExhausted) call start source user =
          ((g.runWithin call start source user).outcome, last) ∧
        (g.runWithin call start source user).final = last.forget ∧
        ∀ id < last.tree.size, ∃ n, last.tree.Level id n ∧ (id ∈ last.user.2 ∨ n ≤ bound)) ∧
    ∀ fuel rule parent (s : Expansion σ κ),
      let t := ((expand g.plan fuel rule parent).exec s).2
      t.depth = s.depth ∧ t.productions = s.productions := by
  refine ⟨?_, ?_, expand_restores g.plan⟩
  · intro serial
    rcases ended : g.observe (throw .nestingExhausted) { ceiling := bound + 1, serial } start source
      user with ⟨outcome, last⟩
    refine ⟨outcome, last, fun ceiling enough => ?_⟩
    have same (beyond : Expand (Observed σ) (κ × List NodeId) Unit) :
        g.observe beyond { ceiling, serial } start source user = (outcome, last) := by
      rw [← ended]
      apply g.observe_eq limited
      · rfl
      · exact enough
      · exact Nat.lt_succ_self bound
    obtain ⟨outcome_eq, final_eq⟩ := g.runWithin_observe { ceiling, serial } start source user
    rw [same] at outcome_eq final_eq
    exact ⟨same, outcome_eq, final_eq⟩
  · intro call
    obtain ⟨outcome_eq, final_eq⟩ := g.runWithin_observe call start source user
    refine ⟨_, Prod.ext outcome_eq.symm rfl, final_eq, fun id present => ?_⟩
    obtain ⟨n, level, admitted⟩ := g.levelled_observe call start source user id present
    exact ⟨n, level, admitted.imp_right (g.admitted_iff limited n).mp⟩

/-- Two productions that only lead to each other, and a callback that catches what goes wrong. -/
def endless : Generator Unit where
  grammar :=
    { name := "a", start := "a", registry := ⟨[], false⟩
      productions := [("a", .sequence [.nonTerminal "b", .literal "x"]), ("b", .nonTerminal "a")] }
  replacements.default := some fun own => do
    try Action.expandDefault own
    catch _ => Action.write own (.str "!")
  config := { limits := { maxDepth := .int 5 } }
  classes := []

theorem endless_run_ends :
    endless.config.limits.maxDepth = .int 5 ∧ ∀ ceiling > 5,
      (endless.runWithin (.first ceiling) none ({} : Script) ()).outcome = .ok () ∧
      (endless.runWithin (.first ceiling) none ({} : Script) ()).final.text = "!x" := by
  have limited : endless.config.limits.maxDepth = .int (5 : Nat) := rfl
  refine ⟨limited, fun ceiling enough => ?_⟩
  obtain ⟨ends, _⟩ := endless.run_ends limited none ({} : Script) ()
  obtain ⟨outcome, last, ends⟩ := ends 0
  obtain ⟨_, outcome_eq, final_eq⟩ := ends 6 (by decide)
  obtain ⟨_, outcome_eq', final_eq'⟩ := ends ceiling enough
  rw [Call.first, outcome_eq', final_eq', ← outcome_eq, ← final_eq]
  exact ⟨Run.completed (by decide +kernel), by decide +kernel⟩

end Generator

end SentenceGen
