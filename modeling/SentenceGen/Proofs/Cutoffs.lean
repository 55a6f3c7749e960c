import SentenceGen.Proofs.Levels
import SentenceGen.Proofs.OutputLimit

/-!
# Runs with and without cutoffs

Cutoffs only ever stop a run.  Where no callback catches a fault, a run with cutoffs does what the
run without them does, until it ends in the fault of a cutoff; whatever it asked until then, the
other run asks too.
-/

namespace SentenceGen

namespace Program

variable {κ α : Type}

/-- The program ends in the fault, and makes no request before it does. -/
def GivesUp (fault : Fault) : Program κ (Except Fault α) → Prop
  | .done result => result = .error fault
  | .write .. | .expand .. | .ask .. => False
  | .look next => ∀ view, (next view).GivesUp fault
  | .store _ next => next.GivesUp fault

/-- The program catches no fault: once a request has failed it gives up with that fault. -/
def Propagates : Program κ (Except Fault α) → Prop
  | .done _ => True
  | .write _ _ next | .expand _ next =>
    (∀ fault, (next (.error fault)).GivesUp fault) ∧ ∀ result, (next result).Propagates
  | .ask _ next =>
    (∀ fault, (next (.error fault)).GivesUp fault) ∧ ∀ answer, (next answer).Propagates
  | .look next => ∀ view, (next view).Propagates
  | .store _ next => next.Propagates

end Program

/-- No callback catches a fault; every one passes it on as it is. -/
def Replacements.Propagate {κ : Type} (r : Replacements (Callback κ)) : Prop :=
  ∀ name callback, r.find? name = some callback → ∀ target, (callback target).run.Propagates

namespace Plan

variable {κ : Type}

def unlimited (plan : Plan κ) : Plan κ := { plan with maxDepth := none, maxSize := none }

/-- The fault is that of a cutoff. -/
def Cuts (plan : Plan κ) (fault : Fault) : Prop :=
  (∃ cutoff ∈ plan.maxDepth, ∃ production, fault = .tooDeep cutoff.given production) ∨
    ∃ cutoff ∈ plan.maxSize, ∃ size, fault = .tooLarge cutoff.given size

end Plan

namespace Expand

variable {σ κ α β : Type} {plan : Plan κ}

theorem cuts_of_levelOutcome {depth : Nat} {productions : List String} {fault : Fault}
    (crossed : levelOutcome plan depth productions = .error fault) : plan.Cuts fault := by
  unfold levelOutcome at crossed
  split at crossed
  next cutoff given =>
    split at crossed
    · cases crossed
    · cases crossed
      exact .inl ⟨cutoff, given, _, rfl⟩
  next => cases crossed

theorem cuts_of_appendOutcome {size : Nat} {fault : Fault}
    (crossed : appendOutcome plan size = .error fault) : plan.Cuts fault := by
  obtain ⟨cutoff, given, rfl⟩ := tooLarge_of_appendOutcome crossed
  exact .inr ⟨cutoff, given, _, rfl⟩

variable [DecisionSource σ]
  {expandOne : Rule → Option NodeId → Expand (Observed σ) (κ × List NodeId) Unit}

variable (plan expandOne) in
theorem run_perform_givesUp {fault : Fault} (program : Program κ (Except Fault α))
    (gives : program.GivesUp fault) (s : Expansion (Observed σ) (κ × List NodeId)) :
    ((perform plan.observed expandOne program.observed).run s).1 = .error fault ∧
      ((perform plan.observed expandOne program.observed).run s).2.source = s.source := by
  induction program generalizing s with
  | done result => exact ⟨gives, rfl⟩
  | write | expand | ask => exact gives.elim
  | look next ih => exact ih _ (gives _) s
  | store user next ih => exact ih gives { s with user := (user, s.user.2) }

variable (plan expandOne) in
theorem run_perform_ne_ok {fault : Fault} (program : Program κ (Except Fault α))
    (gives : program.GivesUp fault) (s : Expansion (Observed σ) (κ × List NodeId)) {a : α}
    {t : Expansion (Observed σ) (κ × List NodeId)} :
    (perform plan.observed expandOne program.observed).run s ≠ (.ok a, t) := by
  intro done
  have failed := (run_perform_givesUp plan expandOne program gives s).1
  rw [done] at failed
  cases failed

/-! ### The limited engine beside the free one -/

/-- The limited action ended in a cutoff, and what it asked the free one asked too. -/
def Stopped (plan : Plan κ)
    (free limited : Except Fault α × Expansion (Observed σ) (κ × List NodeId)) : Prop :=
  ∃ fault, limited.1 = .error fault ∧ plan.Cuts fault ∧
    limited.2.source.questions <+: free.2.source.questions

/-- The limited action does what the free one does, unless a cutoff stops it. -/
structure Follows (plan : Plan κ) (free limited : Expand (Observed σ) (κ × List NodeId) α) :
    Prop where
  passed : Meets (fun s _ t => Passed s t) free
  same : ∀ s, limited.exec s = free.exec s ∨ Stopped plan (free.exec s) (limited.exec s)

omit [DecisionSource σ] in
theorem follows_self {action : Expand (Observed σ) (κ × List NodeId) α}
    (passed : Meets (fun s _ t => Passed s t) action) : Follows plan action action where
  passed := passed
  same _ := .inl rfl

theorem Follows.bind {free limited : Expand (Observed σ) (κ × List NodeId) α}
    {next₁ next₂ : α → Expand (Observed σ) (κ × List NodeId) β}
    (first : Follows plan free limited) (second : ∀ a, Follows plan (next₁ a) (next₂ a)) :
    Follows plan (free >>= next₁) (limited >>= next₂) where
  passed := (passes plan).bind first.passed fun a => (second a).passed
  same s := by
    rcases first.same s with same | ⟨fault, failed, cuts, asked⟩
    · rcases ran : free.exec s with ⟨fault | a, t⟩
      · rw [exec_bind_of_error ran, exec_bind_of_error (same.trans ran)]
        exact .inl rfl
      · rw [exec_bind_of_ok ran, exec_bind_of_ok (same.trans ran)]
        exact (second a).same t
    · -- The free action may go on, and then asks more.
      have more : (free.exec s).2.source.questions <+:
          ((free >>= next₁).exec s).2.source.questions := by
        rcases ran : free.exec s with ⟨fault | a, t⟩
        · simp only [exec_bind_of_error ran, List.prefix_rfl]
        · rw [exec_bind_of_ok ran]
          exact ((second a).passed t).asked
      have stopped : limited.exec s = (.error fault, (limited.exec s).2) := Prod.ext failed rfl
      rw [exec_bind_of_error stopped]
      exact .inr ⟨fault, rfl, cuts, asked.trans more⟩

theorem follows_leaf (label : Label) (parent : Option NodeId) :
    Follows (σ := σ) plan (leaf plan.unlimited.observed label parent)
      (leaf plan.observed label parent) where
  passed := (passes plan.unlimited).leaf label parent
  same s := by
    rw [exec_leaf, exec_leaf]
    rcases s.tree.add (label.under parent) with ⟨fault | id, tree⟩
    · exact .inl rfl
    · by_cases empty : label.text = ""
      · simp only [if_pos empty]
        exact .inl trivial
      · simp only [if_neg empty]
        cases appended : appendOutcome plan.observed (s.size + label.text.length) with
        | ok _ => exact .inl rfl
        | error fault =>
          exact .inr ⟨fault, rfl, cuts_of_appendOutcome appended, List.prefix_rfl⟩

theorem follows_writeTo (target : Context) (text : Datum) :
    Follows (σ := σ) plan (writeTo plan.unlimited.observed target text)
      (writeTo plan.observed target text) := by
  apply (follows_self ((passes plan).requireOpen target)).bind
  intro _
  cases text with
  | str text => exact follows_leaf { kind := .literal, text } _
  | _ => exact follows_self ((passes plan).throw _)

theorem Follows.within {free limited : Expand (Observed σ) (κ × List NodeId) Unit}
    (inside : Follows plan free limited) (name : String) :
    Follows plan (within name free) (within name limited) where
  passed := (passes plan).within inside.passed name
  same s := by
    rw [exec_within, exec_within]
    rcases inside.same { s with productions := name :: s.productions } with same | stopped
    · rw [same]
      exact .inl rfl
    · exact .inr stopped

theorem Follows.nested {free limited : Expand (Observed σ) (κ × List NodeId) Unit}
    (inside : Follows plan free limited) :
    Follows plan (nested plan.unlimited.observed free) (nested plan.observed limited) where
  passed := (passes plan.unlimited).nested inside.passed
  same s := by
    have passed := (passes plan.unlimited).nested inside.passed s
    rw [exec_nested] at passed
    rw [exec_nested, exec_nested]
    cases entered : levelOutcome plan.observed (s.depth + 1) s.productions with
    | error fault => exact .inr ⟨fault, rfl, cuts_of_levelOutcome entered, passed.asked⟩
    | ok _ =>
      rcases inside.same { s with depth := s.depth + 1 } with same | stopped
      · rw [same]
        exact .inl rfl
      · exact .inr stopped

variable {free limited : Rule → Option NodeId → Expand (Observed σ) (κ × List NodeId) Unit}

theorem follows_expandIn
    (each : ∀ rule parent, Follows plan (free rule parent) (limited rule parent))
    (target : Context) :
    Follows plan (expandIn plan.unlimited.observed free target)
      (expandIn plan.observed limited target) := by
  apply (follows_self ((passes plan).requireOpen target)).bind
  intro _
  apply (follows_self ((passes plan).lift _)).bind
  intro body
  exact each body _

/-- A program gives up when a cutoff stops its request, and so it is stopped itself. -/
theorem stopped_perform {start₁ start₂ : Expansion (Observed σ) (κ × List NodeId)} {fault : Fault}
    {program₁ program₂ : Program κ (Except Fault α)}
    (each : ∀ rule parent, Meets (fun s _ t => Passed s t) (free rule parent))
    (gives : program₂.GivesUp fault) (cuts : plan.Cuts fault)
    (asked : start₂.source.questions <+: start₁.source.questions) :
    Stopped plan ((perform plan.unlimited.observed free program₁.observed).run start₁)
      ((perform plan.observed limited program₂.observed).run start₂) := by
  obtain ⟨failed, source_eq⟩ := run_perform_givesUp plan limited program₂ gives start₂
  have more := passed_perform plan.unlimited each program₁ start₁
  refine ⟨fault, failed, cuts, ?_⟩
  rw [source_eq]
  exact asked.trans more.asked

theorem follows_perform
    (each : ∀ rule parent, Follows plan (free rule parent) (limited rule parent))
    (program : Program κ (Except Fault α)) (propagates : program.Propagates)
    (s : Expansion (Observed σ) (κ × List NodeId)) :
    (perform plan.observed limited program.observed).run s =
        (perform plan.unlimited.observed free program.observed).run s ∨
      Stopped plan ((perform plan.unlimited.observed free program.observed).run s)
        ((perform plan.observed limited program.observed).run s) := by
  have passed (rule : Rule) (parent : Option NodeId) := (each rule parent).passed
  induction program generalizing s with
  | done result => exact .inl rfl
  | write target text next ih =>
    rw [run_perform_observed_write, run_perform_observed_write]
    rcases (follows_writeTo target text).same s with same | ⟨fault, failed, cuts, asked⟩
    · rw [same]
      exact ih _ (propagates.2 _) _
    · rw [failed]
      exact .inr (stopped_perform passed (propagates.1 fault) cuts asked)
  | expand target next ih =>
    simp only [Program.observed, run_perform_expand]
    rcases (follows_expandIn each target).same s with same | ⟨fault, failed, cuts, asked⟩
    · rw [same]
      exact ih _ (propagates.2 _) _
    · rw [failed]
      exact .inr (stopped_perform passed (propagates.1 fault) cuts asked)
  | ask question next ih => exact ih _ (propagates.2 _) _
  | look next ih => exact ih _ (propagates _) s
  | store user next ih => exact ih propagates { s with user := (user, s.user.2) }

theorem follows_replace
    (each : ∀ rule parent, Follows plan (free rule parent) (limited rule parent))
    (callback : Callback κ) (target : Context) (propagates : (callback target).run.Propagates) :
    Follows plan (replace plan.unlimited.observed free callback.observed target)
      (replace plan.observed limited callback.observed target) where
  passed := passed_replace plan.unlimited (fun rule parent => (each rule parent).passed) callback
    target
  same s := by
    rw [exec_replace, exec_replace]
    have performed := follows_perform each (callback target).run propagates
      { s with live := target :: s.live }
    have performed : (serve plan.observed limited (callback.observed target).run).exec _ =
        (serve plan.unlimited.observed free (callback.observed target).run).exec _ ∨ _ := performed
    rcases performed with same | stopped
    · rw [same]
      exact .inl rfl
    · exact .inr stopped

/-- The limited engine follows the free one in calls as in rules. -/
theorem following (plan : Plan κ) (propagates : plan.replacements.Propagate) :
    Simulation (Observed σ) (Observed σ) plan.unlimited.observed plan.observed (fun _ => True)
      (fun _ free limited => Follows plan free limited)
      (fun _ free limited => Follows plan free limited) where
  child _ _ := trivial
  body _ _ := trivial
  production_eq _ := rfl
  classOf_eq _ := rfl
  fails _ _ _ := follows_self ((passes plan).throw _)
  asks q next := (follows_self ((passes plan).ask q)).bind next
  meets next := (follows_self (passes plan).nextSite).bind next
  leaf label parent := follows_leaf label parent
  opens label parent below := (follows_self ((passes plan).addNode _)).bind below
  done _ := follows_self ((passes plan).pure ())
  next first second := first.bind fun _ => second
  produces {expand₁ expand₂ name body} id _ _ each := by
    have each (rule : Rule) (parent : Option NodeId) :
        Follows plan (expand₁ rule parent) (expand₂ rule parent) := each rule parent trivial
    have same : plan.unlimited.observed.replacements.find? name =
        plan.observed.replacements.find? name := rfl
    apply Follows.within
    unfold produce
    rw [same]
    split
    next => exact each body _
    next callback found =>
      obtain ⟨original, bound, rfl⟩ := observed_callback found
      have follows (call : Nat) :=
        follows_replace each original ⟨call, id, name⟩ (propagates name original bound _)
      exact ⟨fun s => (follows s.call).passed s, fun s => (follows s.call).same s⟩

variable (plan) in
theorem follows_traced (propagates : plan.replacements.Propagate)
    {beyond : Expand (Observed σ) (κ × List NodeId) Unit}
    (further : Meets (fun s _ t => Passed s t) beyond) (fuel : Nat) (rule : Rule)
    (parent : Option NodeId) :
    Follows plan (traced beyond plan.unlimited.observed fuel rule parent)
      (traced beyond plan.observed fuel rule parent) := by
  induction fuel generalizing rule parent with
  | zero => exact follows_self further
  | succ fuel ih =>
    have inside := (following plan propagates).everywhere _ _ ih rule parent
    refine ⟨passed_traced plan.unlimited further (fuel + 1) rule parent, ?_⟩
    intro s
    rw [exec_traced_succ, exec_traced_succ]
    exact inside.nested.same _

/-! ### Text of completed actions -/

/-- Text that fitted still fits when the action completes. -/
theorem fits (plan : Plan κ) :
    Guarantee (σ := Observed σ) plan.observed fun s ended t =>
      ended = none → Fitting plan s.size → Fitting plan t.size where
  refl _ _ _ fitting := fitting
  trans first second completed fitting := second completed (first rfl fitting)
  adds _ _ _ _ fitting := fitting
  appends s text completed _ := by
    cases appended : appendOutcome plan.observed (s.size + text.length) with
    | ok _ => exact appendOutcome_eq_ok.mp appended
    | error fault =>
      rw [appended] at completed
      cases completed
  asks _ _ _ _ fitting := fitting
  meets _ _ fitting := fitting
  deepens inside := inside
  enters _ inside := inside
  opens _ inside := inside

/-- A program that catches nothing completes only if all its requests did. -/
theorem fits_perform
    (each : ∀ rule parent, Meets (fun s ended t =>
      ended = none → Fitting plan s.size → Fitting plan t.size) (expandOne rule parent))
    (program : Program κ (Except Fault α)) (propagates : program.Propagates)
    {s t : Expansion (Observed σ) (κ × List NodeId)} {a : α}
    (done : (perform plan.observed expandOne program.observed).run s = (.ok a, t))
    (fitting : Fitting plan s.size) : Fitting plan t.size := by
  induction program generalizing s with
  | done result =>
    cases done
    exact fitting
  | write target text next ih =>
    rw [run_perform_observed_write] at done
    rcases ran : (writeTo plan.observed target text).exec s with ⟨fault | _, u⟩
    · rw [ran] at done
      exact absurd done (run_perform_ne_ok plan expandOne _ (propagates.1 fault) _)
    · rw [ran] at done
      have wrote := ((fits plan).writeTo target text).of_exec ran
      exact ih _ (propagates.2 _) done (wrote rfl fitting)
  | expand target next ih =>
    simp only [Program.observed, run_perform_expand] at done
    rcases ran : (expandIn plan.observed expandOne target).exec s with ⟨fault | _, u⟩
    · rw [ran] at done
      exact absurd done (run_perform_ne_ok plan expandOne _ (propagates.1 fault) _)
    · rw [ran] at done
      have expanded := ((fits plan).expandIn each target).of_exec ran
      exact ih _ (propagates.2 _) done (expanded rfl fitting)
  | ask question next ih => exact ih _ (propagates.2 _) done fitting
  | look next ih => exact ih _ (propagates _) done fitting
  | store user next ih => exact ih propagates done fitting

variable (plan) in
theorem fits_traced (propagates : plan.replacements.Propagate) (fuel : Nat) (rule : Rule)
    (parent : Option NodeId) :
    Meets (fun s ended t => ended = none → Fitting plan s.size → Fitting plan t.size)
      (traced (throw .nestingExhausted) plan.observed fuel rule parent :
        Expand (Observed σ) (κ × List NodeId) Unit) := by
  have serves : ServesAll (σ := Observed σ) plan.observed fun s ended t =>
      ended = none → Fitting plan s.size → Fitting plan t.size := by
    intro expandOne each name callback found target s completed fitting
    obtain ⟨original, bound, rfl⟩ := observed_callback found
    have uncaught := propagates name original bound target
    rcases ran : (serve plan.observed expandOne (original.observed target).run).exec s with
      ⟨fault | _, t⟩
    · rw [ran] at completed
      cases completed
    · exact fits_perform each (original target).run uncaught ran fitting
  exact (fits plan).traced serves (fun _ _ _ fitting => fitting) ((fits plan).throw _) fuel rule
    parent

end Expand

end SentenceGen
