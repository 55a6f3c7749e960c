import SentenceGen.Proofs.Cutoffs

/-!
# Exactness of cutoffs

A run that completes in spite of its cutoffs has the result that it would have without them, and
the cutoffs admit that result.  Conversely the cutoffs let every run complete whose result they
admit, as long as callbacks expand no production but their own.  Depth counts the calls that go on:
where a callback expands a context further out, the depth is more than the level of what is added,
and a run may be stopped whose result would be admitted.
-/

namespace SentenceGen

/-- The program expands no production but its own.  It may write to any context. -/
def Program.Inward {κ α : Type} (own : Context) : Program κ α → Prop
  | .done _ => True
  | .write _ _ next => ∀ result, (next result).Inward own
  | .expand target next => target = own ∧ ∀ result, (next result).Inward own
  | .ask _ next => ∀ answer, (next answer).Inward own
  | .look next => ∀ view, (next view).Inward own
  | .store _ next => next.Inward own

def Replacements.Inward {κ : Type} (r : Replacements (Callback κ)) : Prop :=
  ∀ name callback, r.find? name = some callback → ∀ target, (callback target).run.Inward target

namespace Expand

variable {σ κ α β : Type} {plan : Plan κ}

/-- The cutoffs admit what is there: the level of every node that no callback wrote, and the size of
the text. -/
structure Within (plan : Plan κ) (t : Expansion (Observed σ) (κ × List NodeId)) : Prop where
  levels : ∀ id : Nat, id < t.tree.size → id ∉ t.user.2 → ∀ n, t.tree.Level id n → Admitted plan n
  size : Fitting plan t.size

variable {s t u : Expansion (Observed σ) (κ × List NodeId)} {parent : Option NodeId} {n : Nat}

/-- What the cutoffs admit at the end they admitted all the time. -/
theorem Within.before (h : Within plan t) (passed : Passed s t) : Within plan s where
  levels id present unmarked level reached := by
    apply h.levels id
    · exact Nat.lt_of_lt_of_le present passed.kept.size_le
    · intro marked
      rcases passed.marks id marked with before | added
      · exact unmarked before
      · omega
    · exact reached.of_keeps passed.kept
  size := h.size.mono passed.size_le

theorem Within.thaw {frozen : Bool}
    (h : Within plan { t with tree := { t.tree with frozen := frozen } }) : Within plan t where
  levels id present unmarked level reached :=
    h.levels id present unmarked level (reached.of_keeps (Tree.keeps_of_nodes_eq rfl))
  size := h.size

/-- Nodes may be added below the parent, which is at the given level. -/
structure Placed (parent : Option NodeId) (n : Nat)
    (s : Expansion (Observed σ) (κ × List NodeId)) : Prop where
  thawed : s.tree.frozen = false
  above : s.tree.Above parent n
  marks : ∀ id : Nat, id ∈ s.user.2 → id < s.tree.size

theorem Placed.passed (h : Placed parent n s) (passed : Passed s t) : Placed parent n t where
  thawed := passed.frozen_eq.trans h.thawed
  above := h.above.of_keeps passed.kept
  marks id marked := by
    rcases passed.marks id marked with before | added
    · exact Nat.lt_of_lt_of_le (h.marks id before) passed.kept.size_le
    · exact added.2

/-- The node that is added next is one level further down, and is never marked. -/
theorem Placed.fresh (h : Placed parent n s) (passed : Passed u t) {label : Label}
    (tree_eq : u.tree = (s.tree.add (label.under parent)).2) (user_eq : u.user = s.user) :
    s.tree.size < t.tree.size ∧ s.tree.size ∉ t.user.2 ∧ t.tree.Level s.tree.size (n + 1) := by
  have size : u.tree.size = s.tree.size + 1 := by rw [tree_eq, Tree.size_add _ _ h.thawed]
  have grown := passed.kept.size_le
  refine ⟨by omega, ?_, ?_⟩
  · intro marked
    rcases passed.marks _ marked with before | added
    · rw [user_eq] at before
      exact Nat.lt_irrefl _ (h.marks _ before)
    · omega
  · have level := Tree.level_add h.above h.thawed label
    rw [← tree_eq] at level
    exact level.of_keeps passed.kept

/-- A call is made at the level of its parent, and once it is counted one level further down. -/
def CallPlaced (parent : Option NodeId) (s : Expansion (Observed σ) (κ × List NodeId)) : Prop :=
  Placed parent s.depth s

def StepPlaced (parent : Option NodeId) (s : Expansion (Observed σ) (κ × List NodeId)) : Prop :=
  ∃ n, s.depth = n + 1 ∧ Placed parent n s

theorem CallPlaced.passed (h : CallPlaced parent s) (passed : Passed s t) :
    CallPlaced parent t := by
  rw [CallPlaced, passed.depth_eq]
  exact Placed.passed h passed

theorem StepPlaced.passed (h : StepPlaced parent s) (passed : Passed s t) :
    StepPlaced parent t := by
  obtain ⟨n, depth, placed⟩ := h
  exact ⟨n, passed.depth_eq.trans depth, placed.passed passed⟩

/-- A leaf whose text ends up within the cutoff is added as without it. -/
theorem leaf_eq {label : Label}
    (done : (leaf plan.unlimited.observed label parent).exec s = (.ok (), t))
    (fitting : Fitting plan t.size) : (leaf plan.observed label parent).exec s = (.ok (), t) := by
  rw [exec_leaf] at done ⊢
  generalize s.tree.add (label.under parent) = added at done ⊢
  obtain ⟨fault | id, tree⟩ := added
  · cases done
  · by_cases empty : label.text = ""
    · simp only [if_pos empty] at done ⊢
      exact done
    · simp only [if_neg empty] at done ⊢
      obtain ⟨_, rfl⟩ := Prod.mk.inj done
      have fitting : appendOutcome plan.observed (s.size + label.text.length) = .ok () :=
        appendOutcome_eq_ok.mpr fitting
      rw [fitting]

theorem writeTo_eq {target : Context} {text : Datum}
    (done : (writeTo plan.unlimited.observed target text).exec s = (.ok (), t))
    (fitting : Fitting plan t.size) :
    (writeTo plan.observed target text).exec s = (.ok (), t) := by
  rw [exec_writeTo] at done ⊢
  by_cases live : s.live.contains target = true
  · rw [if_pos live] at done ⊢
    cases text with
    | str text => exact leaf_eq done fitting
    | _ => cases done
  · rw [if_neg live] at done
    cases done

/-- The limited action completes as the free one does, if that ends within the cutoffs. -/
structure Exact (plan : Plan κ) (Ready : Expansion (Observed σ) (κ × List NodeId) → Prop)
    (free limited : Expand (Observed σ) (κ × List NodeId) α) : Prop where
  passed : Meets (fun s _ t => Passed s t) free
  same : ∀ s a t, Ready s → free.exec s = (.ok a, t) → Within plan t → limited.exec s = (.ok a, t)

/-- Once a step completes there is a node as deep as the step, which no callback wrote. -/
structure ExactStep (plan : Plan κ) (parent : Option NodeId)
    (free limited : Expand (Observed σ) (κ × List NodeId) Unit) : Prop
    extends Exact plan (StepPlaced parent) free limited where
  deep : ∀ s t, StepPlaced parent s → free.exec s = (.ok (), t) →
    ∃ id : Nat, id < t.tree.size ∧ id ∉ t.user.2 ∧ t.tree.Level id s.depth

variable {Ready : Expansion (Observed σ) (κ × List NodeId) → Prop}
  {free limited : Expand (Observed σ) (κ × List NodeId) Unit}

theorem exact_self {action : Expand (Observed σ) (κ × List NodeId) α}
    (passed : Meets (fun s _ t => Passed s t) action) : Exact plan Ready action action where
  passed := passed
  same _ _ _ _ done _ := done

variable [DecisionSource σ]

theorem Exact.bind {free limited : Expand (Observed σ) (κ × List NodeId) α}
    {next₁ next₂ : α → Expand (Observed σ) (κ × List NodeId) β}
    {Ready' : α → Expansion (Observed σ) (κ × List NodeId) → Prop}
    (first : Exact plan Ready free limited)
    (ready : ∀ s a t, Ready s → free.exec s = (.ok a, t) → Ready' a t)
    (second : ∀ a, Exact plan (Ready' a) (next₁ a) (next₂ a)) :
    Exact plan Ready (free >>= next₁) (limited >>= next₂) where
  passed := (passes plan).bind first.passed fun a => (second a).passed
  same s b u start done within := by
    obtain ⟨a, t, ran, ranOn⟩ := exec_bind_ok.mp done
    have passed := (second a).passed.of_exec ranOn
    have again := first.same s a t start ran (within.before passed)
    rw [exec_bind_of_ok again]
    exact (second a).same t b u (ready s a t start ran) ranOn within

theorem Exact.seq {free limited : Expand (Observed σ) (κ × List NodeId) α}
    {next₁ next₂ : α → Expand (Observed σ) (κ × List NodeId) β}
    (first : Exact plan Ready free limited) (stays : ∀ {s t}, Ready s → Passed s t → Ready t)
    (second : ∀ a, Exact plan Ready (next₁ a) (next₂ a)) :
    Exact plan Ready (free >>= next₁) (limited >>= next₂) :=
  first.bind (fun _ _ _ ready ran => stays ready (first.passed.of_exec ran)) second

theorem ExactStep.after {action : Expand (Observed σ) (κ × List NodeId) α}
    {next₁ next₂ : α → Expand (Observed σ) (κ × List NodeId) Unit}
    (passed : Meets (fun s _ t => Passed s t) action)
    (next : ∀ a, ExactStep plan parent (next₁ a) (next₂ a)) :
    ExactStep plan parent (action >>= next₁) (action >>= next₂) where
  toExact := (exact_self passed).seq StepPlaced.passed fun a => (next a).toExact
  deep s u placed done := by
    obtain ⟨a, t, ran, ranOn⟩ := exec_bind_ok.mp done
    have passed := passed.of_exec ran
    rw [← passed.depth_eq]
    exact (next a).deep t u (placed.passed passed) ranOn

theorem exactStep_leaf (label : Label) (parent : Option NodeId) :
    ExactStep (σ := σ) plan parent (leaf plan.unlimited.observed label parent)
      (leaf plan.observed label parent) where
  passed := (passes plan.unlimited).leaf label parent
  same _ _ _ _ done within := leaf_eq done within.size
  deep s t placed done := by
    obtain ⟨n, depth, placed⟩ := placed
    obtain ⟨chunks, size, left⟩ := exec_leaf_left plan.unlimited.observed label parent s
    rw [done] at left
    have left : t = _ := left
    rw [depth]
    exact ⟨_, placed.fresh (passed_refl t) (by rw [left]) (by rw [left])⟩

theorem exactStep_opens (label : Label) (parent : Option NodeId)
    {below₁ below₂ : NodeId → Expand (Observed σ) (κ × List NodeId) Unit}
    (below : ∀ id, Exact plan (CallPlaced (some id)) (below₁ id) (below₂ id)) :
    ExactStep plan parent (addNode (label.under parent) >>= below₁)
      (addNode (label.under parent) >>= below₂) where
  toExact := by
    have passed := (passes (σ := σ) plan).addNode (label.under parent)
    refine (exact_self passed).bind (fun s id t placed added => ?_) below
    obtain ⟨n, depth, placed⟩ := placed
    have passed := passed.of_exec added
    rw [exec_addNode_of_takes (placed.above.takes placed.thawed)] at added
    cases added
    have later := placed.passed passed
    refine ⟨later.thawed, ?_, later.marks⟩
    simp only [depth]
    exact Tree.level_add placed.above placed.thawed label
  deep s u placed done := by
    obtain ⟨n, depth, placed⟩ := placed
    obtain ⟨id, t, added, ranOn⟩ := exec_bind_ok.mp done
    have passed := (below id).passed.of_exec ranOn
    rw [exec_addNode_of_takes (placed.above.takes placed.thawed)] at added
    cases added
    rw [depth]
    exact ⟨_, placed.fresh passed rfl rfl⟩

theorem ExactStep.nested (inside : ExactStep plan parent free limited) :
    Exact plan (CallPlaced parent) (nested plan.unlimited.observed free)
      (nested plan.observed limited) where
  passed := (passes plan.unlimited).nested inside.passed
  same s _ t placed done within := by
    obtain ⟨u, ran, rfl⟩ := nested_ok done
    have within : Within plan u := ⟨within.levels, within.size⟩
    have ready : StepPlaced parent { s with depth := s.depth + 1 } :=
      ⟨s.depth, rfl, placed.thawed, placed.above, placed.marks⟩
    -- The step left a node as deep as the call, and the cutoff admits the level of that node.
    obtain ⟨id, present, unmarked, level⟩ := inside.deep _ u ready ran
    have entered : levelOutcome plan.observed (s.depth + 1) s.productions = .ok () :=
      levelOutcome_eq_ok.mpr (within.levels id present unmarked _ level)
    rw [exec_nested, entered]
    simp only [inside.same _ () u ready ran within]

theorem Exact.within {id : NodeId} (inside : Exact plan (CallPlaced (some id)) free limited)
    (name : String) :
    Exact plan (CallPlaced (some id)) (within name free) (within name limited) where
  passed := (passes plan).within inside.passed name
  same s a t placed done within := by
    rw [exec_within] at done ⊢
    obtain ⟨outcome, rfl⟩ := Prod.mk.inj done
    have ready : CallPlaced (some id) { s with productions := name :: s.productions } :=
      ⟨placed.thawed, placed.above, placed.marks⟩
    rw [inside.same _ a _ ready (Prod.ext outcome rfl) ⟨within.levels, within.size⟩]

variable {free limited : Rule → Option NodeId → Expand (Observed σ) (κ × List NodeId) Unit}

theorem exact_expandIn
    (each : ∀ rule parent, Exact plan (CallPlaced parent) (free rule parent) (limited rule parent))
    (target : Context) :
    Exact plan (CallPlaced (some target.node)) (expandIn plan.unlimited.observed free target)
      (expandIn plan.observed limited target) := by
  apply (exact_self ((passes plan).requireOpen target)).seq CallPlaced.passed
  intro _
  apply (exact_self ((passes plan).lift _)).seq CallPlaced.passed
  intro body
  exact each body _

/-- A program that catches nothing makes every request of the free run, and each is served alike. -/
theorem perform_eq
    (each : ∀ rule parent, Exact plan (CallPlaced parent) (free rule parent) (limited rule parent))
    {own : Context} (program : Program κ (Except Fault α)) (propagates : program.Propagates)
    (inward : program.Inward own) {a : α} (placed : CallPlaced (some own.node) s)
    (done : (perform plan.unlimited.observed free program.observed).run s = (.ok a, t))
    (within : Within plan t) :
    (perform plan.observed limited program.observed).run s = (.ok a, t) := by
  have passed (rule : Rule) (parent : Option NodeId) := (each rule parent).passed
  have rest (program : Program κ (Except Fault α)) {u : Expansion (Observed σ) (κ × List NodeId)}
      (done : (perform plan.unlimited.observed free program.observed).run u = (.ok a, t)) :
      Passed u t := by
    have rest := passed_perform plan.unlimited passed program u
    rw [done] at rest
    exact rest
  induction program generalizing s with
  | done result => exact done
  | write target text next ih =>
    rw [run_perform_observed_write] at done ⊢
    rcases ran : (writeTo plan.unlimited.observed target text).exec s with ⟨fault | _, u⟩
    · rw [ran] at done
      exact absurd done (run_perform_ne_ok plan.unlimited free _ (propagates.1 fault) _)
    · rw [ran] at done
      have wrote := ((passes plan.unlimited).writeTo target text).of_exec ran
      -- The node is marked only once it is written, so of this state only the size is known.
      have fitting : Fitting plan u.size := within.size.mono (rest _ done).size_le
      rw [writeTo_eq ran fitting]
      exact ih _ (propagates.2 _) (inward _) (placed.passed wrote.marking) done
  | expand target next ih =>
    obtain ⟨rfl, inward⟩ := inward
    simp only [Program.observed, run_perform_expand] at done ⊢
    rcases ran : (expandIn plan.unlimited.observed free target).exec s with ⟨fault | _, u⟩
    · rw [ran] at done
      exact absurd done (run_perform_ne_ok plan.unlimited free _ (propagates.1 fault) _)
    · rw [ran] at done
      have expanded := ((passes plan.unlimited).expandIn passed target).of_exec ran
      rw [(exact_expandIn each target).same s () u placed ran (within.before (rest _ done))]
      exact ih _ (propagates.2 _) (inward _) (placed.passed expanded) done
  | ask question next ih =>
    have asked := (passes plan.unlimited).ask question s
    exact ih _ (propagates.2 _) (inward _) (placed.passed asked) done
  | look next ih => exact ih _ (propagates _) (inward _) placed done
  | store user next ih =>
    have stored : CallPlaced (some own.node) { s with user := (user, s.user.2) } :=
      ⟨placed.thawed, placed.above, placed.marks⟩
    exact ih propagates inward stored done

theorem exact_replace
    (each : ∀ rule parent, Exact plan (CallPlaced parent) (free rule parent) (limited rule parent))
    (callback : Callback κ) (target : Context) (propagates : (callback target).run.Propagates)
    (inward : (callback target).run.Inward target) :
    Exact plan (CallPlaced (some target.node))
      (replace plan.unlimited.observed free callback.observed target)
      (replace plan.observed limited callback.observed target) where
  passed := passed_replace plan.unlimited (fun rule parent => (each rule parent).passed) callback
    target
  same s a t placed done within := by
    rw [exec_replace] at done ⊢
    have opened : CallPlaced (some target.node) { s with live := target :: s.live } :=
      ⟨placed.thawed, placed.above, placed.marks⟩
    rcases ran : (serve plan.unlimited.observed free (callback.observed target).run).exec
        { s with live := target :: s.live } with ⟨outcome, u⟩
    rw [ran] at done
    obtain ⟨rfl, rfl⟩ := Prod.mk.inj done
    have served : (serve plan.observed limited (callback.observed target).run).exec
        { s with live := target :: s.live } = (.ok a, u) :=
      perform_eq each (callback target).run propagates inward opened ran
        ⟨within.levels, within.size⟩
    rw [served]

/-- Exactness passes from calls to rules. -/
theorem exactness (plan : Plan κ) (propagate : plan.replacements.Propagate)
    (inward : plan.replacements.Inward) :
    Simulation (Observed σ) (Observed σ) plan.unlimited.observed plan.observed (fun _ => True)
      (fun parent free limited => ExactStep plan parent free limited)
      (fun parent free limited => Exact plan (CallPlaced parent) free limited) where
  child _ _ := trivial
  body _ _ := trivial
  production_eq _ := rfl
  classOf_eq _ := rfl
  fails _ _ _ := ⟨exact_self ((passes plan).throw _), fun _ _ _ done => nomatch done⟩
  asks q next := ExactStep.after ((passes plan).ask q) next
  meets next := ExactStep.after (passes plan).nextSite next
  leaf label parent := exactStep_leaf label parent
  opens label parent below := exactStep_opens label parent below
  done _ := exact_self ((passes plan).pure ())
  next first second := first.seq CallPlaced.passed fun _ => second
  produces {expand₁ expand₂ name body} id _ _ each := by
    have each (rule : Rule) (parent : Option NodeId) :
        Exact plan (CallPlaced parent) (expand₁ rule parent) (expand₂ rule parent) :=
      each rule parent trivial
    have same : plan.unlimited.observed.replacements.find? name =
        plan.observed.replacements.find? name := rfl
    apply Exact.within
    unfold produce
    rw [same]
    split
    next => exact each body _
    next callback found =>
      obtain ⟨original, bound, rfl⟩ := observed_callback found
      have exact (call : Nat) := exact_replace each original ⟨call, id, name⟩
        (propagate name original bound _) (inward name original bound _)
      exact ⟨fun s => (exact s.call).passed s, fun s => (exact s.call).same s⟩

variable (plan) in
theorem exact_traced (propagate : plan.replacements.Propagate) (inward : plan.replacements.Inward)
    (fuel : Nat) (rule : Rule) (parent : Option NodeId) :
    Exact (σ := σ) plan (CallPlaced parent)
      (traced (throw .nestingExhausted) plan.unlimited.observed fuel rule parent)
      (traced (throw .nestingExhausted) plan.observed fuel rule parent) := by
  induction fuel generalizing rule parent with
  | zero => exact exact_self ((passes plan).throw _)
  | succ fuel ih =>
    have inside := (exactness plan propagate inward).everywhere _ _ ih rule parent
    refine ⟨passed_traced plan.unlimited ((passes plan).throw _) (fuel + 1) rule parent, ?_⟩
    intro s a t placed done within
    rw [exec_traced_succ] at done ⊢
    have recorded : CallPlaced parent
        { s with source := { s.source with calls := s.source.calls ++ [rule] } } :=
      ⟨placed.thawed, placed.above, placed.marks⟩
    exact inside.nested.same _ a t recorded done within

end Expand

namespace Generator

open Expand

variable {σ κ : Type} (g : Generator κ)

def unlimited : Generator κ := { g with config := { g.config with limits := {} } }

/-- The fault is that of a cutoff, with the setting as it was given. -/
def Cuts (fault : Fault) : Prop :=
  (g.config.limits.maxDepth ≠ .null ∧
    ∃ production, fault = .tooDeep g.config.limits.maxDepth production) ∨
  (g.config.limits.maxOutputSize ≠ .null ∧
    ∃ size, fault = .tooLarge g.config.limits.maxOutputSize size)

/-- The cutoffs admit a result: every node at its level unless a callback wrote it, and the text. -/
def Admits (last : Expansion (Observed σ) (κ × List NodeId)) : Prop :=
  (∀ id < last.tree.size, ∃ n, last.tree.Level id n ∧ (id ∈ last.user.2 ∨ Admitted g.plan n)) ∧
    Fitting g.plan last.text.length

variable {g}

theorem Admits.within {last : Expansion (Observed σ) (κ × List NodeId)} (h : g.Admits last)
    (counted : Counted last) : Within g.plan last where
  levels id present unmarked n level := by
    obtain ⟨m, reached, placed⟩ := h.1 id present
    rw [level.unique reached]
    exact placed.resolve_left unmarked
  size := by
    rw [counted]
    exact h.2

theorem cuts_of_plan {fault : Fault} (cuts : g.plan.Cuts fault) : g.Cuts fault := by
  rcases cuts with ⟨cutoff, given, production, rfl⟩ | ⟨cutoff, given, size, rfl⟩
  · obtain ⟨same, set⟩ := Cutoff.given_of_ofDatum? given
    exact .inl ⟨set, production, by rw [same]⟩
  · obtain ⟨same, set⟩ := Cutoff.given_of_ofDatum? given
    exact .inr ⟨set, size, by rw [same]⟩

/-- The fault of a cutoff is reported as it is. -/
theorem settle_stopped (name : String) {plan : Plan κ}
    {free limited : Except Fault Unit × Expansion (Observed σ) (κ × List NodeId)}
    (h : Stopped plan free limited) : Stopped plan (settle name free) (settle name limited) := by
  obtain ⟨fault, failed, cuts, asked⟩ := h
  obtain ⟨_, left₁⟩ := settle_left name free
  obtain ⟨_, left₂⟩ := settle_left name limited
  refine ⟨fault, ?_, cuts, by rw [left₁, left₂]; exact asked⟩
  unfold settle
  rw [failed]
  rcases cuts with ⟨cutoff, _, production, rfl⟩ | ⟨cutoff, _, size, rfl⟩
  · rfl
  · rfl

variable [DecisionSource σ]

variable (g) in
theorem observe_follows (propagate : g.replacements.Propagate) (call : Call)
    (start : Option String) (source : σ) (user : κ) :
    let free := g.unlimited.observe (throw .nestingExhausted) call start source user
    let limited := g.observe (throw .nestingExhausted) call start source user
    limited = free ∨ Stopped g.plan free limited := by
  have same : g.unlimited.startOf start = g.startOf start := rfl
  unfold observe
  rw [same]
  cases g.startOf start with
  | error fault => exact .inl rfl
  | ok name =>
    have follows := follows_traced (σ := σ) g.plan propagate
      ((passes g.plan).throw .nestingExhausted) call.ceiling (.nonTerminal name) none
    rcases follows.same (observedStart call source user) with same | stopped
    · exact .inl (congrArg (settle name) same)
    · exact .inr (settle_stopped name stopped)

/-- The text of a completed run is within the cutoff. -/
theorem fitting_observe (propagate : g.replacements.Propagate) {call : Call}
    {start : Option String} {source : σ} {user : κ}
    (completed : (g.observe (throw .nestingExhausted) call start source user).1 = .ok ()) :
    Fitting g.plan (g.observe (throw .nestingExhausted) call start source user).2.size := by
  obtain ⟨name, last, _, ran, left⟩ := g.observe_ok completed
  have fits := (fits_traced g.plan propagate call.ceiling (.nonTerminal name) none).of_exec ran
  rw [left]
  apply fits rfl
  simp [Fitting, Cutoff.admits, observedStart]

/-- Where callbacks expand no production but their own, a run whose result is within the cutoffs
completes. -/
theorem observe_exact (propagate : g.replacements.Propagate) (inward : g.replacements.Inward)
    {call : Call} {start : Option String} {source : σ} {user : κ}
    (completed : (g.unlimited.observe (throw .nestingExhausted) call start source user).1 =
      .ok ())
    (within : Within g.plan
      (g.unlimited.observe (throw .nestingExhausted) call start source user).2) :
    g.observe (throw .nestingExhausted) call start source user =
      g.unlimited.observe (throw .nestingExhausted) call start source user := by
  obtain ⟨name, last, found, ran, left⟩ := g.unlimited.observe_ok completed
  rw [left] at within ⊢
  have again := (exact_traced g.plan propagate inward call.ceiling (.nonTerminal name) none).same
    (observedStart call source user) () last ⟨rfl, rfl, nofun⟩ ran within.thaw
  have found : g.startOf start = .ok name := found
  rw [g.observe_of_start found, again]
  rfl

variable (g) in
theorem counted_observe (call : Call) (start : Option String) (source : σ) (user : κ) :
    Counted (g.observe (throw .nestingExhausted) call start source user).2 := by
  unfold observe
  cases g.startOf start with
  | error fault => rfl
  | ok name =>
    have serves := (counts g.plan.observed).servesAll (σ := Observed σ) (fun _ _ counted => counted)
      (fun kept => kept)
    have counted := (counts g.plan.observed).traced serves (fun _ _ counted => counted)
      ((counts g.plan.observed).throw .nestingExhausted) call.ceiling (.nonTerminal name) none
      (observedStart call source user) rfl
    obtain ⟨_, left⟩ := settle_left name
      ((traced (throw .nestingExhausted) g.plan.observed call.ceiling (.nonTerminal name) none).exec
        (observedStart call source user))
    simp only [left]
    exact counted

/-- Runs that are observed alike are the same. -/
theorem runWithin_eq_unlimited {call : Call} {start : Option String} {source : σ} {user : κ}
    (same : g.observe (throw .nestingExhausted) call start source user =
      g.unlimited.observe (throw .nestingExhausted) call start source user) :
    g.runWithin call start source user = g.unlimited.runWithin call start source user := by
  obtain ⟨outcome₁, final₁⟩ := g.runWithin_observe call start source user
  obtain ⟨outcome₂, final₂⟩ := g.unlimited.runWithin_observe call start source user
  rw [same, ← outcome₂] at outcome₁
  rw [same, ← final₂] at final₁
  have starts : g.unlimited.startOf start = g.startOf start := rfl
  cases found : g.startOf start with
  | error fault => simp only [runWithin, starts, found]
  | ok name =>
    have derived : g.derive call name source user =
        g.unlimited.derive call name source user := by
      simp only [runWithin, starts, found] at outcome₁ final₁
      exact Prod.ext outcome₁ final₁
    simp only [runWithin, starts, found, derived]
    rfl

/-- If no callback catches faults, cutoffs are transparent: a run with cutoffs is the run without
them, or fails with the fault of a cutoff, and its questions are the first ones of the other run.
If it completes, the cutoffs admit the result.  If callbacks expand no production but their own, it
completes whenever the other run does and the cutoffs admit the result. -/
theorem run_limited (g : Generator κ) (propagate : g.replacements.Propagate) (call : Call)
    (start : Option String) (source : σ) (user : κ) :
    let free := g.unlimited.runWithin call start source user
    let limited := g.runWithin call start source user
    ∃ freeLast limitedLast : Expansion (Observed σ) (κ × List NodeId),
      g.unlimited.observe (throw .nestingExhausted) call start source user =
          (free.outcome, freeLast) ∧ free.final = freeLast.forget ∧
        g.observe (throw .nestingExhausted) call start source user =
          (limited.outcome, limitedLast) ∧ limited.final = limitedLast.forget ∧
        limitedLast.source.questions <+: freeLast.source.questions ∧
        (limited = free ∨ ∃ fault, limited.outcome = .error fault ∧ g.Cuts fault) ∧
        (limited.outcome = .ok () → g.Admits freeLast) ∧
        (g.replacements.Inward → free.outcome = .ok () → g.Admits freeLast → limited = free) := by
  intro free limited
  obtain ⟨outcome₁, final₁⟩ := g.unlimited.runWithin_observe call start source user
  obtain ⟨outcome₂, final₂⟩ := g.runWithin_observe call start source user
  have counted := g.unlimited.counted_observe call start source user
  refine ⟨_, _, Prod.ext outcome₁.symm rfl, final₁, Prod.ext outcome₂.symm rfl, final₂, ?_⟩
  rcases g.observe_follows propagate call start source user with same | stopped
  · have levels := g.levelled_observe call start source user
    have alike : limited = free := runWithin_eq_unlimited same
    refine ⟨?_, .inl alike, fun completed => ?_, fun _ _ _ => alike⟩
    · simp only [same, List.prefix_rfl]
    · have fitting := fitting_observe propagate (outcome₂.symm.trans completed)
      rw [same] at levels fitting
      exact ⟨levels, by rw [← counted]; exact fitting⟩
  · obtain ⟨fault, failed, cuts, asked⟩ := stopped
    have outcome : limited.outcome = .error fault := outcome₂.trans failed
    refine ⟨asked, .inr ⟨fault, outcome, cuts_of_plan cuts⟩, fun completed => ?_, ?_⟩
    · rw [outcome] at completed
      cases completed
    · intro inward completed admits
      have completed := outcome₁.symm.trans completed
      exact runWithin_eq_unlimited
        (observe_exact propagate inward completed (admits.within counted))

/-- Its callback writes after the body of its production. -/
def exclaiming (bound : Nat) : Generator Unit where
  grammar := .nesting
  replacements.default := some fun own => do
    Action.expandDefault own
    Action.write own (.str "!")
  config := { limits := { maxOutputSize := .int bound } }
  classes := []

theorem exclaiming_propagate (bound : Nat) : (exclaiming bound).replacements.Propagate := by
  intro name callback bound target
  obtain rfl := Option.some.inj bound
  refine ⟨fun fault => rfl, fun expanded => ?_⟩
  cases expanded with
  | error fault => trivial
  | ok _ => exact ⟨fun fault => rfl, fun written => by cases written <;> trivial⟩

theorem exclaiming_inward (bound : Nat) : (exclaiming bound).replacements.Inward := by
  intro name callback bound target
  obtain rfl := Option.some.inj bound
  refine ⟨rfl, fun expanded => ?_⟩
  cases expanded with
  | error fault => trivial
  | ok _ => exact fun written => by cases written <;> trivial

theorem exclaiming_run_limited :
    let script : Script := { queue := [.repeats (.int 1), .repeats (.int 0)] }
    let free :=
      (exclaiming 3).unlimited.observe (throw .nestingExhausted) (.first 20) none script ()
    ((exclaiming 3).unlimited.runWithin (.first 20) none script ()).text.toOption = some "aa!!" ∧
      (∃ fault, ((exclaiming 3).runWithin (.first 20) none script ()).outcome = .error fault ∧
        (exclaiming 3).Cuts fault) ∧
      ¬ (exclaiming 3).Admits free.2 := by
  intro script free
  have differs : (exclaiming 3).runWithin (.first 20) none script () ≠
      (exclaiming 3).unlimited.runWithin (.first 20) none script () := by
    intro same
    have texts := congrArg (fun r => r.text.toOption) same
    exact absurd texts (by decide +kernel)
  obtain ⟨last, _, observed, _, _, _, _, same | stopped, _, exact⟩ :=
    run_limited (exclaiming 3) (exclaiming_propagate 3) (.first 20) none script ()
  · exact absurd same differs
  · refine ⟨by decide +kernel, stopped, fun admits => ?_⟩
    have completed :
        ((exclaiming 3).unlimited.runWithin (.first 20) none script ()).outcome = .ok () :=
      Run.completed (by decide +kernel)
    have observed : free = _ := observed
    rw [observed] at admits
    exact differs (exact (exclaiming_inward 3) completed admits)

/-- The first call keeps its context, the second one expands it again, and the third one writes. -/
def detour : Generator (Option Context × Bool) where
  grammar :=
    { name := "a", start := "a", registry := ⟨[], false⟩
      productions := [("a", .nonTerminal "b"), ("b", .literal "x")] }
  replacements.default := some fun own => do
    match (← Action.look).user with
    | (none, _) =>
      Action.store (some own, false)
      Action.expandDefault own
    | (some outer, false) =>
      Action.store (some outer, true)
      Action.expandDefault outer
    | (some _, true) => Action.write own (.str "x")
  config := { limits := { maxDepth := .int 2 } }
  classes := []

theorem detour_propagate : detour.replacements.Propagate := by
  intro name callback bound target
  obtain rfl := Option.some.inj bound
  rintro ⟨tree, _ | outer, _ | _⟩
  all_goals exact ⟨fun _ => rfl, fun result => by cases result <;> trivial⟩

/-- All levels are admitted, but the second production is expanded inside its first expansion, and
so deeper. -/
theorem detour_stopped :
    let start : Option Context × Bool := (none, false)
    let free :=
      detour.unlimited.observe (throw .nestingExhausted) (.first 20) none ({} : Script) start
    detour.replacements.Propagate ∧
      (detour.unlimited.runWithin (.first 20) none ({} : Script) start).outcome = .ok () ∧
      (detour.unlimited.runWithin (.first 20) none ({} : Script) start).final = free.2.forget ∧
      free.2.tree.size = 4 ∧ free.2.user.2 = [3] ∧ detour.Admits free.2 ∧
      (detour.runWithin (.first 20) none ({} : Script) start).outcome =
        .error (.tooDeep (.int 2) (.str "b")) := by
  intro start free
  have final := (detour.unlimited.runWithin_observe (.first 20) none ({} : Script) start).2
  have size : free.2.tree.size = 4 := by decide +kernel
  have completed :
      (detour.unlimited.runWithin (.first 20) none ({} : Script) start).outcome = .ok () :=
    Run.completed (by decide +kernel)
  have stopped : (detour.runWithin (.first 20) none ({} : Script) start).outcome =
      .error (.tooDeep (.int 2) (.str "b")) := rfl
  have fits : appendOutcome detour.plan free.2.text.length = .ok () := rfl
  have marked : free.2.user.2 = [3] := by decide +kernel
  refine ⟨detour_propagate, completed, final, size, marked, ⟨?_, appendOutcome_eq_ok.mp fits⟩,
    stopped⟩
  have entered : levelOutcome detour.plan 2 [] = .ok () := rfl
  have second : Admitted detour.plan 2 := levelOutcome_eq_ok.mp entered
  have root : free.2.tree.Level 0 1 :=
    Tree.level_of_above (by decide +kernel : _ = some none) rfl
  have first : free.2.tree.Level 1 2 :=
    Tree.level_of_above (by decide +kernel : _ = some (some 0)) root
  have again : free.2.tree.Level 2 2 :=
    Tree.level_of_above (by decide +kernel : _ = some (some 0)) root
  have written : free.2.tree.Level 3 3 :=
    Tree.level_of_above (by decide +kernel : _ = some (some 2)) again
  intro (id : Nat) present
  have cases : id = 0 ∨ id = 1 ∨ id = 2 ∨ id = 3 := by omega
  rcases cases with rfl | rfl | rfl | rfl
  · exact ⟨1, root, .inr (second.mono (by decide))⟩
  · exact ⟨2, first, .inr second⟩
  · exact ⟨2, again, .inr second⟩
  · exact ⟨3, written, .inl (by rw [marked]; exact List.mem_singleton_self 3)⟩

end Generator

end SentenceGen
