import SentenceGen.Decision.Script
import SentenceGen.Proofs.Steps

/-!
# Soundness of generation

A completed run leaves a derivation of the grammar, whatever its source answers, if no callback
catches a fault.  A callback may write to every context that is still open, its own or one further
out, so while one node is filled in, others may get children too.  The invariant says which: only
nodes of open contexts, and only children that may stand below their productions.
-/

namespace SentenceGen

namespace Program

variable {κ α : Type}

/-- Every way to the end of a program is a fault. -/
def Fails : Program κ (Except Fault α) → Prop
  | .done result => ∃ fault, result = .error fault
  | .write _ _ next => ∀ result, (next result).Fails
  | .expand _ next => ∀ result, (next result).Fails
  | .ask _ next => ∀ answer, (next answer).Fails
  | .look next => ∀ view, (next view).Fails
  | .store _ next => next.Fails

/-- A program does not catch faults: once a request has failed it ends with a fault. -/
def Uncaught : Program κ (Except Fault α) → Prop
  | .done _ => True
  | .write _ _ next => (∀ fault, (next (.error fault)).Fails) ∧ (next (.ok ())).Uncaught
  | .expand _ next => (∀ fault, (next (.error fault)).Fails) ∧ (next (.ok ())).Uncaught
  | .ask _ next =>
    (∀ fault, (next (.error fault)).Fails) ∧ ∀ answer, (next (.ok answer)).Uncaught
  | .look next => ∀ view, (next view).Uncaught
  | .store _ next => next.Uncaught

end Program

namespace Replacements

variable {κ : Type}

def Uncaught (r : Replacements (Callback κ)) : Prop :=
  ∀ name callback, r.find? name = some callback → ∀ target, (callback target).run.Uncaught

def Binds (r : Replacements (Callback κ)) (name : String) : Prop := (r.find? name).isSome = true

end Replacements

namespace Tree

variable {g : Grammar} {replaced : String → Prop} {t t' t'' : Tree} {live : List Context}
  {parent : Option NodeId}

/-- What is shown at a node may stand below a replaced production of that name. -/
def Fits (g : Grammar) (replaced : String → Prop) (t : Tree) (name : String) (id : NodeId) : Prop :=
  ∃ d, t.Shows d id ∧ ∀ body, g.body? name = some body → g.DerivesSome replaced body [d]

/-- The tree grew: the parent got the given children, and other nodes only if their context is open,
and then only children that fit. -/
structure Advances (g : Grammar) (replaced : String → Prop) (live : List Context)
    (parent : Option NodeId) (children : List NodeId) (t t' : Tree) : Prop where
  frozen_eq : t'.frozen = t.frozen
  grown : ∃ extra : NodeId → List NodeId,
    t.Extends (fun id => linkedTo parent children id ++ extra id) t' ∧
    ∀ id, ∀ child ∈ extra id, t.size ≤ child ∧
      ∃ context ∈ live, context.node = id ∧ Fits g replaced t' context.name child

def Before (live : List Context) (place : NodeId) : Prop := ∀ context ∈ live, context.node < place

theorem Before.mono {place later : NodeId} (h : Before live place) (le : place ≤ later) :
    Before live later :=
  fun context member => Nat.lt_of_lt_of_le (h context member) le

theorem Advances.size_le {children : List NodeId}
    (h : Advances g replaced live parent children t t') : t.size ≤ t'.size := by
  obtain ⟨_, extended, _⟩ := h.grown
  exact extended.size_le

theorem Advances.takes {children : List NodeId}
    (h : Advances g replaced live parent children t t') {place : Option NodeId}
    (takes : t.Takes place) : t'.Takes place where
  thawed := by rw [h.frozen_eq, takes.thawed]
  parent_lt id given := Nat.lt_of_lt_of_le (takes.parent_lt id given) h.size_le

/-- Only nodes of open contexts get further children. -/
theorem eq_nil_of_foreign {children : List NodeId} {id : NodeId}
    (foreign : ∀ child ∈ children, t.size ≤ child ∧
      ∃ context ∈ live, context.node = id ∧ Fits g replaced t' context.name child)
    (closed : ∀ context ∈ live, context.node ≠ id) : children = [] := by
  refine List.eq_nil_iff_forall_not_mem.mpr fun child member => ?_
  obtain ⟨_, context, open_, node, _⟩ := foreign child member
  exact closed context open_ node

/-- What is shown behind the parent and all open contexts stays. -/
theorem Advances.shows {children : List NodeId} {d : Derivation} {id : NodeId}
    (h : Advances g replaced live parent children t t') (contexts : Before live id)
    (above : ∀ place : Nat, parent = some place → place < id) (shown : t.Shows d id) :
    t'.Shows d id := by
  obtain ⟨extra, extended, foreign⟩ := h.grown
  refine shown.of_extends extended fun i later => ?_
  have other : parent ≠ some i := fun same => Nat.not_lt_of_le later (above i same)
  have nothing : extra i = [] := by
    refine eq_nil_of_foreign (foreign i) ?_
    rintro context open_ rfl
    exact Nat.not_lt_of_le later (contexts context open_)
  rw [linkedTo_of_ne other, nothing, List.append_nil]

theorem advances_refl (live : List Context) (parent : Option NodeId) (t : Tree) :
    Advances g replaced live parent [] t t where
  frozen_eq := rfl
  grown := ⟨fun _ => [], (extends_refl t).congr (by simp [linkedTo]), by simp⟩

/-- Growth under one parent that is no open context. -/
theorem Advances.trans {first second : List NodeId}
    (h : Advances g replaced live parent first t t')
    (h' : Advances g replaced live parent second t' t'') (takes : t.Takes parent)
    (contexts : Before live t.size) (apart : ∀ context ∈ live, parent ≠ some context.node) :
    Advances g replaced live parent (first ++ second) t t'' := by
  obtain ⟨extra, extended, foreign⟩ := h.grown
  obtain ⟨extra', extended', foreign'⟩ := h'.grown
  refine ⟨h'.frozen_eq.trans h.frozen_eq, fun id => extra id ++ extra' id, ?_, ?_⟩
  · refine (extended.trans extended').congr fun id _ => ?_
    by_cases same : parent = some id
    · have nothing : extra id = [] := by
        refine eq_nil_of_foreign (foreign id) ?_
        rintro context open_ rfl
        exact apart context open_ same
      simp [linkedTo, same, nothing]
    · simp [linkedTo_of_ne same]
  · intro id child member
    rcases List.mem_append.mp member with early | late
    · obtain ⟨later, context, open_, node, d, shown, fits⟩ := foreign id child early
      refine ⟨later, context, open_, node, d, ?_, fits⟩
      exact h'.shows (contexts.mono later)
        (fun place given => Nat.lt_of_lt_of_le (takes.parent_lt place given) later) shown
    · obtain ⟨later, context, open_, node, fits⟩ := foreign' id child late
      exact ⟨Nat.le_trans h.size_le later, context, open_, node, fits⟩

/-- A fitting child of an open context is no exception. -/
theorem Advances.absorb {context : Context} {child : NodeId} (open_ : context ∈ live)
    (h : Advances g replaced live (some context.node) [child] t t') (later : t.size ≤ child)
    (fits : Fits g replaced t' context.name child) : Advances g replaced live none [] t t' := by
  obtain ⟨extra, extended, foreign⟩ := h.grown
  refine ⟨h.frozen_eq, fun id => linkedTo (some context.node) [child] id ++ extra id, ?_, ?_⟩
  · exact extended.congr fun id _ => by simp
  · intro id other member
    rcases List.mem_append.mp member with own | rest
    · by_cases same : context.node = id
      · subst same
        obtain rfl : other = child := by simpa using own
        exact ⟨later, context, open_, rfl, fits⟩
      · simp [linkedTo, same] at own
    · exact foreign id other rest

/-- Adding a node and growing below it is growth of the parent by the node. -/
theorem Advances.under {label : Label} {children : List NodeId} (takes : t.Takes parent)
    (h : Advances g replaced live (some t.size) children (t.add (label.under parent)).2 t') :
    Advances g replaced live parent [t.size] t t' := by
  have added : t.Takes (label.under parent).parent := takes
  obtain ⟨extra, extended, foreign⟩ := h.grown
  refine ⟨by rw [h.frozen_eq, frozen_add], extra, ?_, fun id child member => ?_⟩
  · refine ((extends_add added).trans extended).congr fun id old => ?_
    have other : some t.size ≠ some id := by simpa using Nat.ne_of_gt old
    simp [linkedTo_of_ne other]
  · obtain ⟨later, context⟩ := foreign id child member
    rw [size_add t _ takes.thawed] at later
    exact ⟨Nat.le_of_succ_le later, context⟩

theorem Advances.node?_under {label : Label} {children : List NodeId} (takes : t.Takes parent)
    (contexts : Before live t.size)
    (h : Advances g replaced live (some t.size) children (t.add (label.under parent)).2 t') :
    t'.node? t.size = some ((label.under parent).adopt children) := by
  have added : t.Takes (label.under parent).parent := takes
  obtain ⟨extra, extended, foreign⟩ := h.grown
  have nothing : extra t.size = [] :=
    eq_nil_of_foreign (foreign t.size) fun context open_ => Nat.ne_of_lt (contexts context open_)
  simpa [nothing] using extended _ _ (node?_add_self added)

/-- What an open context gets while its callback runs fits, so it may be listed as its growth. -/
theorem Advances.own {call : Nat} {name : String}
    (h : Advances g replaced (⟨call, t.size, name⟩ :: live) none [] t' t'')
    (contexts : Before live t.size) :
    ∃ children, Advances g replaced live (some t.size) children t' t'' ∧
      ∀ child ∈ children, t'.size ≤ child ∧ Fits g replaced t'' name child := by
  obtain ⟨extra, extended, foreign⟩ := h.grown
  refine ⟨extra t.size, ⟨h.frozen_eq, fun id => if id = t.size then [] else extra id, ?_, ?_⟩, ?_⟩
  · refine extended.congr fun id _ => ?_
    by_cases same : id = t.size
    · simp [same]
    · simp [same, linkedTo_of_ne (show some t.size ≠ some id by simpa using Ne.symm same)]
  · intro id child member
    simp only at member
    split at member
    next => simp at member
    next other =>
      obtain ⟨later, context, open_, node, fits⟩ := foreign id child member
      rcases List.mem_cons.mp open_ with rfl | outer
      · exact absurd node.symm other
      · exact ⟨later, context, outer, node, fits⟩
  · intro child member
    obtain ⟨later, context, open_, node, fits⟩ := foreign _ child member
    refine ⟨later, ?_⟩
    rcases List.mem_cons.mp open_ with rfl | outer
    · exact fits
    · exact absurd node (Nat.ne_of_lt (contexts context outer))

theorem shows_of_node? {label : Label} {children : List NodeId} {ds : List Derivation}
    {id : NodeId} (found : t.node? id = some ((label.under parent).adopt children))
    (later : ∀ child ∈ children, id < child) (below : t.ShowsAll ds children) :
    t.Shows (.node label ds) id :=
  ⟨_, found, rfl, by simpa using later, by simpa using below⟩

theorem showsAll_of_fits {name : String} {children : List NodeId}
    (fit : ∀ child ∈ children, Fits g replaced t name child) :
    ∃ ds, t.ShowsAll ds children ∧
      ∀ body, g.body? name = some body → g.DerivesSome replaced body ds := by
  induction children with
  | nil => exact ⟨[], trivial, fun _ _ => .nil⟩
  | cons child rest ih =>
    rw [List.forall_mem_cons] at fit
    obtain ⟨d, shown, fits⟩ := fit.1
    obtain ⟨ds, shownRest, fitRest⟩ := ih fit.2
    refine ⟨d :: ds, ⟨shown, shownRest⟩, fun body defined => ?_⟩
    cases fits body defined with
    | written text _ => exact .written text (fitRest body defined)
    | expanded first _ => exact .expanded first (fitRest body defined)

end Tree

namespace Expand

open SentenceGen.Tree

variable {σ κ α : Type}

/-- A completed action grows the tree by one derivation of the rule and closes what it opened. -/
def Sound (g : Grammar) (replaced : String → Prop) (rule : Rule) (parent : Option NodeId)
    (action : Expand σ κ Unit) : Prop :=
  ∀ s s', s.tree.Takes parent → Before s.live s.tree.size → action.exec s = (.ok (), s') →
    s'.live = s.live ∧ Advances g replaced s.live parent [s.tree.size] s.tree s'.tree ∧
      ∃ d, g.Derives replaced rule d ∧ s'.tree.Shows d s.tree.size

variable {g : Grammar} {replaced : String → Prop} {plan : Plan κ}
  {expandOne : Rule → Option NodeId → Expand σ κ Unit} {s s' : Expansion σ κ}

theorem sound_forM {id : NodeId} (each : ∀ item, Sound g replaced item (some id)
      (expandOne item (some id))) (items : List Rule) (takes : s.tree.Takes (some id))
    (contexts : Before s.live id)
    (done : (items.forM fun item => expandOne item (some id)).exec s = (.ok (), s')) :
    s'.live = s.live ∧ ∃ children ds, Advances g replaced s.live (some id) children s.tree s'.tree ∧
      (∀ child ∈ children, s.tree.size ≤ child) ∧ g.DerivesAll replaced items ds ∧
      s'.tree.ShowsAll ds children := by
  have inside : id < s.tree.size := takes.parent_lt id rfl
  have apart : ∀ context ∈ s.live, some id ≠ some context.node := fun context member same =>
    Nat.ne_of_gt (contexts context member) (Option.some.inj same)
  induction items generalizing s with
  | nil =>
    cases done
    exact ⟨rfl, [], [], advances_refl _ _ _, by simp, .nil, trivial⟩
  | cons item items ih =>
    obtain ⟨t, first, others⟩ := forM_cons_ok.mp done
    have before : Before s.live s.tree.size := contexts.mono (Nat.le_of_lt inside)
    obtain ⟨live, advance, d, derives, shown⟩ := each item s t takes before first
    rw [← live] at contexts apart
    obtain ⟨liveEnd, children, ds, advanceRest, later, derivesRest, shownRest⟩ :=
      ih (advance.takes takes) contexts others (Nat.lt_of_lt_of_le inside advance.size_le) apart
    rw [live] at liveEnd advanceRest apart
    refine ⟨liveEnd, s.tree.size :: children, d :: ds, advance.trans advanceRest takes before apart,
      ?_, .cons derives derivesRest, ?_, shownRest⟩
    · refine List.forall_mem_cons.mpr ⟨Nat.le_refl _, fun child member => ?_⟩
      exact Nat.le_trans advance.size_le (later child member)
    · refine advanceRest.shows before ?_ shown
      rintro place ⟨⟩
      exact inside

theorem sound_opened [DecisionSource σ] {parent : Option NodeId} {label : Label}
    {items : List Rule} {id : NodeId} {inner outer : Expansion σ κ} {rule : Rule}
    (each : ∀ item, Sound g replaced item (some id) (expandOne item (some id)))
    (opens : g.Opens rule label items) (kept : ∀ name, rule = .nonTerminal name → ¬replaced name)
    (opened : Opened expandOne parent label items id s inner outer s')
    (takes : s.tree.Takes parent) (contexts : Before s.live s.tree.size) :
    s'.live = s.live ∧ Advances g replaced s.live parent [s.tree.size] s.tree s'.tree ∧
      ∃ d, g.Derives replaced rule d ∧ s'.tree.Shows d s.tree.size := by
  have added : s.tree.Takes (label.under parent).parent := takes
  obtain ⟨rfl, tree⟩ := (add_ok_iff added).mp opened.added
  have contextsInner : Before inner.live s.tree.size := by rw [opened.live]; exact contexts
  obtain ⟨live, children, ds, advance, later, derives, shown⟩ :=
    sound_forM each items (by rw [tree]; exact added.add) contextsInner opened.below
  rw [tree, opened.live, ← opened.tree_eq] at advance
  rw [tree, size_add _ _ takes.thawed] at later
  rw [← opened.tree_eq] at shown
  refine ⟨by rw [opened.live_eq, live, opened.live], advance.under takes, .node label ds,
    .opened opens kept derives, ?_⟩
  exact shows_of_node? (advance.node?_under takes contexts) later shown

/-- A program that can only fail does. -/
theorem perform_of_fails [DecisionSource σ] (plan : Plan κ)
    (expandOne : Rule → Option NodeId → Expand σ κ Unit) {program : Program κ (Except Fault α)}
    (fails : program.Fails) (s : Expansion σ κ) :
    ∃ fault, ((perform plan expandOne program).run s).1 = .error fault := by
  induction program generalizing s with
  | done result => exact fails
  | write target text next ih => exact ih _ (fails _) _
  | expand target next ih => exact ih _ (fails _) _
  | ask question next ih => exact ih _ (fails _) _
  | look next ih => exact ih _ (fails _) s
  | store user next ih => exact ih fails _

theorem requireOpen_ok {target : Context}
    (done : (requireOpen target).exec s = (.ok (), s')) : target ∈ s.live ∧ s = s' := by
  rw [exec_requireOpen] at done
  split at done
  next open_ =>
    cases done
    exact ⟨List.contains_iff_mem.mp open_, rfl⟩
  next => cases done

/-- Nodes can be added, and every open context is that of a node. -/
structure Ready (s : Expansion σ κ) : Prop where
  thawed : s.tree.frozen = false
  contexts : Before s.live s.tree.size

structure Kept (g : Grammar) (replaced : String → Prop) (s s' : Expansion σ κ) : Prop where
  live_eq : s'.live = s.live
  advance : Advances g replaced s.live none [] s.tree s'.tree

theorem Ready.takes (ready : Ready s) {context : Context} (open_ : context ∈ s.live) :
    s.tree.Takes (some context.node) where
  thawed := ready.thawed
  parent_lt := by
    rintro id ⟨⟩
    exact ready.contexts context open_

theorem Kept.ready (kept : Kept g replaced s s') (ready : Ready s) : Ready s' where
  thawed := by rw [kept.advance.frozen_eq, ready.thawed]
  contexts := by
    rw [kept.live_eq]
    exact ready.contexts.mono kept.advance.size_le

theorem Kept.trans {s'' : Expansion σ κ} (ready : Ready s) (first : Kept g replaced s s')
    (second : Kept g replaced s' s'') : Kept g replaced s s'' where
  live_eq := second.live_eq.trans first.live_eq
  advance := by
    have advance := second.advance
    rw [first.live_eq] at advance
    exact first.advance.trans advance ⟨ready.thawed, by simp⟩ ready.contexts (by simp)

/-- A completed write adds a literal, which fits everywhere. -/
theorem writeTo_ok {target : Context} {text : Datum} (ready : Ready s)
    (done : (writeTo plan target text).exec s = (.ok (), s')) : Kept g replaced s s' := by
  simp only [writeTo, exec_bind_ok] at done
  obtain ⟨_, _, opened, rest⟩ := done
  obtain ⟨open_, rfl⟩ := requireOpen_ok opened
  cases text with
  | str text =>
    obtain ⟨id, node, live, _⟩ := emit_ok rest
    have takes := ready.takes open_
    have added : s.tree.Takes
        (Label.under { kind := .literal, text } (some target.node)).parent := takes
    obtain ⟨rfl, tree⟩ := (add_ok_iff added).mp node
    have advance : Advances g replaced s.live (some s.tree.size) []
        (s.tree.add (Label.under { kind := .literal, text } (some target.node))).2 s'.tree := by
      rw [tree]
      exact advances_refl _ _ _
    refine ⟨live, (advance.under takes).absorb open_ (Nat.le_refl _) ?_⟩
    refine ⟨.node { kind := .literal, text } [], ?_, fun _ _ => .written text .nil⟩
    exact shows_of_node? (advance.node?_under takes ready.contexts) (by simp) trivial
  | _ => cases rest

/-- A completed default expansion adds a derivation of the context's own body. -/
theorem expandIn_ok
    (each : ∀ item parent, Sound plan.grammar replaced item parent (expandOne item parent))
    {target : Context} (ready : Ready s)
    (done : (expandIn plan expandOne target).exec s = (.ok (), s')) :
    Kept plan.grammar replaced s s' := by
  simp only [expandIn, exec_bind_ok] at done
  obtain ⟨_, _, opened, body, _, resolved, expanded⟩ := done
  obtain ⟨open_, rfl⟩ := requireOpen_ok opened
  obtain ⟨found, rfl⟩ := lift_ok resolved
  obtain ⟨live, advance, d, derives, shown⟩ :=
    each body _ s s' (ready.takes open_) ready.contexts expanded
  refine ⟨live, advance.absorb open_ (Nat.le_refl _) ⟨d, shown, fun other defined => ?_⟩⟩
  obtain rfl := Option.some.inj ((production_ok found).symm.trans defined)
  exact .expanded derives .nil

variable [DecisionSource σ]

/-- A callback that catches nothing completes only if every request did; so what it and the
expansions inside it added fits. -/
theorem perform_ok
    (each : ∀ item parent, Sound plan.grammar replaced item parent (expandOne item parent))
    {program : Program κ (Except Fault α)} (uncaught : program.Uncaught) {a : α} (ready : Ready s)
    (done : (perform plan expandOne program).run s = (.ok a, s')) :
    Kept plan.grammar replaced s s' := by
  have failed {next : Program κ (Except Fault α)} (fails : next.Fails) {t : Expansion σ κ} :
      (perform plan expandOne next).run t ≠ (.ok a, s') := by
    intro done
    obtain ⟨fault, outcome⟩ := perform_of_fails plan expandOne fails t
    rw [done] at outcome
    cases outcome
  induction program generalizing s with
  | done result =>
    cases done
    exact ⟨rfl, advances_refl _ _ _⟩
  | write target text next ih =>
    rw [run_perform_write] at done
    rcases written : (writeTo plan target text).exec s with ⟨fault | _, t⟩
    · rw [written] at done
      exact absurd done (failed (uncaught.1 fault))
    · rw [written] at done
      have kept : Kept plan.grammar replaced s t := writeTo_ok ready written
      exact kept.trans ready (ih _ uncaught.2 (kept.ready ready) done)
  | expand target next ih =>
    rw [run_perform_expand] at done
    rcases expanded : (expandIn plan expandOne target).exec s with ⟨fault | _, t⟩
    · rw [expanded] at done
      exact absurd done (failed (uncaught.1 fault))
    · rw [expanded] at done
      have kept := expandIn_ok each ready expanded
      exact kept.trans ready (ih _ uncaught.2 (kept.ready ready) done)
  | ask question next ih =>
    rw [run_perform_ask] at done
    rcases asked : (ask question).exec s with ⟨fault | answer, t⟩
    · rw [asked] at done
      exact absurd done (failed (uncaught.1 fault))
    · rw [asked] at done
      obtain ⟨source, _, rfl⟩ := ask_ok asked
      have kept := ih _ (s := { s with source }) (uncaught.2 answer)
        ⟨ready.thawed, ready.contexts⟩ done
      exact ⟨kept.live_eq, kept.advance⟩
  | look next ih => exact ih _ (uncaught _) ready done
  | store user next ih =>
    have kept := ih uncaught (s := { s with user }) ⟨ready.thawed, ready.contexts⟩ done
    exact ⟨kept.live_eq, kept.advance⟩

/-- A completed step of a replaced production adds a node with whatever its callback left. -/
theorem sound_replaced
    (each : ∀ item parent, Sound plan.grammar replaced item parent (expandOne item parent))
    (uncaught : plan.replacements.Uncaught) {name : String} {callback : Callback κ}
    (bound : plan.replacements.find? name = some callback) (replaces : replaced name)
    (parent : Option NodeId) :
    Sound plan.grammar replaced (.nonTerminal name) parent
      (step plan expandOne (.nonTerminal name) parent) := by
  intro s s' takes contexts done
  obtain ⟨body, id, inner, outer, defined, node, opened, performed, tree_eq, live_eq⟩ :=
    step_replaced_ok bound done
  have added : s.tree.Takes
      (Label.under { kind := .nonTerminal, name := some name } parent).parent := takes
  obtain ⟨rfl, tree⟩ := (add_ok_iff added).mp node
  have size : inner.tree.size = s.tree.size + 1 := by rw [tree, size_add _ _ takes.thawed]
  have ready : Ready inner := by
    refine ⟨by rw [tree, frozen_add, takes.thawed], ?_⟩
    rw [opened, size]
    refine List.forall_mem_cons.mpr ⟨Nat.lt_succ_self _, ?_⟩
    exact contexts.mono (Nat.le_succ _)
  have kept : Kept plan.grammar replaced inner outer :=
    perform_ok each (uncaught name callback bound _) ready performed
  have advance := kept.advance
  rw [opened] at advance
  obtain ⟨children, advance, fit⟩ := advance.own contexts
  rw [size, ← tree_eq] at fit
  rw [tree, ← tree_eq] at advance
  obtain ⟨ds, shown, fits⟩ := showsAll_of_fits fun child member => (fit child member).2
  refine ⟨?_, advance.under takes, .node { kind := .nonTerminal, name := some name } ds,
    .replaced replaces defined (fits body defined), ?_⟩
  · rw [live_eq, kept.live_eq, opened, List.erase_cons_head]
  · exact shows_of_node? (advance.node?_under takes contexts)
      (fun child member => (fit child member).1) shown

theorem sound_step (classes : Generator.ClassesSound plan.grammar.registry plan.classes)
    (each : ∀ item parent, Sound plan.grammar plan.replacements.Binds item parent
      (expandOne item parent))
    (uncaught : plan.replacements.Uncaught) (rule : Rule) (parent : Option NodeId) :
    Sound plan.grammar plan.replacements.Binds rule parent (step plan expandOne rule parent) := by
  by_cases kept : ∀ name, rule = .nonTerminal name → plan.replacements.find? name = none
  · intro s s' takes contexts done
    obtain ⟨label, items, id, inner, outer, opens, opened⟩ := step_ok classes kept done
    refine sound_opened (fun item => each item _) opens (fun name same => ?_) opened takes contexts
    simp [Replacements.Binds, kept name same]
  · obtain ⟨name, replaced⟩ := Classical.not_forall.mp kept
    obtain ⟨rfl, bound⟩ := Classical.not_imp.mp replaced
    obtain ⟨callback, bound⟩ := Option.ne_none_iff_exists'.mp bound
    exact sound_replaced each uncaught bound (by simp [Replacements.Binds, bound]) parent

/-- Every completed expansion is a derivation of its rule. -/
theorem sound_expand (classes : Generator.ClassesSound plan.grammar.registry plan.classes)
    (uncaught : plan.replacements.Uncaught) (fuel : Nat) (rule : Rule) (parent : Option NodeId) :
    Sound plan.grammar plan.replacements.Binds rule parent
      (expand (σ := σ) plan fuel rule parent) := by
  induction fuel generalizing rule parent with
  | zero =>
    intro s s' _ _ done
    cases done
  | succ fuel ih =>
    intro s s' takes contexts done
    obtain ⟨t, stepped, rfl⟩ := nested_ok done
    exact sound_step classes ih uncaught rule parent { s with depth := s.depth + 1 } t takes
      contexts stepped

end Expand

namespace Generator

variable {σ κ : Type} [DecisionSource σ]

/-- If no callback catches faults, a completed run leaves a derivation of its start at the root,
whatever the source answered: every node as its rule opens it, every character in its class and not
excluded, every repetition with as many children as it counts, and below every production that has
a callback only written literals and derivations of its body. -/
theorem run_sound {grammar : Grammar} {bindings : List (Datum ⊕ Binding (Callback κ))}
    {default : Option (Callback κ)} {config : Config} {g : Generator κ}
    (made : new grammar bindings default config = .ok g) (integral : grammar.IntegralBounds)
    (uncaught : g.replacements.Uncaught) {call : Call} {start : Option String} {source : σ}
    {user : κ} (completed : (g.runWithin call start source user).outcome = .ok ()) :
    ∃ t name d, (g.runWithin call start source user).tree = .ok t ∧
      g.startOf start = .ok name ∧ t.Shows d 0 ∧
      grammar.Derives g.replacements.Binds (.nonTerminal name) d ∧ d.Counted := by
  have same : g.grammar = grammar := by
    obtain ⟨_, _, _, _, rfl⟩ := new_eq_ok made
    rfl
  obtain ⟨name, found, derived⟩ := runWithin_ok completed
  obtain ⟨last, expanded, final⟩ := derive_ok derived
  have sound : Expand.Sound g.grammar g.replacements.Binds (.nonTerminal name) none
      (Expand.expand (σ := σ) g.plan call.ceiling (.nonTerminal name) none) :=
    Expand.sound_expand (resolved_of_new made).sound uncaught call.ceiling _ none
  obtain ⟨_, _, d, derives, shown⟩ := sound _ _ Derivation.takes_empty (by simp [Tree.Before])
    expanded
  rw [same] at derives
  refine ⟨(g.runWithin call start source user).final.tree, name, d, ?_, found, ?_, derives,
    derives.counted integral (.inl ⟨name, rfl⟩)⟩
  · rw [Run.tree, completed]
    rfl
  · rw [final]
    exact shown.of_extends (Tree.extends_freeze _) (by simp)

def ending : Callback Unit := fun own => do
  Action.expandDefault own
  Action.write own (.str "!")

def ended : Generator Unit :=
  { grammar := .nesting, replacements := { default := some ending }, config := {}, classes := [] }

theorem ended_made : new .nesting [] (some ending) {} = .ok ended := by
  rw [new, resolveSets_nesting]
  rfl

theorem ended_uncaught : ended.replacements.Uncaught := by
  intro name callback bound target
  obtain rfl := Option.some.inj bound
  exact ⟨fun fault => ⟨fault, rfl⟩, fun fault => ⟨fault, rfl⟩, trivial⟩

theorem ended_run_sound :
    let r := ended.runWithin (.first 20) none
      ({ queue := [.repeats (.int 1), .repeats (.int 0)] } : Script) ()
    ∃ t name d, r.tree = .ok t ∧ ended.startOf none = .ok name ∧ t.Shows d 0 ∧
      Grammar.nesting.Derives ended.replacements.Binds (.nonTerminal name) d ∧ d.Counted :=
  run_sound ended_made Grammar.nesting_integral ended_uncaught (Run.completed (by decide +kernel))

end Generator

end SentenceGen
