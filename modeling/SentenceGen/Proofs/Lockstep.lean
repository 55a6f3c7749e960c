import SentenceGen.Decision.Script
import SentenceGen.Proofs.Steps

/-!
# Text and tree in lockstep

The output is kept twice, as pieces of text and as a tree.  Whatever an action does, faults and
their handling included, the tree grows by derivations under one parent and the text by the leaves
of those derivations, in the same order.  This needs that a replacement writes to its own context:
what it wrote to another one would have its text here and its node elsewhere.
-/

namespace SentenceGen

namespace Program

variable {κ α : Type}

/-- A program writes to and expands no context but its own. -/
def Local (own : Context) : Program κ α → Prop
  | .done _ => True
  | .write target _ next => target = own ∧ ∀ result, (next result).Local own
  | .expand target next => target = own ∧ ∀ result, (next result).Local own
  | .ask _ next => ∀ answer, (next answer).Local own
  | .look next => ∀ view, (next view).Local own
  | .store _ next => next.Local own

end Program

/-- Every callback uses the context that it is called with and no other. -/
def Replacements.Local {κ : Type} (r : Replacements (Callback κ)) : Prop :=
  ∀ name callback, r.find? name = some callback →
    ∀ target, (callback target).run.Local target

/-- The state with the text of a leaf at the end, unless it is empty. -/
def Expansion.spoken {σ κ : Type} (s : Expansion σ κ) (text : String) : Expansion σ κ :=
  if text = "" then s
  else { s with chunks := s.chunks.push text, size := s.size + text.length }

namespace Expand

open SentenceGen.Derivation

variable {σ κ α β : Type}

/-! ### States that differ by derivations -/

/-- The second state has the derivations too: in its tree under the parent, in its text last. -/
structure Grown (parent : Option NodeId) (more : List Derivation) (s s' : Expansion σ κ) :
    Prop where
  tree_eq : s'.tree = graftAll more parent s.tree
  chunks_eq : s'.chunks.toList = s.chunks.toList ++ leafTextsAll more
  size_eq : s'.size = s.size + (String.join (leafTextsAll more)).length

structure Alike (s s' : Expansion σ κ) : Prop where
  tree_eq : s'.tree = s.tree
  chunks_eq : s'.chunks = s.chunks
  size_eq : s'.size = s.size

theorem alike_refl (s : Expansion σ κ) : Alike s s := ⟨rfl, rfl, rfl⟩

theorem Alike.grown {s s' : Expansion σ κ} (h : Alike s s') (parent : Option NodeId) :
    Grown parent [] s s' :=
  ⟨h.tree_eq, by simp [h.chunks_eq, leafTextsAll], by simp [h.size_eq, leafTextsAll]⟩

theorem Alike.takes {s s' : Expansion σ κ} {parent : Option NodeId} (h : Alike s s')
    (takes : s.tree.Takes parent) : s'.tree.Takes parent := by
  rw [h.tree_eq]
  exact takes

theorem Grown.trans {parent : Option NodeId} {first second : List Derivation}
    {s t u : Expansion σ κ} (h : Grown parent first s t) (h' : Grown parent second t u) :
    Grown parent (first ++ second) s u where
  tree_eq := by rw [h'.tree_eq, h.tree_eq, graftAll_append]
  chunks_eq := by rw [h'.chunks_eq, h.chunks_eq, leafTextsAll_append, List.append_assoc]
  size_eq := by
    rw [h'.size_eq, h.size_eq, leafTextsAll_append, String.join_append, String.length_append,
      Nat.add_assoc]

theorem Grown.after_alike {parent : Option NodeId} {more : List Derivation}
    {s t u : Expansion σ κ} (same : Alike s t) (h : Grown parent more t u) :
    Grown parent more s u :=
  (same.grown parent).trans h

theorem Grown.alike_after {parent : Option NodeId} {more : List Derivation}
    {s t u : Expansion σ κ} (h : Grown parent more s t) (same : Alike t u) :
    Grown parent more s u := by
  simpa using h.trans (same.grown parent)

theorem Grown.takes {id : NodeId} {more : List Derivation} {s s' : Expansion σ κ}
    (h : Grown (some id) more s s') (takes : s.tree.Takes (some id)) :
    s'.tree.Takes (some id) := by
  obtain ⟨ids, grafted, _⟩ := Tree.grafted_graftAll more takes
  rw [h.tree_eq]
  exact grafted.takes takes

theorem Grown.of_leaf {parent : Option NodeId} {label : Label} (leaf : label.kind.isLeaf = true)
    (s : Expansion σ κ) : Grown parent [.node label []] s
      ({ s with tree := (s.tree.add (label.under parent)).2 }.spoken label.text) := by
  have texts : leafTextsAll [.node label []] = if label.text = "" then [] else [label.text] := by
    simp [leafTextsAll, leafTexts, leaf]
  unfold Expansion.spoken
  by_cases empty : label.text = ""
  · rw [if_pos empty] at texts ⊢
    refine ⟨rfl, ?_, ?_⟩ <;> simp [texts]
  · rw [if_neg empty] at texts ⊢
    refine ⟨rfl, ?_, ?_⟩ <;> simp [texts]

/-- What grows below an inner node that was just added makes up one derivation with it. -/
theorem Grown.of_inner {parent : Option NodeId} {label : Label} {children : List Derivation}
    {s t : Expansion σ κ} (inner : label.kind.isLeaf = false)
    (grown : Grown (some s.tree.size) children
      { s with tree := (s.tree.add (label.under parent)).2 } t) :
    Grown parent [.node label children] s t := by
  have texts : leafTextsAll [.node label children] = leafTextsAll children := by
    simp [leafTextsAll, leafTexts, inner]
  refine ⟨grown.tree_eq, ?_, ?_⟩
  · rw [grown.chunks_eq, texts]
  · rw [grown.size_eq, texts]

/-! ### Actions -/

/-- An action leaves the tree and the text as they are. -/
def Quiet (action : Expand σ κ α) : Prop := ∀ s, Alike s (action.exec s).2

/-- An action adds derivations under a parent, also if it fails. -/
def Grows (parent : Option NodeId) (action : Expand σ κ α) : Prop :=
  ∀ s, s.tree.Takes parent → ∃ more, Grown parent more s (action.exec s).2

/-- An action adds derivations under a parent, and exactly one if it completes. -/
def Sprouts (parent : Option NodeId) (action : Expand σ κ α) : Prop :=
  ∀ s, s.tree.Takes parent → ∃ more, Grown parent more s (action.exec s).2 ∧
    ∀ a, (action.exec s).1 = .ok a → ∃ d, more = [d]

variable {parent : Option NodeId}

theorem Sprouts.grows {action : Expand σ κ α} (h : Sprouts parent action) :
    Grows parent action := by
  intro s takes
  obtain ⟨more, grown, _⟩ := h s takes
  exact ⟨more, grown⟩

theorem Quiet.grows {action : Expand σ κ α} (h : Quiet action) (parent : Option NodeId) :
    Grows parent action :=
  fun s _ => ⟨[], (h s).grown parent⟩

theorem Grows.bind {id : NodeId} {action : Expand σ κ α} {next : α → Expand σ κ β}
    (first : Grows (some id) action) (second : ∀ a, Grows (some id) (next a)) :
    Grows (some id) (action >>= next) := by
  intro s takes
  obtain ⟨more, grown⟩ := first s takes
  rw [exec_bind]
  split
  next a t done =>
    rw [done] at grown
    obtain ⟨others, grownToo⟩ := second a t (grown.takes takes)
    exact ⟨more ++ others, grown.trans grownToo⟩
  next fault t failed =>
    rw [failed] at grown
    exact ⟨more, grown⟩

theorem Quiet.bind {action : Expand σ κ α} {next : α → Expand σ κ β} (first : Quiet action)
    (second : ∀ a, Sprouts parent (next a)) : Sprouts parent (action >>= next) := by
  intro s takes
  have same := first s
  rw [exec_bind]
  split
  next a t done =>
    rw [done] at same
    obtain ⟨more, grown, one⟩ := second a t (same.takes takes)
    exact ⟨more, grown.after_alike same, one⟩
  next fault t failed =>
    rw [failed] at same
    exact ⟨[], same.grown parent, nofun⟩

theorem Grows.leaving {exit : Expansion σ κ → Expansion σ κ} {action : Expand σ κ α}
    (h : Grows parent action) (quiet : ∀ s, Alike s (exit s)) :
    Grows parent (leaving exit action) := by
  intro s takes
  obtain ⟨more, grown⟩ := h s takes
  exact ⟨more, grown.alike_after (quiet _)⟩

theorem Sprouts.leaving {exit : Expansion σ κ → Expansion σ κ} {action : Expand σ κ α}
    (h : Sprouts parent action) (quiet : ∀ s, Alike s (exit s)) :
    Sprouts parent (leaving exit action) := by
  intro s takes
  obtain ⟨more, grown, one⟩ := h s takes
  exact ⟨more, grown.alike_after (quiet _), one⟩

theorem quiet_pure (a : α) : Quiet (pure a : Expand σ κ α) := fun s => alike_refl s

theorem quiet_throw (fault : Fault) : Quiet (throw fault : Expand σ κ α) := fun s => alike_refl s

theorem quiet_lift (result : Except Fault α) : Quiet (liftM result : Expand σ κ α) :=
  fun s => alike_refl s

theorem quiet_get : Quiet (get : Expand σ κ (Expansion σ κ)) := fun s => alike_refl s

theorem quiet_nextSite : Quiet (nextSite : Expand σ κ RepetitionSite) := fun _ => ⟨rfl, rfl, rfl⟩

theorem quiet_ask [DecisionSource σ] (q : Question) : Quiet (ask q : Expand σ κ Datum) :=
  fun _ => ⟨rfl, rfl, rfl⟩

theorem quiet_modify {f : Expansion σ κ → Expansion σ κ} (h : ∀ s, Alike s (f s)) :
    Quiet (modify f : Expand σ κ PUnit) := h

theorem quiet_requireOpen (target : Context) : Quiet (requireOpen target : Expand σ κ Unit) := by
  intro s
  rw [exec_requireOpen]
  exact alike_refl s

theorem grows_forM {id : NodeId} {act : Rule → Expand σ κ Unit} (items : List Rule)
    (each : ∀ item, Grows (some id) (act item)) : Grows (some id) (items.forM act) := by
  induction items with
  | nil => exact (quiet_pure _).grows _
  | cons item rest ih => exact (each item).bind fun _ => ih

/-! ### Adding nodes -/

/-- Adding a leaf and its text adds one derivation, even if the text is refused. -/
theorem sprouts_leaf (plan : Plan κ) (label : Label) (leaf : label.kind.isLeaf = true) :
    Sprouts parent (do
      let _ ← addNode (label.under parent)
      unless label.text = "" do append plan label.text : Expand σ κ Unit) := by
  intro s takes
  have grown : Grown parent [.node label []] s _ := .of_leaf leaf s
  refine ⟨[.node label []], ?_, fun _ _ => ⟨_, rfl⟩⟩
  rw [exec_bind_of_ok (exec_addNode_of_takes takes)]
  unfold Expansion.spoken at grown
  by_cases empty : label.text = ""
  · rw [if_pos empty] at grown ⊢
    exact grown
  · rw [if_neg empty] at grown ⊢
    rw [exec_append]
    exact grown

/-- Adding an inner node and derivations below it adds one derivation. -/
theorem sprouts_inner (label : Label) (inner : label.kind.isLeaf = false)
    {below : NodeId → Expand σ κ α} (grows : ∀ id, Grows (some id) (below id)) :
    Sprouts parent (do
      let node ← addNode (label.under parent)
      below node) := by
  intro s takes
  have added : s.tree.Takes (label.under parent).parent := takes
  rw [exec_bind_of_ok (exec_addNode_of_takes takes)]
  obtain ⟨children, grown⟩ :=
    grows s.tree.size { s with tree := (s.tree.add (label.under parent)).2 } added.add
  exact ⟨[.node label children], .of_inner inner grown, fun _ _ => ⟨_, rfl⟩⟩

/-! ### The engine -/

theorem sprouts_emit (plan : Plan κ) (text : String) :
    Sprouts parent (emit plan text parent : Expand σ κ Unit) := by
  exact sprouts_leaf plan { kind := .literal, text } rfl

theorem grows_writeTo (plan : Plan κ) (target : Context) (text : Datum) :
    Grows (some target.node) (writeTo plan target text : Expand σ κ Unit) := by
  apply ((quiet_requireOpen target).grows _).bind
  intro _
  cases text with
  | str text => exact (sprouts_emit plan text).grows
  | _ => exact (quiet_throw _).grows _

variable {plan : Plan κ} {expandOne : Rule → Option NodeId → Expand σ κ Unit}

theorem grows_expandIn (each : ∀ rule parent, Sprouts parent (expandOne rule parent))
    (target : Context) : Grows (some target.node) (expandIn plan expandOne target) := by
  apply ((quiet_requireOpen target).grows _).bind
  intro _
  apply ((quiet_lift _).grows _).bind
  intro body
  exact (each body _).grows

theorem sprouts_nested {action : Expand σ κ Unit} (h : Sprouts parent action) :
    Sprouts parent (nested plan action) := by
  refine (quiet_modify ?_).bind fun _ => ?_
  · exact fun _ => ⟨rfl, rfl, rfl⟩
  · refine Sprouts.leaving ?_ fun _ => ⟨rfl, rfl, rfl⟩
    apply quiet_get.bind
    intro s
    split
    next cutoff _ =>
      split
      · exact h
      · exact (quiet_throw _).bind fun _ => h
    next => exact h

variable [DecisionSource σ]

/-- Every request of a local program adds derivations under the node of its context. -/
theorem grows_perform (each : ∀ rule parent, Sprouts parent (expandOne rule parent))
    {own : Context} (program : Program κ α) (isLocal : program.Local own) (s : Expansion σ κ)
    (takes : s.tree.Takes (some own.node)) :
    ∃ more, Grown (some own.node) more s ((perform plan expandOne program).run s).2 := by
  induction program generalizing s with
  | done result => exact ⟨[], (alike_refl s).grown _⟩
  | write target text next ih =>
    obtain ⟨rfl, further⟩ := isLocal
    obtain ⟨more, grown⟩ := grows_writeTo plan target text s takes
    obtain ⟨others, grownToo⟩ := ih _ (further _) _ (grown.takes takes)
    exact ⟨more ++ others, grown.trans grownToo⟩
  | expand target next ih =>
    obtain ⟨rfl, further⟩ := isLocal
    have expanded : Grows (some target.node) (expandIn plan expandOne target) :=
      grows_expandIn each target
    obtain ⟨more, grown⟩ := expanded s takes
    obtain ⟨others, grownToo⟩ := ih _ (further _) _ (grown.takes takes)
    exact ⟨more ++ others, grown.trans grownToo⟩
  | ask question next ih =>
    obtain ⟨more, grown⟩ := ih _ (isLocal _) ((ask question).exec s).2 takes
    exact ⟨more, grown.after_alike (quiet_ask question s)⟩
  | look next ih => exact ih _ (isLocal _) s takes
  | store user next ih =>
    have same : Alike s { s with user } := ⟨rfl, rfl, rfl⟩
    obtain ⟨more, grown⟩ := ih isLocal { s with user } takes
    exact ⟨more, grown.after_alike same⟩

theorem grows_replace (each : ∀ rule parent, Sprouts parent (expandOne rule parent))
    {callback : Callback κ} {target : Context} (isLocal : (callback target).run.Local target) :
    Grows (some target.node) (replace plan expandOne callback target) := by
  refine ((quiet_modify ?_).grows _).bind fun _ => ?_
  · exact fun _ => ⟨rfl, rfl, rfl⟩
  · refine Grows.leaving ?_ fun _ => ⟨rfl, rfl, rfl⟩
    exact fun s takes => grows_perform each _ isLocal s takes

theorem sprouts_step (each : ∀ rule parent, Sprouts parent (expandOne rule parent))
    (isLocal : plan.replacements.Local) (rule : Rule) (parent : Option NodeId) :
    Sprouts parent (step plan expandOne rule parent) := by
  have below (id : NodeId) (item : Rule) : Grows (some id) (expandOne item (some id)) :=
    (each item (some id)).grows
  cases rule with
  | literal text => exact sprouts_emit plan text
  | sequence items =>
    exact sprouts_inner { kind := .sequence } rfl fun id => grows_forM items (below id)
  | alternative items =>
    apply (quiet_ask _).bind
    intro answer
    apply (quiet_lift _).bind
    rintro ⟨index, item⟩
    exact sprouts_inner { kind := .alternative, value := .int index } rfl fun id =>
      below id item
  | optional item =>
    apply (quiet_ask _).bind
    intro answer
    apply sprouts_inner { kind := .optional, value := .bool answer.truthy } rfl
    intro id
    split
    · exact below id item
    · exact (quiet_pure _).grows _
  | repetition item bounds =>
    apply quiet_nextSite.bind
    intro site
    apply (quiet_ask _).bind
    intro answer
    apply (quiet_lift _).bind
    intro count
    apply sprouts_inner { kind := .repetition, value := .int count } rfl
    intro id
    rw [times_eq_forM fun item => expandOne item (some id)]
    exact grows_forM _ (below id)
  | nonTerminal name =>
    apply (quiet_lift _).bind
    intro body
    apply sprouts_inner { kind := .nonTerminal, name := some name } rfl
    intro id
    refine ((quiet_modify ?_).grows _).bind fun _ => ?_
    · exact fun _ => ⟨rfl, rfl, rfl⟩
    · refine Grows.leaving ?_ fun _ => ⟨rfl, rfl, rfl⟩
      split
      next => exact below id body
      next callback bound =>
        exact fun s => grows_replace each (isLocal name callback bound ⟨s.call, id, name⟩) s
  | characters set =>
    apply (quiet_lift _).bind
    intro members
    apply (quiet_ask _).bind
    intro answer
    apply (quiet_lift _).bind
    intro codepoint
    have present : (Char.ofNat codepoint).toString ≠ "" := by simp [Char.toString]
    have leaf : Sprouts parent (σ := σ) _ := sprouts_leaf plan
      { kind := .character, name := some set.name, text := (Char.ofNat codepoint).toString
        value := .int codepoint } rfl
    simpa only [Label.under, if_neg present] using leaf
  | stray value => exact fun s _ => ⟨[], (alike_refl s).grown _, nofun⟩

/-- Expanding a rule adds one derivation, or, if it fails, at most what was begun. -/
theorem sprouts_expand (isLocal : plan.replacements.Local) (fuel : Nat) (rule : Rule)
    (parent : Option NodeId) : Sprouts parent (expand (σ := σ) plan fuel rule parent) := by
  induction fuel generalizing rule parent with
  | zero => exact fun s _ => ⟨[], (alike_refl s).grown _, nofun⟩
  | succ fuel ih => exact sprouts_nested (sprouts_step ih isLocal rule parent)

end Expand

/-- A sink that also keeps, in order, the texts that it was handed. -/
def Sink.watched {τ : Type} (sink : Sink τ) : Sink (τ × List String) := fun text (state, handed) =>
  let (accepted, state) := sink text state
  (accepted, state, handed ++ [text])

namespace Generator

open SentenceGen.Derivation

variable {σ κ : Type} [DecisionSource σ]

/-- The tree that a completed run leaves is that of one derivation, and so is its text. -/
theorem runWithin_grown {g : Generator κ} (isLocal : g.replacements.Local) {call : Call}
    {start : Option String} {source : σ} {user : κ}
    (done : (g.runWithin call start source user).outcome = .ok ()) :
    ∃ d : Derivation, (g.runWithin call start source user).final.tree = d.toTree.freeze ∧
      (g.runWithin call start source user).final.text = d.text ∧
      (g.runWithin call start source user).final.size = d.text.length := by
  obtain ⟨name, _, derived⟩ := runWithin_ok done
  obtain ⟨last, expanded, same⟩ := derive_ok derived
  have sprouts : Expand.Sprouts none
      (Expand.expand (σ := σ) g.plan call.ceiling (.nonTerminal name) none) :=
    Expand.sprouts_expand isLocal call.ceiling _ none
  obtain ⟨more, grown, one⟩ := sprouts (call.begin source user) takes_empty
  rw [expanded] at grown one
  obtain ⟨d, rfl⟩ := one () rfl
  have texts : leafTextsAll [d] = d.leafTexts := by simp [leafTextsAll]
  refine ⟨d, ?_, ?_, ?_⟩
  · rw [same, grown.tree_eq]
    rfl
  · rw [same, Expansion.text, grown.chunks_eq, texts, text]
    rfl
  · rw [same, grown.size_eq, texts]
    exact Nat.zero_add _

/-- Whatever the callbacks catch, a run that completes has the same sentence as its text, as the
rendering of its tree and as what its sink is handed, exactly once; a run that fails hands nothing
to any sink. -/
theorem run_lockstep (g : Generator κ) (isLocal : g.replacements.Local) (call : Call)
    (start : Option String) (source : σ) (user : κ) :
    let r := g.runWithin call start source user
    (r.outcome = .ok () → ∃ t, r.tree = .ok t ∧ r.text = .ok (t.render 0) ∧
      String.join r.final.chunks.toList = t.render 0 ∧ r.final.size = (t.render 0).length ∧
      ∀ {τ : Type} (sink : Sink τ) (state : τ), r.deliver sink.watched (state, []) =
        ((sink (t.render 0) state).1.map fun _ => (t.render 0).length,
          (sink (t.render 0) state).2, [t.render 0])) ∧
    ∀ fault, r.outcome = .error fault → r.tree = .error fault ∧ r.text = .error fault ∧
      ∀ {τ : Type} (sink : Sink τ) (state : τ),
        r.deliver sink.watched (state, []) = (.error fault, state, []) := by
  intro r
  constructor
  · intro done
    obtain ⟨d, tree, text, size⟩ := runWithin_grown isLocal done
    have rendered : r.final.tree.render 0 = r.final.text := by
      rw [tree, text, d.render_toTree_freeze]
    refine ⟨r.final.tree, ?_, ?_, ?_, ?_, fun sink state => ?_⟩
    · rw [Run.tree, done]
      rfl
    · rw [Run.text, done, rendered]
      rfl
    · exact rendered.symm
    · rw [rendered, text, size]
    · rw [Run.deliver, done, rendered, text, ← size]
      rfl
  · intro fault failed
    refine ⟨?_, ?_, fun sink state => ?_⟩
    · rw [Run.tree, failed]
      rfl
    · rw [Run.text, failed]
      rfl
    · rw [Run.deliver, failed]

/-- Marks the end of every production, after an attempt that is refused and caught. -/
def marked : Generator Unit where
  grammar := .nesting
  replacements.default := some fun own => do
    try Action.write own .null
    catch _ => pure ()
    Action.expandDefault own
    Action.write own (.str "!")
  config := {}
  classes := []

theorem marked_local : marked.replacements.Local := by
  intro name callback bound target
  obtain rfl := Option.some.inj bound
  refine ⟨rfl, fun refused => ?_⟩
  cases refused <;> refine ⟨rfl, fun expanded => ?_⟩ <;> cases expanded <;>
    first
    | exact trivial
    | exact ⟨rfl, fun _ => trivial⟩

theorem marked_run_lockstep :
    let script : Script := { queue := [.repeats (.int 1), .repeats (.int 0)] }
    let r := marked.runWithin (.first 20) none script ()
    ∃ t, r.tree = .ok t ∧ r.text = .ok (t.render 0) ∧ r.text.toOption = some "aa!!" := by
  intro script r
  have done : r.outcome = .ok () := Run.completed (by decide +kernel)
  obtain ⟨t, tree, text, _⟩ := (run_lockstep marked marked_local (.first 20) none _ ()).1 done
  exact ⟨t, tree, text, by decide +kernel⟩

end Generator

end SentenceGen
