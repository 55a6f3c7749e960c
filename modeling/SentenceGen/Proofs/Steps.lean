import SentenceGen.Proofs.CharacterSets
import SentenceGen.Proofs.Growth

/-!
# What steps do

An action is run from a state to an outcome and the state that it leaves.  Each building block of
the engine has one equation for its run.  From these, one completed step is inverted: whatever the
rule, the source answered at most one question, one node was added with the label of the answer, and
then the rules inside were expanded under that node.
-/

namespace SentenceGen

/-- What the engine takes from an answer: of the answer for an optional rule only its truth. -/
def Question.settled (q : Question) (answer : Datum) : Datum :=
  match q with
  | .optional => .bool answer.truthy
  | _ => answer

theorem Cutoff.ofDatum?_int (n : Nat) : ofDatum? (.int n) = some ⟨.int n, n⟩ := by
  have whole : (Decimal.Magnitude.ofInt n).floor? = some (n : Int) :=
    congrArg some (Rat.floor_intCast n)
  change ((Decimal.Magnitude.ofInt n).floor?.map _) = _
  rw [whole]
  rfl

theorem Cutoff.given_of_ofDatum? {d : Datum} {cutoff : Cutoff} (h : cutoff ∈ ofDatum? d) :
    d = cutoff.given ∧ d ≠ .null := by
  obtain ⟨n, floor, rfl⟩ := Option.map_eq_some_iff.mp h
  refine ⟨rfl, ?_⟩
  rintro rfl
  cases floor

theorem Cutoff.admits_mono {cutoff : Cutoff} {m n : Nat} (h : cutoff.admits n = true)
    (le : m ≤ n) : cutoff.admits m = true := by
  have bounded : n ≤ cutoff.bound := of_decide_eq_true h
  exact decide_eq_true (Nat.le_trans le bounded)

def faultOf {α : Type} : Except Fault α → Option Fault
  | .ok _ => none
  | .error fault => some fault

@[simp] theorem faultOf_ok {α : Type} (a : α) : faultOf (.ok a) = none := rfl

@[simp] theorem faultOf_error {α : Type} (fault : Fault) :
    faultOf (.error fault : Except Fault α) = some fault := rfl

theorem mem_faultOf {α : Type} {result : Except Fault α} {fault : Fault} :
    fault ∈ faultOf result ↔ result = .error fault := by
  cases result <;> simp

namespace Expand

variable {σ κ α β : Type}

/-- The outcome of an action from a state, and the state that it leaves. -/
def exec (action : Expand σ κ α) (s : Expansion σ κ) : Except Fault α × Expansion σ κ :=
  action.run.run s

/-! ### Runs of the building blocks -/

@[simp] theorem exec_pure (a : α) (s : Expansion σ κ) :
    (pure a : Expand σ κ α).exec s = (.ok a, s) := rfl

@[simp] theorem exec_lift (result : Except Fault α) (s : Expansion σ κ) :
    (liftM result : Expand σ κ α).exec s = (result, s) := rfl

@[simp] theorem exec_get (s : Expansion σ κ) : (get : Expand σ κ _).exec s = (.ok s, s) := rfl

@[simp] theorem exec_modify (f : Expansion σ κ → Expansion σ κ) (s : Expansion σ κ) :
    (modify f : Expand σ κ PUnit).exec s = (.ok ⟨⟩, f s) := rfl

theorem exec_bind (action : Expand σ κ α) (next : α → Expand σ κ β) (s : Expansion σ κ) :
    (action >>= next).exec s =
      match action.exec s with
      | (.ok a, t) => (next a).exec t
      | (.error fault, t) => (.error fault, t) := by
  simp only [exec, ExceptT.run_bind, StateT.run_bind]
  change (match action.run.run s with | (result, t) => _) = _
  obtain ⟨_ | _, _⟩ := action.run.run s <;> rfl

theorem exec_bind_of_ok {action : Expand σ κ α} {next : α → Expand σ κ β} {s t : Expansion σ κ}
    {a : α} (h : action.exec s = (.ok a, t)) : (action >>= next).exec s = (next a).exec t := by
  rw [exec_bind, h]

theorem exec_bind_of_error {action : Expand σ κ α} {next : α → Expand σ κ β} {s t : Expansion σ κ}
    {fault : Fault} (h : action.exec s = (.error fault, t)) :
    (action >>= next).exec s = (.error fault, t) := by
  rw [exec_bind, h]

theorem exec_bind_ok {action : Expand σ κ α} {next : α → Expand σ κ β} {s u : Expansion σ κ}
    {b : β} : (action >>= next).exec s = (.ok b, u) ↔
      ∃ a t, action.exec s = (.ok a, t) ∧ (next a).exec t = (.ok b, u) := by
  rw [exec_bind]
  constructor
  · intro h
    split at h
    next a t first => exact ⟨a, t, first, h⟩
    next => cases h
  · rintro ⟨a, t, first, second⟩
    rw [first]
    exact second

@[simp] theorem exec_leaving (exit : Expansion σ κ → Expansion σ κ) (action : Expand σ κ α)
    (s : Expansion σ κ) :
    (leaving exit action).exec s = ((action.exec s).1, exit (action.exec s).2) := rfl

theorem exec_leaving_ok {exit : Expansion σ κ → Expansion σ κ} {action : Expand σ κ α}
    {s u : Expansion σ κ} {a : α} : (leaving exit action).exec s = (.ok a, u) ↔
      ∃ t, action.exec s = (.ok a, t) ∧ u = exit t := by
  rw [exec_leaving]
  constructor
  · intro h
    obtain ⟨outcome, left⟩ := Prod.mk.inj h
    exact ⟨(action.exec s).2, Prod.ext outcome rfl, left.symm⟩
  · rintro ⟨t, done, rfl⟩
    rw [done]

@[simp] theorem exec_ask [DecisionSource σ] (q : Question) (s : Expansion σ κ) :
    (ask q : Expand σ κ Datum).exec s =
      ((DecisionSource.ask q s.source).1, { s with source := (DecisionSource.ask q s.source).2 }) :=
  rfl

theorem exec_ask_of_eq [DecisionSource σ] {q : Question} {s : Expansion σ κ}
    {result : Except Fault Datum} {source : σ}
    (asked : DecisionSource.ask q s.source = (result, source)) :
    (ask q).exec s = (result, { s with source }) := by
  rw [exec_ask, asked]

@[simp] theorem exec_addNode (node : Node) (s : Expansion σ κ) :
    (addNode node).exec s = ((s.tree.add node).1, { s with tree := (s.tree.add node).2 }) := rfl

theorem exec_addNode_of_takes {label : Label} {parent : Option NodeId}
    {s : Expansion σ κ} (takes : s.tree.Takes parent) :
    (addNode (label.under parent)).exec s =
      (.ok s.tree.size, { s with tree := (s.tree.add (label.under parent)).2 }) := by
  have added : s.tree.Takes (label.under parent).parent := takes
  rw [exec_addNode, Tree.add_eq added]

@[simp] theorem exec_nextSite (s : Expansion σ κ) :
    nextSite.exec s =
      (.ok { index := .int s.sites, production := s.productions.head? },
        { s with sites := s.sites + 1 }) := rfl

@[simp] theorem exec_ownCall (s : Expansion σ κ) :
    (ownCall : Expand σ κ Nat).exec s = (.ok s.call, s) := rfl

@[simp] theorem exec_ownCall_bind (next : Nat → Expand σ κ α) (s : Expansion σ κ) :
    (ownCall >>= next).exec s = (next s.call).exec s := rfl

/-- The outcome of appending text: a fault if the text crosses the cutoff. -/
def appendOutcome (plan : Plan κ) (size : Nat) : Except Fault Unit :=
  match plan.maxSize with
  | some cutoff =>
    if cutoff.admits size then .ok () else .error (.tooLarge cutoff.given (.int size))
  | none => .ok ()

theorem exec_append (plan : Plan κ) (text : String) (s : Expansion σ κ) :
    (append plan text).exec s =
      (appendOutcome plan (s.size + text.length),
        { s with chunks := s.chunks.push text, size := s.size + text.length }) := by
  simp only [append, exec_bind, exec_modify, exec_get, appendOutcome]
  cases plan.maxSize with
  | none => rfl
  | some cutoff =>
    simp only
    split <;> rfl

/-- The outcome of entering a level of nesting: a fault if its depth crosses the cutoff. -/
def levelOutcome (plan : Plan κ) (depth : Nat) (productions : List String) : Except Fault Unit :=
  match plan.maxDepth with
  | some cutoff =>
    if cutoff.admits depth then .ok ()
    else .error (.tooDeep cutoff.given (productions.head?.elim .null .str))
  | none => .ok ()

theorem exec_nested (plan : Plan κ) (action : Expand σ κ Unit) (s : Expansion σ κ) :
    (nested plan action).exec s =
      match levelOutcome plan (s.depth + 1) s.productions with
      | .ok () =>
        let (outcome, t) := action.exec { s with depth := s.depth + 1 }
        (outcome, { t with depth := t.depth - 1 })
      | .error fault => (.error fault, s) := by
  simp only [nested, exec_bind, exec_modify, exec_leaving, exec_get, levelOutcome]
  cases plan.maxDepth with
  | none => rfl
  | some cutoff =>
    simp only
    split <;> rfl

theorem exec_requireOpen (target : Context) (s : Expansion σ κ) :
    (requireOpen target : Expand σ κ Unit).exec s =
      (if s.live.contains target then .ok () else .error (.contextClosed target.name), s) := by
  simp only [requireOpen, exec_bind, exec_get]
  split <;> rfl

theorem times_eq_forM (expandOne : Rule → Expand σ κ Unit) (item : Rule) (n : Nat) :
    times n (expandOne item) = (List.replicate n item).forM expandOne := by
  induction n with
  | zero => rfl
  | succ n ih => simp [times, List.replicate_succ, ih]

section

variable [DecisionSource σ] (plan : Plan κ) (expandOne : Rule → Option NodeId → Expand σ κ Unit)
  (s : Expansion σ κ)

theorem run_perform_write (target : Context) (text : Datum)
    (next : Except Fault Unit → Program κ α) :
    (perform plan expandOne (.write target text next)).run s =
      (perform plan expandOne (next ((writeTo plan target text).exec s).1)).run
        ((writeTo plan target text).exec s).2 := rfl

theorem run_perform_expand (target : Context) (next : Except Fault Unit → Program κ α) :
    (perform plan expandOne (.expand target next)).run s =
      (perform plan expandOne (next ((expandIn plan expandOne target).exec s).1)).run
        ((expandIn plan expandOne target).exec s).2 := rfl

theorem run_perform_ask (question : Question) (next : Except Fault Datum → Program κ α) :
    (perform plan expandOne (.ask question next)).run s =
      (perform plan expandOne (next ((ask question).exec s).1)).run
        ((ask question).exec s).2 := rfl

end

/-! ### One completed step -/

/-- The source answers the question behind a label, or is left alone if there is none. -/
def Answered [DecisionSource σ] (label : Label) (source source' : σ) : Prop :=
  match label.decision? with
  | none => source' = source
  | some d => ∃ q answer, q.kind = d.kind ∧ DecisionSource.ask q source = (.ok answer, source') ∧
      q.settled answer = d.value

/-- How a completed step went: a node was added at `id`, then `items` were expanded under it. -/
structure Opened [DecisionSource σ] (expandOne : Rule → Option NodeId → Expand σ κ Unit)
    (parent : Option NodeId) (label : Label) (items : List Rule) (id : NodeId)
    (s inner outer s' : Expansion σ κ) : Prop where
  answered : Answered label s.source inner.source
  added : s.tree.add (label.under parent) = (.ok id, inner.tree)
  live : inner.live = s.live
  below : (items.forM fun item => expandOne item (some id)).exec inner = (.ok (), outer)
  tree_eq : s'.tree = outer.tree
  live_eq : s'.live = outer.live
  source_eq : s'.source = outer.source

theorem ask_ok [DecisionSource σ] {q : Question} {s t : Expansion σ κ} {answer : Datum}
    (h : (ask q : Expand σ κ Datum).exec s = (.ok answer, t)) :
    ∃ source, DecisionSource.ask q s.source = (.ok answer, source) ∧ t = { s with source } := by
  rw [exec_ask] at h
  obtain ⟨outcome, left⟩ := Prod.mk.inj h
  exact ⟨_, Prod.ext outcome rfl, left.symm⟩

theorem addNode_ok {node : Node} {s t : Expansion σ κ} {id : NodeId}
    (h : (addNode node).exec s = (.ok id, t)) :
    ∃ tree, s.tree.add node = (.ok id, tree) ∧ t = { s with tree } := by
  rw [exec_addNode] at h
  obtain ⟨outcome, left⟩ := Prod.mk.inj h
  exact ⟨_, Prod.ext outcome rfl, left.symm⟩

theorem append_ok {plan : Plan κ} {text : String} {s t : Expansion σ κ}
    (h : (append plan text).exec s = (.ok (), t)) :
    t.tree = s.tree ∧ t.live = s.live ∧ t.source = s.source := by
  rw [exec_append] at h
  obtain ⟨_, rfl⟩ := Prod.mk.inj h
  exact ⟨rfl, rfl, rfl⟩

theorem emit_ok {plan : Plan κ} {text : String} {parent : Option NodeId} {s t : Expansion σ κ}
    (h : (emit plan text parent).exec s = (.ok (), t)) :
    ∃ id, s.tree.add (Label.under { kind := .literal, text } parent) = (.ok id, t.tree) ∧
      t.live = s.live ∧ t.source = s.source := by
  simp only [emit, exec_bind_ok] at h
  obtain ⟨id, u, added, appended⟩ := h
  obtain ⟨tree, node, rfl⟩ := addNode_ok added
  split at appended
  · cases appended
    exact ⟨id, node, rfl, rfl⟩
  · obtain ⟨tree_eq, live_eq, source_eq⟩ := append_ok appended
    exact ⟨id, by rw [tree_eq]; exact node, live_eq, source_eq⟩

theorem lift_ok {result : Except Fault α} {s t : Expansion σ κ} {a : α}
    (h : (liftM result : Expand σ κ α).exec s = (.ok a, t)) : result = .ok a ∧ s = t := by
  rw [exec_lift] at h
  exact Prod.mk.inj h

theorem properInt?_eq_some {d : Datum} {n : Int} : d.properInt? = some n ↔ d = .int n := by
  cases d <;> simp [Datum.properInt?]

theorem branchOf_ok {items : List Rule} {answer : Datum} {index : Nat} {item : Rule}
    (h : branchOf items answer = .ok (index, item)) :
    answer = .int index ∧ items[index]? = some item := by
  unfold branchOf at h
  split at h
  next given =>
    split at h
    next found =>
      cases h
      exact ⟨properInt?_eq_some.mp given, found⟩
    next => cases h
  next => cases h

theorem countOf_ok {bounds : Bounds} {site : RepetitionSite} {answer : Datum} {count : Int}
    (h : countOf bounds site answer = .ok count) :
    answer = .int count ∧ bounds.admits count = true := by
  unfold countOf at h
  split at h
  next given =>
    cases h
    obtain ⟨int, admitted⟩ := Option.filter_eq_some_iff.mp given
    exact ⟨properInt?_eq_some.mp int, admitted⟩
  next => cases h

theorem memberOf_ok {c : CharacterClass} {className : String} {answer : Datum} {codepoint : Nat}
    (h : memberOf c className answer = .ok codepoint) :
    answer = .int codepoint ∧ codepoint ∈ c := by
  unfold memberOf at h
  split at h
  next n given =>
    cases h
    obtain ⟨int, member⟩ := Option.filter_eq_some_iff.mp given
    simp only [CharacterClass.hasInt, Bool.and_eq_true, decide_eq_true_eq] at member
    refine ⟨?_, member.2⟩
    rw [properInt?_eq_some.mp int, Int.toNat_of_nonneg member.1]
  next => cases h

theorem memberOf_of_mem {c : CharacterClass} {codepoint : Nat} (member : codepoint ∈ c)
    (className : String) : memberOf c className (.int codepoint) = .ok codepoint := by
  simp [memberOf, Datum.properInt?, Option.filter, CharacterClass.hasInt_natCast, member]

theorem branchOf_of_getElem? {items : List Rule} {index : Nat} {item : Rule}
    (branch : items[index]? = some item) : branchOf items (.int index) = .ok (index, item) := by
  simp [branchOf, Datum.properInt?, branch]

theorem countOf_of_admits {bounds : Bounds} {count : Int} (admitted : bounds.admits count = true)
    (site : RepetitionSite) : countOf bounds site (.int count) = .ok count := by
  simp [countOf, Datum.properInt?, Option.filter, admitted]

theorem production_ok {g : Grammar} {name : String} {body : Rule}
    (h : g.production name = .ok body) : g.body? name = some body := by
  unfold Grammar.production at h
  split at h
  next found =>
    cases h
    exact found
  next => cases h

theorem classOf_ok {plan : Plan κ}
    (sound : Generator.ClassesSound plan.grammar.registry plan.classes)
    {set : CharacterSet} {members : CharacterClass} (h : classOf plan set = .ok members) :
    ∃ whole, plan.grammar.registry.resolve set.name = .ok whole ∧
      members = whole.remove set.points := by
  unfold classOf at h
  split at h
  next found =>
    cases h
    obtain ⟨whole, resolved, removed⟩ := Registry.ofSet_eq_ok.mp (sound set _ found)
    exact ⟨whole, resolved, removed.symm⟩
  next => cases h

variable {plan : Plan κ} {s s' : Expansion σ κ}

/-- A completed level of nesting is the completed action, with the depth counted. -/
theorem nested_ok {action : Expand σ κ Unit} (done : (nested plan action).exec s = (.ok (), s')) :
    ∃ t, action.exec { s with depth := s.depth + 1 } = (.ok (), t) ∧
      s' = { t with depth := t.depth - 1 } := by
  rw [exec_nested] at done
  split at done
  · obtain ⟨outcome, left⟩ := Prod.mk.inj done
    exact ⟨_, Prod.ext outcome rfl, left.symm⟩
  · cases done

theorem forM_cons_ok {act : Rule → Expand σ κ Unit} {item : Rule} {rest : List Rule} :
    ((item :: rest).forM act).exec s = (.ok (), s') ↔
      ∃ t, (act item).exec s = (.ok (), t) ∧ (rest.forM act).exec t = (.ok (), s') := by
  change (act item >>= fun _ => rest.forM act).exec s = _ ↔ _
  rw [exec_bind_ok]
  exact ⟨fun ⟨_, t, first, others⟩ => ⟨t, first, others⟩,
    fun ⟨t, first, others⟩ => ⟨(), t, first, others⟩⟩

variable [DecisionSource σ] {expandOne : Rule → Option NodeId → Expand σ κ Unit}
  {parent : Option NodeId}

/-- A completed step of a rule that is not replaced opens a node as the grammar says. -/
theorem step_ok (sound : Generator.ClassesSound plan.grammar.registry plan.classes) {rule : Rule}
    (kept : ∀ name, rule = .nonTerminal name → plan.replacements.find? name = none)
    (done : (step plan expandOne rule parent).exec s = (.ok (), s')) :
    ∃ label items id inner outer, plan.grammar.Opens rule label items ∧
      Opened expandOne parent label items id s inner outer s' := by
  cases rule with
  | literal text =>
    obtain ⟨id, node, live_eq, source_eq⟩ := emit_ok done
    exact ⟨_, _, id, { s with tree := s'.tree }, _, .literal text,
      { answered := rfl, added := node, live := rfl, below := rfl, tree_eq := rfl, live_eq
        source_eq }⟩
  | sequence items =>
    simp only [step, exec_bind_ok] at done
    obtain ⟨id, inner, added, below⟩ := done
    obtain ⟨tree, node, rfl⟩ := addNode_ok added
    exact ⟨_, _, id, { s with tree }, s', .sequence items,
      { answered := rfl, added := node, live := rfl, below, tree_eq := rfl, live_eq := rfl
        source_eq := rfl }⟩
  | alternative items =>
    simp only [step, exec_bind_ok] at done
    obtain ⟨answer, asked, answered, ⟨index, item⟩, t, chosen, id, inner, added, below⟩ := done
    obtain ⟨source, answer_eq, rfl⟩ := ask_ok answered
    obtain ⟨found, rfl⟩ := lift_ok chosen
    obtain ⟨rfl, branch⟩ := branchOf_ok found
    obtain ⟨tree, node, rfl⟩ := addNode_ok added
    exact ⟨_, _, id, { s with tree, source }, s', .alternative branch,
      { answered := ⟨_, _, rfl, answer_eq, rfl⟩, added := node, live := rfl
        below := by simpa using below
        tree_eq := rfl, live_eq := rfl, source_eq := rfl }⟩
  | optional item =>
    simp only [step, exec_bind_ok] at done
    obtain ⟨answer, asked, answered, id, inner, added, below⟩ := done
    obtain ⟨source, answer_eq, rfl⟩ := ask_ok answered
    obtain ⟨tree, node, rfl⟩ := addNode_ok added
    cases held : answer.truthy with
    | true =>
      rw [held] at node below
      exact ⟨_, _, id, { s with tree, source }, s', .present item,
        { answered := ⟨.optional, answer, rfl, answer_eq, congrArg Datum.bool held⟩
          added := node, live := rfl, below := by simpa using below
          tree_eq := rfl, live_eq := rfl, source_eq := rfl }⟩
    | false =>
      rw [held] at node below
      exact ⟨_, _, id, { s with tree, source }, s', .absent item,
        { answered := ⟨.optional, answer, rfl, answer_eq, congrArg Datum.bool held⟩
          added := node, live := rfl, below := by simpa using below
          tree_eq := rfl, live_eq := rfl, source_eq := rfl }⟩
  | repetition item bounds =>
    simp only [step, exec_bind_ok] at done
    obtain ⟨site, sited, numbered, answer, asked, answered, count, t, counted, id, inner, added,
      below⟩ := done
    cases numbered
    obtain ⟨source, answer_eq, rfl⟩ := ask_ok answered
    obtain ⟨found, rfl⟩ := lift_ok counted
    obtain ⟨rfl, admitted⟩ := countOf_ok found
    obtain ⟨tree, node, rfl⟩ := addNode_ok added
    exact ⟨_, _, id, { s with tree, source, sites := s.sites + 1 }, s', .repetition item admitted,
      { answered := ⟨_, _, rfl, answer_eq, rfl⟩, added := node, live := rfl
        below := by rwa [times_eq_forM fun item => expandOne item (some id)] at below
        tree_eq := rfl, live_eq := rfl, source_eq := rfl }⟩
  | nonTerminal name =>
    simp only [step, exec_bind_ok, exec_leaving_ok, kept name rfl] at done
    obtain ⟨body, t, found, id, inner, added, ⟨⟩, entered, moved, outer, below, rfl⟩ := done
    obtain ⟨defined, rfl⟩ := lift_ok found
    obtain ⟨tree, node, rfl⟩ := addNode_ok added
    cases moved
    exact ⟨_, _, id, { s with tree, productions := name :: s.productions }, outer,
      .nonTerminal (production_ok defined),
      { answered := rfl, added := node, live := rfl, below := by simpa using below
        tree_eq := rfl, live_eq := rfl, source_eq := rfl }⟩
  | characters set =>
    simp only [step, exec_bind_ok] at done
    obtain ⟨members, t, found, answer, asked, answered, codepoint, u, chosen, id, inner, added,
      rest⟩ := done
    obtain ⟨resolution, rfl⟩ := lift_ok found
    obtain ⟨source, answer_eq, rfl⟩ := ask_ok answered
    obtain ⟨choice, rfl⟩ := lift_ok chosen
    obtain ⟨rfl, member⟩ := memberOf_ok choice
    obtain ⟨tree, node, rfl⟩ := addNode_ok added
    obtain ⟨whole, resolved, rfl⟩ := classOf_ok sound resolution
    obtain ⟨listed, free⟩ := CharacterClass.mem_remove.mp member
    obtain ⟨tree_eq, live_eq, source_eq⟩ := append_ok rest
    exact ⟨_, _, id, { s with tree, source }, _, .characters resolved listed free,
      { answered := ⟨_, _, rfl, answer_eq, rfl⟩, added := node, live := rfl, below := rfl
        tree_eq, live_eq, source_eq }⟩
  | stray value => cases done

/-- A completed step of a replaced production adds its node and runs the callback, whose context is
open meanwhile. -/
theorem step_replaced_ok {name : String} {callback : Callback κ}
    (bound : plan.replacements.find? name = some callback)
    (done : (step plan expandOne (.nonTerminal name) parent).exec s = (.ok (), s')) :
    ∃ body id inner outer, plan.grammar.body? name = some body ∧
      s.tree.add (Label.under { kind := .nonTerminal, name := some name } parent) =
        (.ok id, inner.tree) ∧
      inner.live = ⟨s.call, id, name⟩ :: s.live ∧
      (perform plan expandOne (callback ⟨s.call, id, name⟩).run).run inner = (.ok (), outer) ∧
      s'.tree = outer.tree ∧ s'.live = outer.live.erase ⟨s.call, id, name⟩ := by
  simp only [step, exec_bind_ok, exec_leaving_ok, bound, replace] at done
  obtain ⟨body, _, resolved, id, _, added, _, entered, moved, _, ⟨_, _, own, _, opening, opened,
    outer, performed, rfl⟩, rfl⟩ := done
  obtain ⟨found, rfl⟩ := lift_ok resolved
  obtain ⟨tree, node, rfl⟩ := addNode_ok added
  cases moved
  cases own
  cases opened
  exact ⟨body, id,
    { s with tree, productions := name :: s.productions, live := ⟨s.call, id, name⟩ :: s.live },
    outer, production_ok found, node, rfl, performed, rfl, rfl⟩

end Expand

namespace Run

variable {σ κ : Type} {r : Run σ κ}

theorem completed (h : r.outcome.toOption = some ()) : r.outcome = .ok () := by
  cases outcome : r.outcome with
  | error =>
    rw [outcome] at h
    cases h
  | ok => rfl

theorem outcome_of_tree {t : Tree} (h : r.tree = .ok t) : r.outcome = .ok () := by
  unfold Run.tree at h
  cases outcome : r.outcome with
  | error =>
    rw [outcome] at h
    cases h
  | ok => rfl

end Run

namespace Generator

variable {σ κ : Type} [DecisionSource σ]

/-- A completed derivation is one completed expansion of the start, with the tree frozen. -/
theorem derive_ok {g : Generator κ} {call : Call} {start : String} {source : σ} {user : κ}
    {final : Expansion σ κ} (done : g.derive call start source user = (.ok (), final)) :
    ∃ last,
      (Expand.expand g.plan call.ceiling (.nonTerminal start) none).exec (call.begin source user) =
          (.ok (), last) ∧ final = { last with tree := last.tree.freeze } := by
  rcases ran : (Expand.expand g.plan call.ceiling (.nonTerminal start) none).run.run
    (call.begin source user) with ⟨outcome, last⟩
  simp only [derive, ran] at done
  split at done
  next =>
    cases done
    exact ⟨last, ran, rfl⟩
  next => cases done

/-- A completed run is a completed derivation of its start. -/
theorem runWithin_ok {g : Generator κ} {call : Call} {start : Option String} {source : σ}
    {user : κ} (done : (g.runWithin call start source user).outcome = .ok ()) :
    ∃ name, g.startOf start = .ok name ∧
      g.derive call name source user =
        (.ok (), (g.runWithin call start source user).final) := by
  unfold runWithin at done ⊢
  cases found : g.startOf start with
  | error fault =>
    rw [found] at done
    cases done
  | ok name =>
    rw [found] at done
    exact ⟨name, rfl, Prod.ext done rfl⟩

theorem runWithin_of_expand {g : Generator κ} {call : Call} {start : Option String}
    {name : String} {source : σ} {user : κ} {last : Expansion σ κ}
    (found : g.startOf start = .ok name)
    (done : (Expand.expand g.plan call.ceiling (.nonTerminal name) none).exec
      (call.begin source user) = (.ok (), last)) :
    (g.runWithin call start source user).outcome = .ok () ∧
      (g.runWithin call start source user).final =
        { last with tree := last.tree.freeze } := by
  have derived : g.derive call name source user =
      (.ok (), { last with tree := last.tree.freeze }) := by
    have ran : (Expand.expand g.plan call.ceiling (.nonTerminal name) none).run.run
        (call.begin source user) = (.ok (), last) := done
    simp only [derive, ran]
  constructor <;> simp only [runWithin, found, derived]

end Generator

end SentenceGen
