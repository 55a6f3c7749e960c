import SentenceGen.Proofs.Steps

/-!
# Relations between engines

Two engines that go together at every building block go together on every rule.  A simulation is
about two relations: one for what a call does once it is counted, one for calls and sequences of
calls below a node.  The second engine may be a mere copy of the first one; an invariant of one
engine is a simulation too.
-/

namespace SentenceGen

namespace Expand

variable {σ σ₁ σ₂ κ κ₁ κ₂ α β : Type}

/-! ### Building blocks -/

def leaf (plan : Plan κ) (label : Label) (parent : Option NodeId) : Expand σ κ Unit := do
  let _ ← addNode (label.under parent)
  unless label.text = "" do append plan label.text

def within (name : String) (action : Expand σ κ Unit) : Expand σ κ Unit := do
  modify fun s => { s with productions := name :: s.productions }
  leaving (fun s => { s with productions := s.productions.tail }) action

/-- Goes on with the outcome of an action, completed or not. -/
def attempt (action : Expand σ κ α) (next : Except Fault α → Expand σ κ β) : Expand σ κ β :=
  ExceptT.mk (action.run >>= fun result => (next result).run)

@[simp] theorem exec_attempt (action : Expand σ κ α) (next : Except Fault α → Expand σ κ β)
    (s : Expansion σ κ) :
    (attempt action next).exec s = (next (action.exec s).1).exec (action.exec s).2 := rfl

theorem exec_leaf (plan : Plan κ) (label : Label) (parent : Option NodeId) (s : Expansion σ κ) :
    (leaf plan label parent).exec s =
      match s.tree.add (label.under parent) with
      | (.error fault, tree) => (.error fault, { s with tree })
      | (.ok _, tree) =>
        if label.text = "" then (.ok (), { s with tree })
        else
          (appendOutcome plan (s.size + label.text.length),
            { s with
              tree, chunks := s.chunks.push label.text, size := s.size + label.text.length }) := by
  rw [leaf, exec_bind, exec_addNode]
  rcases s.tree.add (label.under parent) with ⟨fault | id, tree⟩
  · rfl
  · by_cases empty : label.text = ""
    · simp [empty]
    · simp [empty, exec_append]

/-- A leaf is added to the tree, whether its text is accepted or not. -/
theorem exec_leaf_left (plan : Plan κ) (label : Label) (parent : Option NodeId)
    (s : Expansion σ κ) : ∃ chunks size, ((leaf plan label parent).exec s).2 =
      { s with tree := (s.tree.add (label.under parent)).2, chunks, size } := by
  rw [exec_leaf]
  rcases s.tree.add (label.under parent) with ⟨fault | id, tree⟩
  · exact ⟨s.chunks, s.size, rfl⟩
  · by_cases empty : label.text = ""
    · exact ⟨s.chunks, s.size, by simp [empty]⟩
    · exact ⟨_, _, by simp only [empty, if_false]; rfl⟩

theorem exec_writeTo (plan : Plan κ) (target : Context) (text : Datum) (s : Expansion σ κ) :
    (writeTo plan target text).exec s =
      if s.live.contains target then
        match text with
        | .str text => (leaf plan { kind := .literal, text } (some target.node)).exec s
        | _ => (.error (.writeNotText text.kind), s)
      else (.error (.contextClosed target.name), s) := by
  unfold writeTo
  rw [exec_bind, exec_requireOpen]
  by_cases live : s.live.contains target = true
  · rw [if_pos live, if_pos live]
    cases text <;> rfl
  · rw [if_neg live, if_neg live]

theorem lift_bind (result : Except Fault α) (next : α → Expand σ κ Unit) :
    (liftM result >>= next : Expand σ κ Unit) =
      match result with
      | .ok a => next a
      | .error fault => throw fault := by
  cases result <;> rfl

theorem lift_ok_bind (a : α) (next : α → Expand σ κ β) :
    (liftM (Except.ok a : Except Fault α) : Expand σ κ α) >>= next = next a := rfl

theorem exec_within (name : String) (action : Expand σ κ Unit) (s : Expansion σ κ) :
    (within name action).exec s =
      ((action.exec { s with productions := name :: s.productions }).1,
        { (action.exec { s with productions := name :: s.productions }).2 with
          productions :=
            (action.exec { s with productions := name :: s.productions }).2.productions.tail }) :=
  rfl

section

variable [DecisionSource σ] (plan : Plan κ) (expandOne : Rule → Option NodeId → Expand σ κ Unit)

/-- What comes below the node of a production: its body, unless it is replaced. -/
def produce (name : String) (body : Rule) (id : NodeId) : Expand σ κ Unit :=
  match plan.replacements.find? name with
  | none => expandOne body (some id)
  | some callback => do replace plan expandOne callback ⟨← ownCall, id, name⟩

/-- Runs a program that may end with a fault as an action. -/
def serve (program : Program κ (Except Fault Unit)) : Expand σ κ Unit :=
  ExceptT.mk (perform plan expandOne program)

theorem serve_write (target : Context) (text : Datum)
    (next : Except Fault Unit → Program κ (Except Fault Unit)) :
    serve plan expandOne (.write target text next) =
      attempt (writeTo plan target text) fun result => serve plan expandOne (next result) := rfl

theorem serve_expand (target : Context)
    (next : Except Fault Unit → Program κ (Except Fault Unit)) :
    serve plan expandOne (.expand target next) =
      attempt (expandIn plan expandOne target) fun result =>
        serve plan expandOne (next result) := rfl

theorem serve_ask (question : Question)
    (next : Except Fault Datum → Program κ (Except Fault Unit)) :
    serve plan expandOne (.ask question next) =
      attempt (ask question) fun result => serve plan expandOne (next result) := rfl

theorem exec_replace (callback : Callback κ) (target : Context) (s : Expansion σ κ) :
    (replace plan expandOne callback target).exec s =
      let (outcome, t) :=
        (serve plan expandOne (callback target).run).exec { s with live := target :: s.live }
      (outcome, { t with live := t.live.erase target }) := rfl

theorem step_nonTerminal (name : String) (parent : Option NodeId) :
    step plan expandOne (.nonTerminal name) parent = (do
      let body ← liftM (plan.grammar.production name)
      let node ← addNode (Label.under { kind := .nonTerminal, name := some name } parent)
      within name (produce plan expandOne name body node)) := rfl

theorem step_characters (set : CharacterSet) (parent : Option NodeId) :
    step plan expandOne (.characters set) parent = (do
      let members ← liftM (classOf plan set)
      let answer ← ask (.codepoint (.ofClass members))
      let codepoint ← liftM (memberOf members set.name answer)
      leaf plan
        { kind := .character, name := some set.name, text := (Char.ofNat codepoint).toString
          value := .int codepoint } parent) := by
  have present (codepoint : Nat) : (Char.ofNat codepoint).toString ≠ "" := by
    simp [Char.toString]
  simp only [step, leaf, Label.under, if_neg (present _)]

end

/-- The faults that expanding a rule may raise before it comes to a rule inside. -/
inductive Refuses (plan : Plan κ) : Rule → Fault → Prop where
  | branch {items : List Rule} {answer : Datum} {fault : Fault}
      (refused : branchOf items answer = .error fault) : Refuses plan (.alternative items) fault
  | count {item : Rule} {bounds : Bounds} {site : RepetitionSite} {answer : Datum} {fault : Fault}
      (refused : countOf bounds site answer = .error fault) :
      Refuses plan (.repetition item bounds) fault
  | production {name : String} {fault : Fault}
      (undefined : plan.grammar.production name = .error fault) :
      Refuses plan (.nonTerminal name) fault
  | characters {set : CharacterSet} {fault : Fault}
      (unresolved : classOf plan set = .error fault) : Refuses plan (.characters set) fault
  | codepoint {set : CharacterSet} {members : CharacterClass} {answer : Datum} {fault : Fault}
      (refused : memberOf members set.name answer = .error fault) :
      Refuses plan (.characters set) fault
  | stray (value : Datum) : Refuses plan (.stray value) (.unknownRule value.kind)

end Expand

open Expand

/-- How two engines go together on the rules that they come to: `Step` is about what a call does,
once it is counted, under its parent. -/
structure Simulation (σ₁ σ₂ : Type) {κ₁ κ₂ : Type} [DecisionSource σ₁] [DecisionSource σ₂]
    (plan₁ : Plan κ₁) (plan₂ : Plan κ₂) (Reached : Rule → Prop)
    (Step Call : Option NodeId → Expand σ₁ κ₁ Unit → Expand σ₂ κ₂ Unit → Prop) : Prop where
  child {rule item : Rule} : Reached rule → item ∈ rule.children → Reached item
  body {name : String} {body : Rule} : Reached (.nonTerminal name) →
    plan₁.grammar.production name = .ok body → Reached body
  production_eq {name : String} : Reached (.nonTerminal name) →
    plan₁.grammar.production name = plan₂.grammar.production name
  classOf_eq {set : CharacterSet} : Reached (.characters set) →
    classOf plan₁ set = classOf plan₂ set
  fails {rule : Rule} {fault : Fault} (parent : Option NodeId) : Reached rule →
    Refuses plan₁ rule fault → Step parent (throw fault) (throw fault)
  asks {parent : Option NodeId} {next₁ : Datum → Expand σ₁ κ₁ Unit}
    {next₂ : Datum → Expand σ₂ κ₂ Unit} (q : Question) :
    (∀ answer, Step parent (next₁ answer) (next₂ answer)) →
      Step parent (ask q >>= next₁) (ask q >>= next₂)
  meets {parent : Option NodeId} {next₁ : RepetitionSite → Expand σ₁ κ₁ Unit}
    {next₂ : RepetitionSite → Expand σ₂ κ₂ Unit} :
    (∀ site, Step parent (next₁ site) (next₂ site)) →
      Step parent (nextSite >>= next₁) (nextSite >>= next₂)
  leaf (label : Label) (parent : Option NodeId) :
    Step parent (Expand.leaf plan₁ label parent) (Expand.leaf plan₂ label parent)
  opens {below₁ : NodeId → Expand σ₁ κ₁ Unit} {below₂ : NodeId → Expand σ₂ κ₂ Unit}
    (label : Label) (parent : Option NodeId) :
    (∀ id, Call (some id) (below₁ id) (below₂ id)) →
      Step parent (addNode (label.under parent) >>= below₁)
        (addNode (label.under parent) >>= below₂)
  done (id : NodeId) : Call (some id) (pure ()) (pure ())
  next {id : NodeId} {a₁ b₁ : Expand σ₁ κ₁ Unit} {a₂ b₂ : Expand σ₂ κ₂ Unit} :
    Call (some id) a₁ a₂ → Call (some id) b₁ b₂ →
      Call (some id) (a₁ >>= fun _ => b₁) (a₂ >>= fun _ => b₂)
  produces {expand₁ : Rule → Option NodeId → Expand σ₁ κ₁ Unit}
    {expand₂ : Rule → Option NodeId → Expand σ₂ κ₂ Unit} {name : String} {body : Rule}
    (id : NodeId) : Reached (.nonTerminal name) → plan₁.grammar.production name = .ok body →
      (∀ rule parent, Reached rule → Call parent (expand₁ rule parent) (expand₂ rule parent)) →
      Call (some id) (within name (produce plan₁ expand₁ name body id))
        (within name (produce plan₂ expand₂ name body id))

namespace Simulation

variable {σ₁ σ₂ κ₁ κ₂ : Type} [DecisionSource σ₁] [DecisionSource σ₂] {plan₁ : Plan κ₁}
  {plan₂ : Plan κ₂} {Reached : Rule → Prop}
  {Step Call : Option NodeId → Expand σ₁ κ₁ Unit → Expand σ₂ κ₂ Unit → Prop}
  {expand₁ : Rule → Option NodeId → Expand σ₁ κ₁ Unit}
  {expand₂ : Rule → Option NodeId → Expand σ₂ κ₂ Unit}

section

variable (sim : Simulation σ₁ σ₂ plan₁ plan₂ Reached Step Call)
include sim

theorem forM {id : NodeId} {items : List Rule}
    (each : ∀ item ∈ items, Call (some id) (expand₁ item (some id)) (expand₂ item (some id))) :
    Call (some id) (items.forM fun item => expand₁ item (some id))
      (items.forM fun item => expand₂ item (some id)) := by
  induction items with
  | nil => exact sim.done id
  | cons item rest ih =>
    rw [List.forall_mem_cons] at each
    exact sim.next each.1 (ih each.2)

/-- Answers that are judged alike by both engines. -/
theorem judged {rule : Rule} {parent : Option NodeId} {α : Type} {result : Except Fault α}
    {next₁ : α → Expand σ₁ κ₁ Unit} {next₂ : α → Expand σ₂ κ₂ Unit} (reached : Reached rule)
    (refused : ∀ fault, result = .error fault → Refuses plan₁ rule fault)
    (accepted : ∀ a, result = .ok a → Step parent (next₁ a) (next₂ a)) :
    Step parent (liftM result >>= next₁) (liftM result >>= next₂) := by
  rw [lift_bind, lift_bind]
  cases result with
  | error fault => exact sim.fails parent reached (refused fault rfl)
  | ok a => exact accepted a rfl

variable (expand₁ expand₂) in
/-- Simulations pass from the building blocks to rules. -/
theorem step
    (each : ∀ rule parent, Reached rule →
      Call parent (expand₁ rule parent) (expand₂ rule parent))
    (rule : Rule) (reached : Reached rule) (parent : Option NodeId) :
    Step parent (step plan₁ expand₁ rule parent) (step plan₂ expand₂ rule parent) := by
  have inside (id : NodeId) (item : Rule) (member : item ∈ rule.children) :
      Call (some id) (expand₁ item (some id)) (expand₂ item (some id)) :=
    each item _ (sim.child reached member)
  cases rule with
  | literal text => exact sim.leaf { kind := .literal, text } parent
  | sequence items =>
    apply sim.opens { kind := .sequence }
    intro id
    exact sim.forM (inside id)
  | alternative items =>
    apply sim.asks
    intro answer
    apply sim.judged reached fun fault refused => .branch refused
    rintro ⟨index, item⟩ found
    obtain ⟨_, branch⟩ := branchOf_ok found
    apply sim.opens { kind := .alternative, value := .int index }
    intro id
    exact inside id item (List.mem_of_getElem? branch)
  | optional item =>
    apply sim.asks
    intro answer
    apply sim.opens { kind := .optional, value := .bool answer.truthy }
    intro id
    by_cases present : answer.truthy = true
    · simp only [present, if_true]
      exact inside id item (by simp [Rule.children])
    · simp only [present]
      exact sim.done id
  | repetition item bounds =>
    apply sim.meets
    intro site
    apply sim.asks
    intro answer
    apply sim.judged reached fun fault refused => .count refused
    intro count _
    apply sim.opens { kind := .repetition, value := .int count }
    intro id
    rw [times_eq_forM fun item => expand₁ item (some id),
      times_eq_forM fun item => expand₂ item (some id)]
    apply sim.forM
    intro one member
    exact inside id one (by simp [Rule.children, List.eq_of_mem_replicate member])
  | nonTerminal name =>
    rw [step_nonTerminal, step_nonTerminal, ← sim.production_eq reached]
    apply sim.judged reached fun fault undefined => .production undefined
    intro body defined
    apply sim.opens
    intro id
    exact sim.produces id reached defined each
  | characters set =>
    rw [step_characters, step_characters, ← sim.classOf_eq reached]
    apply sim.judged reached fun fault unresolved => .characters unresolved
    intro members _
    apply sim.asks
    intro answer
    apply sim.judged reached fun fault refused => .codepoint refused
    intro codepoint _
    exact sim.leaf _ parent
  | stray value => exact sim.fails parent reached (.stray value)

end

variable (expand₁ expand₂) in
/-- Simulations that are not about certain rules only. -/
theorem everywhere (sim : Simulation σ₁ σ₂ plan₁ plan₂ (fun _ => True) Step Call)
    (each : ∀ rule parent, Call parent (expand₁ rule parent) (expand₂ rule parent)) (rule : Rule)
    (parent : Option NodeId) :
    Step parent (Expand.step plan₁ expand₁ rule parent) (Expand.step plan₂ expand₂ rule parent) :=
  sim.step expand₁ expand₂ (fun rule parent _ => each rule parent) rule trivial parent

end Simulation

end SentenceGen
