import SentenceGen.Proofs.Cutoffs
import SentenceGen.Proofs.Phases
import SentenceGen.Proofs.Resolution
import SentenceGen.Proofs.SharedRules

/-!
# Answers within bounds

A source that answers every sensible question within its bounds is never refused by the engine.
Where nothing is replaced, the rules of a checked grammar put no other questions, so a run
completes, or a cutoff ends it, or the source was lost for an answer.
-/

namespace SentenceGen

/-! ### Questions and answers -/

/-- The maximum is none, or not below the count. -/
def Datum.Caps (maximum : Datum) (count : Nat) : Prop :=
  maximum = .null ∨ ∃ most : Nat, maximum = .int most ∧ count ≤ most

namespace Bounds

/-- The bounds are integers; there may be no upper one. -/
def AreIntegers (b : Bounds) : Prop :=
  (∃ least : Int, b.minimum = .int least) ∧
    (b.maximum = .null ∨ ∃ most : Int, b.maximum = .int most)

/-- Integers that do not cross, from zero up. -/
def Ordered (b : Bounds) : Prop := ∃ least : Nat, b.minimum = .int least ∧ b.maximum.Caps least

/-- The count is not below the lower bound and not above the upper one, if there is one. -/
def Hold (b : Bounds) (count : Nat) : Prop :=
  ∃ least : Nat, b.minimum = .int least ∧ least ≤ count ∧ b.maximum.Caps count

theorem Hold.admits {b : Bounds} {count : Nat} (h : b.Hold count) : b.admits count = true := by
  obtain ⟨least, minimum, reached, maximum⟩ := h
  rcases maximum with maximum | ⟨most, maximum, room⟩
  · simp [Bounds.admits, isBelow, minimum, maximum, reached, Datum.magnitude?, Datum.int?]
  · simp [Bounds.admits, isBelow, minimum, maximum, reached, room]

theorem ordered_of_bounded {item rule : Rule} {b : Bounds} (made : Rule.bounded item b = .ok rule)
    (integers : b.AreIntegers) : b.Ordered := by
  obtain ⟨⟨least, minimum⟩, maximum⟩ := integers
  have nonneg : 0 ≤ least := by
    by_contra negative
    simp [Rule.bounded, minimum, Int.not_le.mp negative, Bind.bind, Except.bind] at made
  obtain ⟨least, rfl⟩ := Int.eq_ofNat_of_zero_le nonneg
  refine ⟨least, minimum, ?_⟩
  rcases maximum with maximum | ⟨most, maximum⟩
  · exact .inl maximum
  · have room : (least : Int) ≤ most := by
      by_contra crossed
      simp [Rule.bounded, minimum, maximum, Int.not_le.mp crossed, Bind.bind, Except.bind,
        Datum.isNull] at made
      cases made
    obtain ⟨most, rfl⟩ := Int.eq_ofNat_of_zero_le (Int.le_trans nonneg room)
    exact .inr ⟨most, maximum, Int.ofNat_le.mp room⟩

end Bounds

/-- The rule is one that its constructor makes, and if it is a repetition, of integers. -/
def Rule.Proper : Rule → Prop
  | .alternative items => branches items = .ok (.alternative items)
  | .repetition item bounds =>
    bounded item bounds = .ok (.repetition item bounds) ∧ bounds.AreIntegers
  | .stray _ => False
  | _ => True

theorem Candidates.at?_ofClass (c : CharacterClass) (i : Nat) :
    (ofClass c).at? i = c.codepoints[i]?.map fun n : Nat => .int n := by
  rw [at?]
  cases c.codepoints[i]? <;> rfl

/-- Below their number there is a candidate at every place. -/
theorem Candidates.at?_of_lt {candidates : Candidates} {i : Nat} (less : i < candidates.size) :
    ∃ answer, candidates.at? i = some answer := by
  cases candidates with
  | ofClass c =>
    have less : i < c.codepoints.length := less
    exact ⟨_, by rw [at?_ofClass, List.getElem?_eq_getElem less]; rfl⟩
  | listed items => exact ⟨_, List.getElem?_eq_getElem less⟩

namespace Question

/-- The question has an answer. -/
def Sensible : Question → Prop
  | .alternative count => ∃ n : Nat, 0 < n ∧ count = .int n
  | .repetition bounds _ => bounds.Ordered
  | .optional => True
  | .codepoint candidates => 0 < candidates.size

/-- The answer is within the bounds of the question. -/
def Admits : Question → Datum → Prop
  | .alternative count, answer => ∃ n i : Nat, count = .int n ∧ i < n ∧ answer = .int i
  | .repetition bounds _, answer => ∃ count : Nat, bounds.Hold count ∧ answer = .int count
  | .optional, answer => ∃ present, answer = .bool present
  | .codepoint candidates, answer => ∃ i, candidates.at? i = some answer

end Question

/-- The plan knows all rules of its grammar, they are proper, and no production is replaced. -/
structure Plan.Regular {κ : Type} (plan : Plan κ) : Prop where
  knows {rule : Rule} : plan.grammar.Standing rule → plan.Knows rule
  proper {rule : Rule} : plan.grammar.Standing rule → rule.Proper
  unbound (name : String) : plan.replacements.find? name = none

theorem Plan.Regular.of_encloses {κ : Type} {plan : Plan κ} (regular : plan.Regular) {rule : Rule}
    (enclosed : plan.grammar.Encloses rule) : plan.Knows rule ∧ rule.Proper := by
  rcases enclosed with ⟨name, rfl, defined⟩ | standing
  · exact ⟨defined, trivial⟩
  · exact ⟨regular.knows standing, regular.proper standing⟩

/-- A source that is fine stays fine.  It answers a sensible question within its bounds, or it is
lost and may answer anything. -/
def Reliable {σ : Type} [DecisionSource σ] (Fine Lost : σ → Prop) : Prop :=
  ∀ q source, q.Sensible → Fine source →
    Fine (DecisionSource.ask q source).2 ∧
      ((∃ answer, (DecisionSource.ask q source).1 = .ok answer ∧ q.Admits answer) ∨
        Lost (DecisionSource.ask q source).2)

/-! ### The engine -/

namespace Expand

variable {σ κ α β : Type} {Fine Lost : σ → Prop} {plan : Plan κ} {parent : Option NodeId}

/-- The tree is what it was and the source is fine, and lost if the action failed. -/
structure Fares (Fine Lost : σ → Prop) (s : Expansion σ κ)
    (ended : Except Fault α × Expansion σ κ) : Prop where
  tree_eq : ended.2.tree = s.tree
  fine : Fine ended.2.source
  lost (fault : Fault) : ended.1 = .error fault → Lost ended.2.source

theorem left_lift (result : Except Fault α) (f : α → β) (s : Expansion σ κ) :
    ((result >>= fun a => pure (f a) : Expand σ κ β).exec s).2 = s := by
  cases result <;> rfl

theorem fares_pure (a : α) {s : Expansion σ κ} (fine : Fine s.source) :
    Fares Fine Lost s ((pure a : Expand σ κ α).exec s) :=
  ⟨rfl, fine, nofun⟩

section

variable [DecisionSource σ]

/-- Answers within the bounds of the question have to be taken; others may be refused. -/
theorem fares_ask (reliable : Reliable Fine Lost) (q : Question) (sensible : q.Sensible)
    {next : Datum → Expand σ κ α} (still : ∀ answer t, ((next answer).exec t).2 = t)
    (taken : ∀ answer, q.Admits answer → ∀ t, ∃ made, ((next answer).exec t).1 = .ok made)
    {s : Expansion σ κ} (fine : Fine s.source) :
    Fares Fine Lost s ((ask q >>= next).exec s) := by
  obtain ⟨fine, answered⟩ := reliable q s.source sensible fine
  rw [exec_ask_bind]
  cases asked : (DecisionSource.ask q s.source).1 with
  | error fault =>
    rcases answered with ⟨answer, same, _⟩ | lost
    · rw [asked] at same
      cases same
    · exact ⟨rfl, fine, fun _ _ => lost⟩
  | ok answer =>
    simp only
    refine ⟨by rw [still], by rwa [still], fun fault failed => ?_⟩
    rw [still]
    rcases answered with ⟨_, same, admits⟩ | lost
    · rw [asked] at same
      obtain rfl := Except.ok.inj same
      obtain ⟨made, done⟩ := taken answer admits _
      rw [done] at failed
      cases failed
    · exact lost

/-- What a reliable source answers, the engine takes. -/
theorem fares_consult (reliable : Reliable Fine Lost) {rule : Rule}
    (knows : plan.Knows rule) (proper : rule.Proper) {s : Expansion σ κ} (fine : Fine s.source) :
    Fares Fine Lost s ((consult plan rule).exec s) := by
  cases rule with
  | literal | sequence => exact fares_pure _ fine
  | stray => exact proper.elim
  | alternative items =>
    have some_ : 0 < items.length := by
      by_contra none_
      have none_ : items.length = 0 := Nat.eq_zero_of_not_pos none_
      simp [Rule.Proper, Rule.branches, none_] at proper
    refine fares_ask reliable (.alternative (.int items.length)) ⟨_, some_, rfl⟩
      (fun answer => left_lift (branchOf items answer) _) ?_ fine
    rintro _ ⟨n, i, count, less, rfl⟩ t
    obtain rfl : items.length = n := Int.ofNat.inj (Datum.int.inj count)
    rw [branchOf_of_getElem? (List.getElem?_eq_getElem less)]
    exact ⟨_, rfl⟩
  | optional item =>
    exact fares_ask reliable .optional trivial (fun _ _ => rfl) (fun _ _ _ => ⟨_, rfl⟩) fine
  | repetition item bounds =>
    have ordered : bounds.Ordered := Bounds.ordered_of_bounded proper.1 proper.2
    let site : RepetitionSite := ⟨.int s.sites, s.productions.head?⟩
    let counted : Expansion σ κ := { s with sites := s.sites + 1 }
    rw [consult, exec_bind_of_ok (exec_nextSite s)]
    suffices asked : Fares Fine Lost counted _ from ⟨asked.tree_eq, asked.fine, asked.lost⟩
    refine fares_ask reliable (.repetition bounds site) ordered
      (fun answer => left_lift (countOf bounds site answer) _) ?_ fine
    rintro _ ⟨count, hold, rfl⟩ t
    rw [countOf_of_admits hold.admits]
    exact ⟨_, rfl⟩
  | nonTerminal name =>
    obtain ⟨body, found⟩ := Option.isSome_iff_exists.mp knows
    have defined : plan.grammar.production name = .ok body := by simp [Grammar.production, found]
    rw [consult, defined]
    exact fares_pure _ fine
  | characters set =>
    obtain ⟨members, _, nonempty, known⟩ := knows
    have some_ : 0 < (Candidates.ofClass members).size := by
      apply List.length_pos_iff.mpr
      intro empty
      simp [CharacterClass.isEmpty, empty] at nonempty
    rw [consult, known, lift_ok_bind]
    refine fares_ask reliable (.codepoint (.ofClass members)) some_
      (fun answer => left_lift (memberOf members set.name answer) _) ?_ fine
    rintro answer ⟨i, chosen⟩ t
    rw [Candidates.at?_ofClass] at chosen
    obtain ⟨codepoint, listed, rfl⟩ := Option.map_eq_some_iff.mp chosen
    have member : codepoint ∈ members := List.mem_of_getElem? listed
    rw [memberOf_of_mem member]
    exact ⟨_, rfl⟩

end

/-- Where nodes can be added under the parent, only a cutoff stops the action, or a source that is
lost. -/
def Flows (plan : Plan κ) (Fine Lost : σ → Prop) (parent : Option NodeId)
    (action : Expand σ κ α) : Prop :=
  ∀ s, s.tree.Takes parent → Fine s.source →
    (∀ place, s.tree.Takes place → (action.exec s).2.tree.Takes place) ∧
      Fine (action.exec s).2.source ∧
      ∀ fault ∈ faultOf (action.exec s).1,
        fault = .nestingExhausted ∨ plan.Cuts fault ∨ Lost (action.exec s).2.source

theorem flows_pure (a : α) : Flows plan Fine Lost parent (pure a : Expand σ κ α) :=
  fun _ _ fine => ⟨fun _ takes => takes, fine, nofun⟩

theorem Flows.bind {action : Expand σ κ α} {next : α → Expand σ κ β}
    (first : Flows plan Fine Lost parent action)
    (second : ∀ a, Flows plan Fine Lost parent (next a)) :
    Flows plan Fine Lost parent (action >>= next) := by
  intro s takes fine
  obtain ⟨kept, fineOn, cut⟩ := first s takes fine
  rcases ran : action.exec s with ⟨fault | a, t⟩
  · rw [ran] at kept fineOn cut
    rw [exec_bind_of_error ran]
    exact ⟨kept, fineOn, cut⟩
  · rw [ran] at kept fineOn
    rw [exec_bind_of_ok ran]
    obtain ⟨keptOn, fineEnd, cut⟩ := second a t (kept parent takes) fineOn
    exact ⟨fun place takes => keptOn place (kept place takes), fineEnd, cut⟩

/-- A node that was added takes nodes itself. -/
theorem Flows.opens {label : Label} {below : NodeId → Expand σ κ α}
    (inside : ∀ id, Flows plan Fine Lost (some id) (below id)) :
    Flows plan Fine Lost parent (addNode (label.under parent) >>= below) := by
  intro s takes fine
  have added : s.tree.Takes (label.under parent).parent := takes
  rw [exec_bind_of_ok (exec_addNode_of_takes takes)]
  obtain ⟨kept, fineOn, cut⟩ := inside s.tree.size
    { s with tree := (s.tree.add (label.under parent)).2 } added.add fine
  refine ⟨fun place takes => kept place ?_, fineOn, cut⟩
  exact ⟨(Tree.frozen_add _ _).trans takes.thawed,
    fun id given => Nat.lt_of_lt_of_le (takes.parent_lt id given) (Tree.extends_add added).size_le⟩

theorem flows_append (text : String) :
    Flows plan Fine Lost parent (append plan text : Expand σ κ _) := by
  intro s _ fine
  rw [exec_append]
  refine ⟨fun _ takes => takes, fine, ?_⟩
  intro fault raised
  exact .inr (.inl (cuts_of_appendOutcome (mem_faultOf.mp raised)))

theorem flows_leaf (label : Label) :
    Flows plan Fine Lost parent (leaf plan label parent : Expand σ κ _) := by
  apply Flows.opens
  intro id
  by_cases empty : label.text = ""
  · rw [if_pos empty]
    exact flows_pure _
  · rw [if_neg empty]
    exact flows_append label.text

theorem Flows.within {action : Expand σ κ Unit} (inside : Flows plan Fine Lost parent action)
    (name : String) : Flows plan Fine Lost parent (within name action) :=
  fun s takes fine => inside { s with productions := name :: s.productions } takes fine

theorem Flows.nested {action : Expand σ κ Unit} (inside : Flows plan Fine Lost parent action) :
    Flows plan Fine Lost parent (nested plan action) := by
  intro s takes fine
  rw [exec_nested]
  cases entered : levelOutcome plan (s.depth + 1) s.productions with
  | error fault =>
    refine ⟨fun _ takes => takes, fine, ?_⟩
    rintro _ ⟨⟩
    exact .inr (.inl (cuts_of_levelOutcome entered))
  | ok _ => exact inside { s with depth := s.depth + 1 } takes fine

theorem flows_forM {act : Rule → Expand σ κ Unit} {items : List Rule}
    (each : ∀ item ∈ items, Flows plan Fine Lost parent (act item)) :
    Flows plan Fine Lost parent (items.forM act) := by
  induction items with
  | nil => exact flows_pure _
  | cons item rest ih =>
    rw [List.forall_mem_cons] at each
    exact each.1.bind fun _ => ih each.2

theorem flows_grow {expandOne : Rule → Option NodeId → Expand σ κ Unit} {label : Label}
    {items : List Rule}
    (each : ∀ item ∈ items, ∀ parent, Flows plan Fine Lost parent (expandOne item parent)) :
    Flows plan Fine Lost parent (grow plan expandOne parent label items) := by
  unfold grow
  by_cases leaf : label.kind.isLeaf = true
  · rw [if_pos leaf]
    exact flows_leaf label
  · rw [if_neg leaf]
    apply Flows.opens
    intro id
    have below :
        Flows plan Fine Lost (some id) (items.forM fun item => expandOne item (some id)) :=
      flows_forM fun item member => each item member _
    split
    next name _ _ => exact below.within name
    next => exact below

variable [DecisionSource σ]

theorem flows_step (reliable : Reliable Fine Lost) (regular : plan.Regular)
    {expandOne : Rule → Option NodeId → Expand σ κ Unit}
    (each : ∀ rule parent, plan.grammar.Encloses rule →
      Flows plan Fine Lost parent (expandOne rule parent)) {rule : Rule}
    (enclosed : plan.grammar.Encloses rule) :
    Flows plan Fine Lost parent (step plan expandOne rule parent) := by
  intro s takes fine
  obtain ⟨knows, proper⟩ := regular.of_encloses enclosed
  obtain ⟨tree_eq, fineOn, lost⟩ := fares_consult reliable knows proper fine
  rw [step_eq plan expandOne rule parent fun name _ => regular.unbound name]
  rcases consulted : (consult plan rule).exec s with ⟨fault | ⟨label, items⟩, t⟩
  · rw [consulted] at tree_eq fineOn lost
    rw [exec_bind_of_error consulted, tree_eq]
    refine ⟨fun _ takes => takes, fineOn, ?_⟩
    rintro _ ⟨⟩
    exact .inr (.inr (lost fault rfl))
  · rw [consulted] at tree_eq fineOn
    rw [exec_bind_of_ok consulted]
    simp only at tree_eq
    rw [← tree_eq] at takes ⊢
    have inside (item : Rule) (member : item ∈ items) : plan.grammar.Encloses item := by
      rcases consult_items consulted member with inside | ⟨name, _, defined⟩
      · exact enclosed.child inside
      · exact .inr ⟨name, item, defined, Rule.mem_walk_self item⟩
    exact flows_grow (fun item member parent => each item parent (inside item member)) t takes
      fineOn

/-- A reliable source makes every expansion flow. -/
theorem flows_expand (reliable : Reliable Fine Lost) (regular : plan.Regular) (fuel : Nat)
    {rule : Rule} (enclosed : plan.grammar.Encloses rule) :
    Flows plan Fine Lost parent (expand plan fuel rule parent) := by
  induction fuel generalizing rule parent with
  | zero =>
    intro s _ fine
    refine ⟨fun _ takes => takes, fine, ?_⟩
    rintro _ ⟨⟩
    exact .inl rfl
  | succ fuel ih =>
    apply Flows.nested
    exact flows_step reliable regular (fun rule parent enclosed => ih enclosed) enclosed

end Expand

/-! ### Runs -/

/-- A cutoff ended the run: the nesting was too deep, or the text too long. -/
def Fault.OfCutoff (fault : Fault) : Prop :=
  (∃ limit production, fault = .tooDeep limit production) ∨
    ∃ limit size, fault = .tooLarge limit size

theorem Plan.Cuts.ofCutoff {κ : Type} {plan : Plan κ} {fault : Fault} (cuts : plan.Cuts fault) :
    fault.OfCutoff := by
  rcases cuts with ⟨cutoff, _, production, rfl⟩ | ⟨cutoff, _, size, rfl⟩
  · exact .inl ⟨_, _, rfl⟩
  · exact .inr ⟨_, _, rfl⟩

namespace Generator

variable {κ : Type} {b : Builder} {grammar : Grammar} {config : Config} {g : Generator κ}

theorem regular_of_build (built : b.build = .ok grammar)
    (proper : ∀ rule ∈ rulesOf grammar, rule.Proper)
    (made : new grammar [] none config = .ok g) : g.plan.Regular where
  knows standing := by
    refine knows_of_standing built (fun rule listed => ?_) made standing
    have proper := proper rule listed
    cases rule with
    | stray => exact proper.elim
    | _ => rfl
  proper := by
    rintro rule ⟨name, body, defined, visited⟩
    rw [← grammar_of_new made] at proper
    exact proper rule (mem_rulesOf defined visited)
  unbound name := by
    obtain ⟨_, _, tableMade, _, rfl⟩ := new_eq_ok made
    cases tableMade
    rfl

/-- From a reliable source a run completes, or a cutoff ends it, or the source is lost. -/
theorem run_of_reliable {σ : Type} [DecisionSource σ] {Fine Lost : σ → Prop}
    (reliable : Reliable Fine Lost) (regular : g.plan.Regular)
    {start : Option String} {name : String}
    (found : g.startOf start = .ok name) (call : Call) {source : σ} (fine : Fine source)
    (user : κ) :
    Fine (g.runWithin call start source user).final.source ∧
      ∀ fault, (g.runWithin call start source user).outcome = .error fault →
        fault.OfCutoff ∨ Lost (g.runWithin call start source user).final.source := by
  have enclosed : g.plan.grammar.Encloses (.nonTerminal name) :=
    .inl ⟨name, rfl, defines_of_startOf found⟩
  obtain ⟨_, fineOn, cut⟩ := Expand.flows_expand reliable regular call.ceiling enclosed
    (call.begin source user) Derivation.takes_empty fine
  have ended := g.runWithin_eq_settle found call source user
  have outcome_eq : (g.runWithin call start source user).outcome = (settle name _).1 :=
    congrArg Prod.fst ended
  have final_eq : (g.runWithin call start source user).final = (settle name _).2 :=
    congrArg Prod.snd ended
  constructor
  · obtain ⟨frozen, left⟩ := settle_left name
      ((Expand.expand g.plan call.ceiling (.nonTerminal name) none).exec (call.begin source user))
    rw [final_eq, left]
    exact fineOn
  · intro fault failed
    rw [outcome_eq] at failed
    rcases settle_error failed with raised | rfl
    · rcases cut fault (mem_faultOf.mpr raised) with rfl | cuts | lost
      · rw [settle, raised] at failed
        cases failed
      · exact .inl cuts.ofCutoff
      · obtain ⟨frozen, left⟩ := settle_left name
          ((Expand.expand g.plan call.ceiling (.nonTerminal name) none).exec
            (call.begin source user))
        rw [final_eq, left]
        exact .inr lost
    · exact .inl (.inl ⟨_, _, rfl⟩)

end Generator

end SentenceGen
