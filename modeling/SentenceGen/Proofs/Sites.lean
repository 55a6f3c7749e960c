import SentenceGen.Proofs.Ancestry
import SentenceGen.Proofs.Companions
import SentenceGen.Proofs.Phases

/-!
# Repetition sites

Where nothing is replaced, expanding a rule has two phases: it puts its question, and then it adds
its node and expands what is below.  A repetition counts its site and puts its question in the first
phase, so between two rules there are as many repetition nodes as there were questions about
repetitions, and they stand in the same order.
-/

namespace SentenceGen

/-- The number by which a question names its repetition. -/
def Question.site? : Question → Option RepetitionSite
  | .repetition _ site => some site
  | _ => none

namespace Transcript

variable {σ : Type}

/-- The sites of the repetitions that were asked about, with the answers. -/
def repetitions (t : Transcript σ) : List (RepetitionSite × Except Fault Datum) :=
  t.log.filterMap fun entry => entry.1.site?.map (·, entry.2)

/-- No question was left without an answer. -/
def Served (t : Transcript σ) : Prop := ∀ entry ∈ t.log, ∃ answer, entry.2 = .ok answer

variable [DecisionSource σ]

theorem Served.ask {t : Transcript σ} (h : t.Served) {q : Question} {answer : Datum}
    (answered : (DecisionSource.ask q t).1 = .ok answer) : (DecisionSource.ask q t).2.Served := by
  intro entry member
  rw [ask_eq, List.mem_append, List.mem_singleton] at member
  rcases member with before | rfl
  · exact h entry before
  · exact ⟨answer, answered⟩

theorem repetitions_ask (q : Question) (t : Transcript σ) :
    (DecisionSource.ask q t).2.repetitions =
      t.repetitions ++ (q.site?.map (·, (DecisionSource.ask q t.inner).1)).toList := by
  simp only [Transcript.ask_eq, Transcript.repetitions, List.filterMap_append]
  congr 1

end Transcript

namespace Tree

/-- The repetition nodes, in the order in which they were added. -/
def repetitionNodes (t : Tree) : List NodeId :=
  (List.range t.size).filter fun id => (t.node? id).any fun node => node.kind = .repetition

/-- The node records what was answered at a site, and the site names the production around it. -/
def Records (t : Tree) (asked : RepetitionSite × Except Fault Datum) (id : NodeId) : Prop :=
  ∃ node name names, t.node? id = some node ∧ node.kind = .repetition ∧
    asked.2 = .ok node.value ∧ t.Inside (some id) (name :: names) ∧
    asked.1.production = some name

variable {t t' : Tree} {parent : Option NodeId}

theorem Records.of_extends {linked : NodeId → List NodeId}
    {asked : RepetitionSite × Except Fault Datum} {id : NodeId} (h : t.Records asked id)
    (extended : t.Extends linked t') : t'.Records asked id := by
  obtain ⟨node, name, names, found, kind, answer, inside, production⟩ := h
  exact ⟨_, name, names, extended id node found, kind, answer, inside.of_extends extended,
    production⟩

theorem repetitionNodes_add {label : Label} (takes : t.Takes parent) :
    (t.add (label.under parent)).2.repetitionNodes =
      t.repetitionNodes ++ if label.kind = .repetition then [t.size] else [] := by
  have added : t.Takes (label.under parent).parent := takes
  have old : ∀ id ∈ List.range t.size,
      ((t.add (label.under parent)).2.node? id).any (fun node => node.kind = .repetition) =
        (t.node? id).any fun node => node.kind = .repetition := by
    intro id member
    have before : id ≠ t.size := Nat.ne_of_lt (List.mem_range.mp member)
    rw [node?_add added, if_neg before]
    cases t.node? id <;> rfl
  rw [repetitionNodes, size_add t _ takes.thawed, List.range_succ, List.filter_append,
    List.filter_congr old, repetitionNodes]
  congr 1
  rw [List.filter_cons, node?_add_self added]
  by_cases repetition : label.kind = .repetition
  · simp [Label.under, repetition]
  · simp [Label.under, repetition]

end Tree

/-- The sites are numbered in the order of the questions, and all that were asked about but those
pending have their nodes, in the same order. -/
structure Sited {σ : Type} (pending : List (RepetitionSite × Except Fault Datum))
    (source : Transcript σ) (sites : Nat) (tree : Tree) : Prop where
  numbered : source.repetitions.map (·.1.index) = (List.range sites).map fun n => .int n
  recorded : ∃ matched, source.repetitions = matched ++ pending ∧
    List.Forall₂ tree.Records matched tree.repetitionNodes

namespace Sited

variable {σ : Type} {pending : List (RepetitionSite × Except Fault Datum)} {source : Transcript σ}
  {sites : Nat} {tree : Tree} {parent : Option NodeId} {label : Label}

theorem ask_other {source' : Transcript σ} (h : Sited pending source sites tree)
    (same : source'.repetitions = source.repetitions) : Sited pending source' sites tree where
  numbered := by rw [same, h.numbered]
  recorded := by rw [same]; exact h.recorded

theorem ask_repetition {source' : Transcript σ} {production : Option String}
    {answer : Except Fault Datum} (h : Sited [] source sites tree)
    (asked : source'.repetitions = source.repetitions ++ [(⟨.int sites, production⟩, answer)]) :
    Sited [(⟨.int sites, production⟩, answer)] source' (sites + 1) tree where
  numbered := by
    rw [asked, List.map_append, h.numbered, List.range_succ, List.map_append]
    rfl
  recorded := by
    obtain ⟨matched, split, recorded⟩ := h.recorded
    exact ⟨matched, by rw [asked, split, List.append_nil], recorded⟩

theorem start (source : Transcript σ) (fresh : source.log = []) : Sited [] source 0 {} where
  numbered := by simp [Transcript.repetitions, fresh]
  recorded := ⟨[], by simp [Transcript.repetitions, fresh], .nil⟩

theorem freeze (h : Sited pending source sites tree) (frozen : Bool) :
    Sited pending source sites { tree with frozen } where
  numbered := h.numbered
  recorded := by
    obtain ⟨matched, split, recorded⟩ := h.recorded
    have extended : tree.Extends (fun _ => []) { tree with frozen } := fun id node found => by
      rw [Node.adopt_nil]
      exact found
    exact ⟨matched, split, recorded.imp fun _ _ records => records.of_extends extended⟩

theorem add_other (h : Sited pending source sites tree) (takes : tree.Takes parent)
    (other : label.kind ≠ .repetition) :
    Sited pending source sites (tree.add (label.under parent)).2 where
  numbered := h.numbered
  recorded := by
    have added : tree.Takes (label.under parent).parent := takes
    obtain ⟨matched, split, recorded⟩ := h.recorded
    refine ⟨matched, split, ?_⟩
    rw [Tree.repetitionNodes_add takes, if_neg other, List.append_nil]
    exact recorded.imp fun _ _ records => records.of_extends (Tree.extends_add added)

/-- The node of a repetition is added for the question that was put last. -/
theorem add_repetition {site : RepetitionSite} {name : String} {names : List String}
    (h : Sited [(site, .ok label.value)] source sites tree) (takes : tree.Takes parent)
    (repetition : label.kind = .repetition) (inside : tree.Inside parent (name :: names))
    (production : site.production = some name) :
    Sited [] source sites (tree.add (label.under parent)).2 where
  numbered := h.numbered
  recorded := by
    have added : tree.Takes (label.under parent).parent := takes
    obtain ⟨matched, split, recorded⟩ := h.recorded
    refine ⟨matched ++ [(site, .ok label.value)], by rw [split, List.append_nil], ?_⟩
    rw [Tree.repetitionNodes_add takes, if_pos repetition]
    have other : label.kind ≠ .nonTerminal := by simp [repetition]
    apply List.rel_append (recorded.imp fun _ _ records =>
      records.of_extends (Tree.extends_add added))
    refine .cons ⟨_, name, names, Tree.node?_add_self added, repetition, rfl,
      inside.descend takes other, production⟩ .nil

end Sited

namespace Expand

variable {σ κ : Type}

/-! ### The first phase -/

/-- What the first phase of a rule does: it asks about a repetition, counting its site, if the rule
is one, and about no repetition otherwise. -/
inductive Consulted (s : Expansion (Transcript σ) κ) :
    Rule → Except Fault (Label × List Rule) → Expansion (Transcript σ) κ → Prop where
  | repetition {item : Rule} {bounds : Bounds} {outcome : Except Fault (Label × List Rule)}
      {source : Transcript σ} {answer : Except Fault Datum}
      (asked : source.repetitions = s.source.repetitions ++
        [(⟨.int s.sites, s.productions.head?⟩, answer)])
      (served : ∀ result, outcome = .ok result → s.source.Served → source.Served)
      (recorded : ∀ label items, outcome = .ok (label, items) →
        label.kind = .repetition ∧ answer = .ok label.value) :
      Consulted s (.repetition item bounds) outcome { s with source, sites := s.sites + 1 }
  | other {rule : Rule} {outcome : Except Fault (Label × List Rule)} {source : Transcript σ}
      (asked : source.repetitions = s.source.repetitions)
      (served : ∀ result, outcome = .ok result → s.source.Served → source.Served)
      (recorded : ∀ label items, outcome = .ok (label, items) → label.kind ≠ .repetition) :
      Consulted s rule outcome { s with source }

theorem Consulted.failed (s : Expansion (Transcript σ) κ) (rule : Rule) (fault : Fault) :
    Consulted s rule (.error fault) s :=
  .other rfl nofun nofun

theorem Consulted.silent (s : Expansion (Transcript σ) κ) (rule : Rule) {label : Label}
    (items : List Rule) (other : label.kind ≠ .repetition) :
    Consulted s rule (.ok (label, items)) s :=
  .other rfl (fun _ _ served => served) (by rintro _ _ ⟨⟩; exact other)

theorem Consulted.unanswered {s : Expansion (Transcript σ) κ} {item : Rule} {bounds : Bounds}
    {source : Transcript σ} {answer : Except Fault Datum}
    (asked : source.repetitions = s.source.repetitions ++
      [(⟨.int s.sites, s.productions.head?⟩, answer)]) (fault : Fault) :
    Consulted s (.repetition item bounds) (.error fault)
      { s with source, sites := s.sites + 1 } :=
  .repetition asked nofun nofun

section

variable [DecisionSource σ]

theorem Consulted.refused (s : Expansion (Transcript σ) κ) (rule : Rule) {q : Question}
    (quiet : q.site? = none) (fault : Fault) :
    Consulted s rule (.error fault) { s with source := (DecisionSource.ask q s.source).2 } := by
  refine .other ?_ nofun nofun
  rw [Transcript.repetitions_ask, quiet, Option.map_none, Option.toList_none, List.append_nil]

theorem Consulted.accepted {s : Expansion (Transcript σ) κ} (rule : Rule) {q : Question}
    {answer : Datum} {label : Label} (items : List Rule) (quiet : q.site? = none)
    (answered : (DecisionSource.ask q s.source).1 = .ok answer)
    (other : label.kind ≠ .repetition) :
    Consulted s rule (.ok (label, items))
      { s with source := (DecisionSource.ask q s.source).2 } := by
  refine .other ?_ (fun _ _ served => served.ask answered) (by rintro _ _ ⟨⟩; exact other)
  rw [Transcript.repetitions_ask, quiet, Option.map_none, Option.toList_none, List.append_nil]

theorem consult_spec (plan : Plan κ) (rule : Rule) (s : Expansion (Transcript σ) κ) :
    Consulted s rule ((consult plan rule).exec s).1 ((consult plan rule).exec s).2 := by
  cases rule with
  | literal text => exact .silent s _ _ (by simp)
  | sequence items => exact .silent s _ _ (by simp)
  | alternative items =>
    rw [consult, exec_ask_bind]
    cases answered : (DecisionSource.ask (.alternative (.int items.length)) s.source).1 with
    | error fault => exact .refused s _ rfl fault
    | ok answer =>
      simp only
      cases branchOf items answer with
      | error fault => exact .refused s _ rfl fault
      | ok branch => exact .accepted _ _ rfl answered (by simp)
  | optional item =>
    rw [consult, exec_ask_bind]
    cases answered : (DecisionSource.ask .optional s.source).1 with
    | error fault => exact .refused s _ rfl fault
    | ok answer => exact .accepted _ _ rfl answered (by simp)
  | repetition item bounds =>
    have more := Transcript.repetitions_ask
      (.repetition bounds ⟨.int s.sites, s.productions.head?⟩) s.source
    rw [consult, exec_bind_of_ok (exec_nextSite s), exec_ask_bind]
    cases answered : (DecisionSource.ask
        (.repetition bounds ⟨.int s.sites, s.productions.head?⟩) s.source).1 with
    | error fault => exact .unanswered more fault
    | ok answer =>
      cases counted : countOf bounds ⟨.int s.sites, s.productions.head?⟩ answer with
      | error fault =>
        simp only [counted]
        exact .unanswered more fault
      | ok count =>
        simp only [counted]
        refine .repetition more (fun _ _ served => served.ask answered) ?_
        rintro _ _ ⟨⟩
        refine ⟨rfl, ?_⟩
        rw [← (countOf_ok counted).1]
        exact answered
  | nonTerminal name =>
    rw [consult]
    cases plan.grammar.production name with
    | error fault => exact .failed s _ fault
    | ok body => exact .silent s _ _ (by simp)
  | characters set =>
    rw [consult]
    cases classOf plan set with
    | error fault => exact .failed s _ fault
    | ok members =>
      rw [exec_bind_of_ok (exec_lift _ s), exec_ask_bind]
      cases answered : (DecisionSource.ask (.codepoint (.ofClass members)) s.source).1 with
      | error fault => exact .refused s _ rfl fault
      | ok answer =>
        simp only
        cases memberOf members set.name answer with
        | error fault => exact .refused s _ rfl fault
        | ok codepoint => exact .accepted _ _ rfl answered (by simp)
  | stray value => exact .failed s _ _

end

/-! ### Calls -/

/-- A call is made under a parent that stands in the productions being expanded, and whatever was
asked about has its node. -/
structure Visiting (parent : Option NodeId) (s : Expansion (Transcript σ) κ) :
    Prop where
  sited : Sited [] s.source s.sites s.tree
  takes : s.tree.Takes parent
  inside : s.tree.Inside parent s.productions

/-- Only the productions themselves are expanded outside every production. -/
def Rooted (rule : Rule) (s : Expansion (Transcript σ) κ) : Prop :=
  s.productions = [] → ∃ name, rule = .nonTerminal name

/-- What holds between the start and the end of every call. -/
structure Surveyed (s : Expansion (Transcript σ) κ) (ended : Option Fault)
    (t : Expansion (Transcript σ) κ) : Prop where
  served : ended = none → s.source.Served → t.source.Served
  extended : ∃ linked, s.tree.Extends linked t.tree
  frozen_eq : t.tree.frozen = s.tree.frozen
  productions_eq : t.productions = s.productions
  /-- A call that fails may leave its last question without a node. -/
  sited : ∃ pending, pending.length ≤ 1 ∧ (ended = none → pending = []) ∧
    Sited pending t.source t.sites t.tree

variable {s t u : Expansion (Transcript σ) κ} {ended : Option Fault} {parent : Option NodeId}

theorem Visiting.stop (h : Visiting parent s) (ended : Option Fault) : Surveyed s ended s where
  served _ served := served
  extended := ⟨_, Tree.extends_refl _⟩
  frozen_eq := rfl
  productions_eq := rfl
  sited := ⟨[], Nat.zero_le _, fun _ => rfl, h.sited⟩

theorem Surveyed.trans (first : Surveyed s none t) (second : Surveyed t ended u) :
    Surveyed s ended u where
  served completed served := second.served completed (first.served rfl served)
  extended := by
    obtain ⟨_, extended⟩ := first.extended
    obtain ⟨_, extendedToo⟩ := second.extended
    exact ⟨_, extended.trans extendedToo⟩
  frozen_eq := second.frozen_eq.trans first.frozen_eq
  productions_eq := second.productions_eq.trans first.productions_eq
  sited := second.sited

theorem Visiting.surveyed (h : Visiting parent s) (surveyed : Surveyed s none t) :
    Visiting parent t := by
  obtain ⟨linked, extended⟩ := surveyed.extended
  obtain ⟨pending, _, none_pending, sited⟩ := surveyed.sited
  obtain rfl := none_pending rfl
  refine ⟨sited, ⟨by rw [surveyed.frozen_eq, h.takes.thawed], ?_⟩, ?_⟩
  · intro id given
    exact Nat.lt_of_lt_of_le (h.takes.parent_lt id given) extended.size_le
  · rw [surveyed.productions_eq]
    exact h.inside.of_extends extended

variable {expandOne : Rule → Option NodeId → Expand (Transcript σ) κ Unit}

/-- Every call keeps the sites in order. -/
def Surveys (expandOne : Rule → Option NodeId → Expand (Transcript σ) κ Unit) : Prop :=
  ∀ rule parent s, Visiting parent s → Rooted rule s →
    Surveyed s (faultOf ((expandOne rule parent).exec s).1) ((expandOne rule parent).exec s).2

theorem surveyed_forM (each : Surveys expandOne) {id : NodeId} (items : List Rule)
    (visiting : Visiting (some id) s) (inner : s.productions ≠ []) :
    Surveyed s (faultOf ((items.forM fun item => expandOne item (some id)).exec s).1)
      ((items.forM fun item => expandOne item (some id)).exec s).2 := by
  induction items generalizing s with
  | nil => exact visiting.stop _
  | cons item rest ih =>
    have first := each item (some id) s visiting fun outside => absurd outside inner
    change Surveyed s (faultOf ((expandOne item (some id) >>= fun _ => rest.forM _).exec s).1)
      ((expandOne item (some id) >>= fun _ => rest.forM _).exec s).2
    rcases ran : (expandOne item (some id)).exec s with ⟨fault | _, t⟩
    · rw [ran] at first
      rw [exec_bind_of_error ran]
      exact first
    · rw [ran] at first
      rw [exec_bind_of_ok ran]
      have inner : t.productions ≠ [] := by
        rw [first.productions_eq]
        exact inner
      exact first.trans (ih (visiting.surveyed first) inner)

theorem Surveyed.of_add {label : Label} (takes : s.tree.Takes parent)
    (tree_eq : t.tree = (s.tree.add (label.under parent)).2)
    (productions_eq : t.productions = s.productions)
    (source_eq : t.source = s.source) (sited : Sited [] t.source t.sites t.tree) :
    Surveyed s ended t where
  served _ served := by
    rw [source_eq]
    exact served
  extended := by
    have added : s.tree.Takes (label.under parent).parent := takes
    rw [tree_eq]
    exact ⟨_, Tree.extends_add added⟩
  frozen_eq := by rw [tree_eq, Tree.frozen_add]
  productions_eq := productions_eq
  sited := ⟨[], Nat.zero_le _, fun _ => rfl, sited⟩

theorem Visiting.surveyed_within {id : NodeId} {name : String}
    {action : Expand (Transcript σ) κ Unit}
    (h : Visiting (some id) { s with productions := name :: s.productions })
    (inside : ∀ s, Visiting (some id) s → s.productions ≠ [] →
      Surveyed s (faultOf (action.exec s).1) (action.exec s).2) :
    Surveyed s (faultOf ((within name action).exec s).1) ((within name action).exec s).2 := by
  have surveyed := inside _ h (List.cons_ne_nil _ _)
  rw [exec_within]
  exact { surveyed with productions_eq := by simp [surveyed.productions_eq] }

/-- The second phase adds one node, in a state in which that makes everything recorded. -/
theorem surveyed_grow (plan : Plan κ) (each : Surveys expandOne) {label : Label}
    (items : List Rule) (added : Sited [] s.source s.sites (s.tree.add (label.under parent)).2)
    (takes : s.tree.Takes parent) (inside : s.tree.Inside parent s.productions)
    (labelled : (label.kind = .nonTerminal ∧ ∃ name, label.name = some name) ∨
      label.kind ≠ .nonTerminal ∧ s.productions ≠ []) :
    Surveyed s (faultOf ((grow plan expandOne parent label items).exec s).1)
      ((grow plan expandOne parent label items).exec s).2 := by
  have taken : s.tree.Takes (label.under parent).parent := takes
  have grown : Surveyed s none { s with tree := (s.tree.add (label.under parent)).2 } :=
    .of_add takes rfl rfl rfl added
  unfold grow
  by_cases leaf : label.kind.isLeaf = true
  · rw [if_pos leaf]
    obtain ⟨chunks, size, left⟩ := exec_leaf_left plan label parent s
    rw [left]
    exact .of_add takes rfl rfl rfl added
  · rw [if_neg leaf, exec_bind_of_ok (exec_addNode_of_takes takes)]
    rcases labelled with ⟨production, name, named⟩ | ⟨other, inner⟩
    · rw [production, named]
      have entered := inside.enter takes production named
      refine grown.trans (Visiting.surveyed_within ⟨added, taken.add, entered⟩ ?_)
      intro s visiting inner
      exact surveyed_forM each items visiting inner
    · have below : Visiting (some s.tree.size)
          { s with tree := (s.tree.add (label.under parent)).2 } :=
        ⟨added, taken.add, inside.descend takes other⟩
      split
      next kind _ => exact absurd kind other
      next => exact grown.trans (surveyed_forM each items below inner)

variable [DecisionSource σ]

theorem surveyed_step (plan : Plan κ) (bare : ∀ name, plan.replacements.find? name = none)
    (each : Surveys expandOne) (rule : Rule) (visiting : Visiting parent s)
    (rooted : Rooted rule s) :
    Surveyed s (faultOf ((step plan expandOne rule parent).exec s).1)
      ((step plan expandOne rule parent).exec s).2 := by
  rw [step_eq plan expandOne rule parent fun name _ => bare name]
  have consulted := consult_spec plan rule s
  rcases ran : (consult plan rule).exec s with ⟨fault | ⟨label, items⟩, t⟩
  · rw [ran] at consulted
    rw [exec_bind_of_error ran]
    cases consulted with
    | repetition asked _ _ =>
      exact ⟨nofun, ⟨_, Tree.extends_refl _⟩, rfl, rfl, _, Nat.le_refl _, nofun,
        visiting.sited.ask_repetition asked⟩
    | other asked _ _ =>
      exact ⟨nofun, ⟨_, Tree.extends_refl _⟩, rfl, rfl, [], Nat.zero_le _, nofun,
        visiting.sited.ask_other asked⟩
  · rw [ran] at consulted
    rw [exec_bind_of_ok ran]
    have labelled : (label.kind = .nonTerminal ∧ ∃ name, label.name = some name) ∨
        label.kind ≠ .nonTerminal ∧ s.productions ≠ [] := by
      rcases consult_label ran with ⟨production, name, _, named⟩ | ⟨other, inner⟩
      · exact .inl ⟨production, name, named⟩
      · refine .inr ⟨other, fun outside => ?_⟩
        obtain ⟨name, production⟩ := rooted outside
        exact inner name production
    cases consulted with
    | @repetition _ _ _ source _ asked served recorded =>
      obtain ⟨repetition, rfl⟩ := recorded label items rfl
      obtain ⟨name, names, productions⟩ : ∃ name names, s.productions = name :: names :=
        List.exists_cons_of_ne_nil fun outside => nomatch rooted outside
      have inside := visiting.inside
      rw [productions] at inside
      have added := (visiting.sited.ask_repetition asked).add_repetition visiting.takes repetition
        inside (by rw [productions]; rfl)
      have other : label.kind ≠ .nonTerminal := by simp [repetition]
      have surveyed := surveyed_grow (s := { s with source, sites := s.sites + 1 }) plan each items
        added visiting.takes visiting.inside (.inr ⟨other, by simp [productions]⟩)
      exact { surveyed with
        served := fun completed before => surveyed.served completed (served _ rfl before) }
    | @other _ _ source asked served recorded =>
      have added := (visiting.sited.ask_other asked).add_other visiting.takes
        (recorded label items rfl)
      have surveyed := surveyed_grow (s := { s with source }) plan each items added visiting.takes
        visiting.inside labelled
      exact { surveyed with
        served := fun completed before => surveyed.served completed (served _ rfl before) }

theorem surveys_expand (plan : Plan κ) (bare : ∀ name, plan.replacements.find? name = none)
    (fuel : Nat) : Surveys (expand (σ := Transcript σ) plan fuel) := by
  induction fuel with
  | zero => exact fun _ _ _ visiting _ => visiting.stop _
  | succ fuel ih =>
    intro rule parent s visiting rooted
    rw [expand, exec_nested]
    cases levelOutcome plan (s.depth + 1) s.productions with
    | error fault => exact visiting.stop _
    | ok _ =>
      have inside : Visiting parent { s with depth := s.depth + 1 } :=
        ⟨visiting.sited, visiting.takes, visiting.inside⟩
      have surveyed := surveyed_step plan bare ih rule inside rooted
      exact { surveyed with }

end Expand

namespace Generator

variable {σ κ : Type} [DecisionSource σ]

/-- In every run without replacements the sites are numbered in the order of the questions, and the
repetition nodes stand in that order; a run that fails may leave the last question without a
node. -/
theorem runWithin_sited {g : Generator κ} (bare : ∀ name, g.replacements.find? name = none)
    (call : Call) (start : Option String) (source : σ) (user : κ) :
    let told := g.runWithin call start ({ inner := source } : Transcript σ) user
    (∃ pending, pending.length ≤ 1 ∧ (told.outcome = .ok () → pending = []) ∧
        Sited pending told.final.source told.final.sites told.final.tree) ∧
      (told.outcome = .ok () → told.final.source.Served) := by
  intro told
  cases found : g.startOf start with
  | error fault =>
    simp only [told, runWithin, found]
    refine ⟨⟨[], Nat.zero_le _, fun _ => rfl, .start _ rfl⟩, fun completed => ?_⟩
    cases completed
  | ok name =>
    obtain ⟨outcome_eq, final_eq⟩ := Prod.mk.inj
      (g.runWithin_eq_settle found call ({ inner := source } : Transcript σ) user)
    have visiting : Expand.Visiting none
        (call.begin { inner := source } user : Expansion (Transcript σ) κ) :=
      ⟨.start _ rfl, Derivation.takes_empty, Tree.inside_none _⟩
    have surveyed := Expand.surveys_expand g.plan bare call.ceiling (.nonTerminal name) none _
      visiting fun _ => ⟨name, rfl⟩
    revert surveyed outcome_eq final_eq
    generalize (Expand.expand g.plan call.ceiling (.nonTerminal name) none).exec
      (call.begin ({ inner := source } : Transcript σ) user) = ended
    intro outcome_eq final_eq surveyed
    have completed (done : told.outcome = .ok ()) : faultOf ended.1 = none := by
      rw [settle_ok (outcome_eq.symm.trans done)]
      rfl
    obtain ⟨frozen, left⟩ := settle_left name ended
    have final_eq : told.final = (settle name ended).2 := final_eq
    rw [final_eq, left]
    obtain ⟨pending, short, none_pending, sited⟩ := surveyed.sited
    refine ⟨⟨pending, short, fun done => none_pending (completed done), sited.freeze frozen⟩, ?_⟩
    intro done
    have unasked : ({ inner := source } : Transcript σ).Served := by
      intro _ member
      cases member
    exact surveyed.served (completed done) unasked

end Generator

end SentenceGen
