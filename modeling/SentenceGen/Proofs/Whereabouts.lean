import SentenceGen.Proofs.Ancestry
import SentenceGen.Proofs.Conduct

/-!
# Where a callback is

The productions being expanded are kept in a list, the tree links every node to its parent, and the
text grows in pieces.  While a callback runs, the three tell the same: the way up from its node
leads through the productions of the list, and what the text has gained since the callback was
called is below its node.
-/

namespace SentenceGen

namespace Tree

variable {t t' : Tree}

/-- The way up from a place ends at the first node, which is that of a production. -/
def Founded (t : Tree) (id : NodeId) : Prop :=
  ∃ above, t.Ascent (id :: above) ∧ (id :: above).getLast? = some 0 ∧ t.isProduction 0 = true

theorem isProduction_of_extends {linked : NodeId → List NodeId} (extended : t.Extends linked t')
    {id : NodeId} (production : t.isProduction id = true) : t'.isProduction id = true := by
  obtain ⟨node, found, kind⟩ := (Option.any_eq_true _ _).mp production
  rw [isProduction, extended id node found]
  exact kind

theorem Founded.of_extends {linked : NodeId → List NodeId} {id : NodeId} (h : t.Founded id)
    (extended : t.Extends linked t') : t'.Founded id := by
  obtain ⟨above, ascent, last, production⟩ := h
  exact ⟨above, ascent.of_extends extended, last, isProduction_of_extends extended production⟩

theorem founded_add {parent : Option NodeId} {label : Label} (takes : t.Takes parent)
    (founded : ∀ id, parent = some id → t.Founded id)
    (outermost : parent = none → t.size = 0 ∧ label.kind = .nonTerminal) :
    (t.add (label.under parent)).2.Founded t.size := by
  have added : t.Takes (label.under parent).parent := takes
  cases parent with
  | none =>
    obtain ⟨empty, production⟩ := outermost rfl
    have found := node?_add_self added
    rw [empty] at found ⊢
    have root : t.Ascent [] := trivial
    refine ⟨[], empty ▸ ascent_add root rfl takes, rfl, ?_⟩
    rw [isProduction, found]
    simp [Label.under, production]
  | some id =>
    obtain ⟨above, ascent, last, production⟩ := founded id rfl
    exact ⟨id :: above, ascent_add ascent rfl takes, by rw [List.getLast?_cons_cons, last],
      isProduction_of_extends (extends_add added) production⟩

/-- Only the first node stands in no production. -/
theorem Ascent.outermost {id : NodeId} {above : List NodeId} (h : t.Ascent (id :: above))
    (founded : t.Founded id) : (above.filter t.isProduction).head? = none ↔ id = 0 := by
  obtain ⟨others, ascent, last, production⟩ := founded
  obtain rfl : above = others := Except.ok.inj (h.ancestors.symm.trans ascent.ancestors)
  rw [List.head?_eq_none_iff]
  constructor
  · intro none_above
    cases above with
    | nil => simpa using last
    | cons parent above =>
      rw [List.getLast?_cons_cons] at last
      have member : 0 ∈ parent :: above := List.mem_of_getLast? last
      exact absurd production (List.filter_eq_nil_iff.mp none_above 0 member)
  · rintro rfl
    have short := h.length_le
    rw [List.length_eq_zero_iff.mp (Nat.le_zero.mp short)]
    rfl

theorem find?_eq_none_iff {places : List NodeId} {names : List String}
    (named : places.map t.nameOf = names.map some) (name : String) :
    places.find? (fun place => t.nameOf place = some name) = none ↔ name ∉ names := by
  have member : name ∈ names ↔ ∃ place ∈ places, t.nameOf place = some name := by
    rw [← List.mem_map, named]
    simp
  rw [List.find?_eq_none, member]
  simp

/-- What was grafted below a node without children is its text. -/
theorem render_graftAll {id : NodeId} {node : Node} (takes : t.Takes (some id))
    (found : t.node? id = some node) (inner : node.kind.isLeaf = false)
    (childless : node.children = #[]) (more : List Derivation) :
    (Derivation.graftAll more (some id) t).render id =
      String.join (Derivation.leafTextsAll more) := by
  obtain ⟨ids, grafted, shown⟩ := grafted_graftAll more takes
  have present := takes.parent_lt id rfl
  have shows : (Derivation.graftAll more (some id) t).Shows (.node node.label more) id := by
    refine ⟨_, grafted.extended id node found, rfl, ?_, ?_⟩
    · intro child member
      have fresh := grafted.fresh child (by simpa [childless] using member)
      exact Nat.lt_of_lt_of_le present fresh
    · simpa [childless] using shown
  have room : (Derivation.node node.label more).size ≤
      (Derivation.graftAll more (some id) t).size := by
    rw [grafted.size_eq, Derivation.size]
    omega
  rw [shows.render room, Derivation.text, Derivation.leafTexts, Node.label, inner]
  rfl

end Tree

/-- At the moment the callback is where its productions say, and has gained the text below it. -/
structure Moment.Oriented {σ κ : Type} (m : Moment σ κ) (above : List NodeId) : Prop where
  ancestors : m.now.tree.ancestors m.own.node = .ok above
  names : m.now.tree.productionNames (m.own.node :: above) = m.now.productions.map some
  /-- The next production outwards, which only the start has not. -/
  production : ∃ outer, m.now.tree.production m.own.node = .ok outer ∧
    outer = (above.filter m.now.tree.isProduction).head? ∧
    outer.map m.now.tree.nameOf = m.now.productions.tail.head?.map some ∧
    (outer = none ↔ m.own.node = 0)
  ancestor (name : String) : ∃ outer, m.now.tree.ancestor (some name) m.own.node = .ok outer ∧
    outer = (above.filter m.now.tree.isProduction).find?
      (fun place => m.now.tree.nameOf place = some name) ∧
    (outer = none ↔ name ∉ m.now.productions.tail)
  text : m.now.text = m.entered.text ++ m.now.tree.render m.own.node

namespace Expand

open Expansion SentenceGen.Derivation

variable {σ κ : Type}

/-! ### Places -/

/-- Nodes are added under a parent that stands in the productions being expanded. -/
structure Situated (parent : Option NodeId) (s : Expansion σ κ) : Prop where
  takes : s.tree.Takes parent
  inside : s.tree.Inside parent s.productions
  founded (id : NodeId) : parent = some id → s.tree.Founded id
  outermost : parent = none → s.tree.size = 0

variable {call : Call} {own : Context} {parent : Option NodeId} {s t : Expansion σ κ}

theorem situated_start (source : σ) (user : κ) :
    Situated none (call.begin source user : Expansion σ κ) where
  takes := Derivation.takes_empty
  inside := Tree.inside_none _
  founded _ nowhere := by cases nowhere
  outermost _ := rfl

theorem Situated.of_grown {id : NodeId} {more : List Derivation} (h : Situated (some id) s)
    (grown : Grown (some id) more s t) (productions_eq : t.productions = s.productions) :
    Situated (some id) t := by
  obtain ⟨ids, grafted, _⟩ := Tree.grafted_graftAll more h.takes
  have extended : s.tree.Extends (Tree.linkedTo (some id) ids) t.tree := by
    rw [grown.tree_eq]
    exact grafted.extended
  refine ⟨grown.takes h.takes, ?_, ?_, nofun⟩
  · rw [productions_eq]
    exact h.inside.of_extends extended
  · rintro _ ⟨⟩
    exact (h.founded id rfl).of_extends extended

theorem Situated.enter (h : Situated parent s) {label : Label} {name : String}
    (production : label.kind = .nonTerminal) (named : label.name = some name) :
    Situated (some s.tree.size) { s with
      tree := (s.tree.add (label.under parent)).2, productions := name :: s.productions } where
  takes := by
    have added : s.tree.Takes (label.under parent).parent := h.takes
    exact added.add
  inside := h.inside.enter h.takes production named
  founded := by
    rintro _ ⟨⟩
    exact Tree.founded_add h.takes h.founded fun outer => ⟨h.outermost outer, production⟩
  outermost := nofun

theorem Situated.descend (h : Situated parent s) {label : Label}
    (other : label.kind ≠ .nonTerminal) (inner : parent ≠ none) :
    Situated (some s.tree.size) { s with tree := (s.tree.add (label.under parent)).2 } where
  takes := by
    have added : s.tree.Takes (label.under parent).parent := h.takes
    exact added.add
  inside := h.inside.descend h.takes other
  founded := by
    rintro _ ⟨⟩
    exact Tree.founded_add h.takes h.founded fun outer => absurd outer inner
  outermost := nofun

/-- A callback is called for a node that was just added. -/
structure Entered (own : Context) (s : Expansion σ κ) : Prop where
  situated : Situated (some own.node) s
  childless : ∃ node, s.tree.node? own.node = some node ∧ node.kind = .nonTerminal ∧
    node.children = #[]

/-- Since it was called, the callback has only added derivations under its node. -/
structure Progress (own : Context) (entered now : Expansion σ κ) : Prop where
  called : Entered own entered
  grown : ∃ more, Grown (some own.node) more entered now
  productions_eq : now.productions = entered.productions

theorem Progress.situated {own : Context} {entered now : Expansion σ κ}
    (h : Progress own entered now) : Situated (some own.node) now := by
  obtain ⟨more, grown⟩ := h.grown
  exact h.called.situated.of_grown grown h.productions_eq

theorem Progress.text_eq {own : Context} {entered now : Expansion σ κ}
    (h : Progress own entered now) : now.text = entered.text ++ now.tree.render own.node := by
  obtain ⟨more, grown⟩ := h.grown
  obtain ⟨node, found, production, childless⟩ := h.called.childless
  have inner : node.kind.isLeaf = false := by rw [production]; rfl
  rw [grown.tree_eq, Tree.render_graftAll h.called.situated.takes found inner childless,
    Expansion.text, Expansion.text, grown.chunks_eq, String.join_append]

theorem Progress.isProduction {own : Context} {entered now : Expansion σ κ}
    (h : Progress own entered now) : now.tree.isProduction own.node = true := by
  obtain ⟨more, grown⟩ := h.grown
  obtain ⟨ids, grafted, _⟩ := Tree.grafted_graftAll more h.called.situated.takes
  obtain ⟨node, found, production, _⟩ := h.called.childless
  rw [grown.tree_eq]
  apply Tree.isProduction_of_extends grafted.extended
  simp [Tree.isProduction, found, production]

theorem Progress.oriented {m : Moment σ κ} (h : Progress m.own m.entered m.now) :
    ∃ above, m.Oriented above := by
  obtain ⟨above, ascent, named⟩ := h.situated.inside.ascent
  have root := ascent.outermost (h.situated.founded _ rfl)
  have split := named
  rw [Tree.productionNames, List.filter_cons_of_pos h.isProduction] at split
  obtain ⟨name, outer, productions⟩ : ∃ name outer, m.now.productions = name :: outer := by
    cases productions : m.now.productions with
    | nil => simp [productions] at split
    | cons name outer => exact ⟨name, outer, rfl⟩
  rw [productions, List.map_cons, List.map_cons, List.cons.injEq] at split
  obtain ⟨_, outerNames⟩ := split
  refine ⟨above, ascent.ancestors, named, ⟨_, ascent.production, rfl, ?_, root⟩,
    fun name => ⟨_, ascent.ancestor name, rfl, ?_⟩, h.text_eq⟩
  · rw [productions, List.tail_cons, ← List.head?_map, ← List.head?_map, outerNames]
  · rw [productions, List.tail_cons]
    exact Tree.find?_eq_none_iff outerNames name

/-! ### Callbacks that grow -/

/-- All callbacks so far have only grown whenever they acted. -/
def Faithful (s : Expansion (Chronicled σ κ) κ) : Prop :=
  ∀ m, .acted m ∈ s.events → Progress m.own m.entered m.now

theorem Faithful.of_eq {s t : Expansion (Chronicled σ κ) κ} (h : Faithful s)
    (events_eq : t.events = s.events) : Faithful t := by
  unfold Faithful
  rw [events_eq]
  exact h

theorem Faithful.told {s : Expansion (Chronicled σ κ) κ} (h : Faithful s) {event : Event σ κ}
    (faithful : ∀ m, event = .acted m → Progress m.own m.entered m.now) :
    Faithful (s.told event) := by
  intro m member
  rcases List.mem_append.mp member with before | last
  · exact h m before
  · exact faithful m (List.mem_singleton.mp last).symm

/-- Below the place derivations were added, and nothing else was done to the tree or the text. -/
structure Gains (parent : Option NodeId) (s t : Expansion (Chronicled σ κ) κ) : Prop where
  grown : ∃ more, Grown parent more s.bare t.bare
  productions_eq : t.productions = s.productions
  faithful : Faithful t

/-- A callback is running and has done nothing but to grow. -/
structure Growing (own : Context) (begun s : Expansion (Chronicled σ κ) κ) : Prop where
  progress : Progress own begun.bare s.bare
  faithful : Faithful s

section

variable {s t u below : Expansion (Chronicled σ κ) κ}

theorem alike_of_untouched (h : Untouched s t) : Alike s.bare t.bare :=
  ⟨h.tree_eq, h.chunks_eq, h.size_eq⟩

theorem Situated.of_untouched (h : Situated parent s.bare) (untouched : Untouched s t) :
    Situated parent t.bare := by
  obtain ⟨takes, inside, founded, outermost⟩ := h
  constructor
  case takes =>
    change t.tree.Takes parent
    rw [untouched.tree_eq]
    exact takes
  case inside =>
    change t.tree.Inside parent t.productions
    rw [untouched.tree_eq, untouched.productions_eq]
    exact inside
  case founded =>
    change ∀ id, parent = some id → t.tree.Founded id
    rw [untouched.tree_eq]
    exact founded
  case outermost =>
    change parent = none → t.tree.size = 0
    rw [untouched.tree_eq]
    exact outermost

theorem Gains.trans (first : Gains parent s t) (second : Gains parent t u) : Gains parent s u where
  grown := by
    obtain ⟨more, grown⟩ := first.grown
    obtain ⟨others, grownToo⟩ := second.grown
    exact ⟨_, grown.trans grownToo⟩
  productions_eq := second.productions_eq.trans first.productions_eq
  faithful := second.faithful

/-- What is gained below an inner node that was just added is gained with it. -/
theorem Gains.above (label : Label) (h : Gains (some s.tree.size) below t)
    (inner : label.kind.isLeaf = false)
    (begun : Alike { s.bare with tree := (s.tree.add (label.under parent)).2 } below.bare)
    (ended : Alike t.bare u.bare) (productions_eq : u.productions = s.productions)
    (faithful : Faithful u) : Gains parent s u where
  grown := by
    obtain ⟨more, grown⟩ := h.grown
    have grown : Grown parent [.node label more] s.bare t.bare :=
      .of_inner inner (grown.after_alike begun)
    exact ⟨_, grown.alike_after ended⟩
  productions_eq := productions_eq
  faithful := faithful

theorem Growing.gains (h : Growing own s t) : Gains (some own.node) s t where
  grown := h.progress.grown
  productions_eq := h.progress.productions_eq
  faithful := h.faithful

theorem Growing.resumed (h : Growing own s t) (gains : Gains (some own.node) t u) :
    Growing own s u where
  progress := by
    have gained := h.gains.trans gains
    exact ⟨h.progress.called, gained.grown, gained.productions_eq⟩
  faithful := gains.faithful

theorem faithful_grown (h : Faithful s) (node : Node) : Faithful (s.grown node) :=
  h.told (s := { s with tree := (s.tree.add node).2 }) nofun

end

/-- Callbacks that keep to their own contexts do nothing but to grow. -/
def growth (σ : Type) {κ : Type} (plan : Plan κ) : Conduct σ plan True where
  Fits parent s := Situated parent s.bare ∧ Faithful s
  Moves := Gains
  Runs := Growing
  takes h := h.1.takes
  stays h untouched := ⟨h.1.of_untouched untouched, h.2.of_eq untouched.events_eq⟩
  refl h := ⟨⟨[], (alike_refl _).grown _⟩, rfl, h.2⟩
  trans := Gains.trans
  ends h untouched := by
    obtain ⟨more, grown⟩ := h.grown
    exact ⟨⟨more, grown.alike_after (alike_of_untouched untouched)⟩,
      untouched.productions_eq.trans h.productions_eq, h.faithful.of_eq untouched.events_eq⟩
  next h gains := by
    obtain ⟨more, grown⟩ := gains.grown
    exact ⟨h.1.of_grown grown gains.productions_eq, gains.faithful⟩
  reaches {parent s} h := by
    have faithful : Faithful (s.told (.reached s.bare)) := h.2.told nofun
    exact ⟨⟨h.1, faithful⟩, ⟨[], (alike_refl _).grown _⟩, rfl, faithful⟩
  leaf {id s label} h made isLeaf := by
    refine ⟨⟨[.node label []], ?_⟩, productions_spoken _ _, ?_⟩
    · rw [bare_spoken]
      exact .of_leaf isLeaf s.bare
    · exact (faithful_grown h.2 (label.under (some id))).of_eq (events_spoken _ _)
  inner {id s label} h made inner other := by
    have faithful := faithful_grown h.2 (label.under (some id))
    refine ⟨⟨h.1.descend other nofun, faithful⟩, fun gains => ?_⟩
    exact gains.above label inner (alike_refl _) (alike_refl _) gains.productions_eq gains.faithful
  keeps {parent s name} h unbound := by
    let label : Label := { kind := .nonTerminal, name := some name }
    have faithful : Faithful (s.keeping name parent) :=
      (faithful_grown h.2 (label.under parent)).told nofun
    have situated : Situated (some s.tree.size) { s.bare with
        tree := (s.tree.add (label.under parent)).2, productions := name :: s.productions } :=
      h.1.enter rfl rfl
    refine ⟨⟨situated, faithful⟩, fun {t} gains => ?_⟩
    exact gains.above label rfl ⟨rfl, rfl, rfl⟩ ⟨rfl, rfl, rfl⟩
      (congrArg List.tail gains.productions_eq) gains.faithful
  calls {parent s name callback} h bound := by
    let label : Label := { kind := .nonTerminal, name := some name }
    have faithful : Faithful (s.calling name parent callback) :=
      (faithful_grown h.2 (label.under parent)).told nofun
    have taken : s.tree.Takes (label.under parent).parent := h.1.takes
    have situated : Situated (some s.tree.size) { s.bare with
        tree := (s.tree.add (label.under parent)).2, productions := name :: s.productions } :=
      h.1.enter rfl rfl
    have entered : Entered (s.nextContext name) (s.calling name parent callback).bare :=
      ⟨⟨situated.takes, situated.inside, situated.founded, nofun⟩,
        _, Tree.node?_add_self taken, rfl, rfl⟩
    refine ⟨⟨⟨entered, ⟨[], (alike_refl _).grown _⟩, rfl⟩, faithful⟩, fun {t} growing => ?_⟩
    exact growing.gains.above label rfl ⟨rfl, rfl, rfl⟩ ⟨rfl, rfl, rfl⟩
      (congrArg List.tail growing.progress.productions_eq) (growing.faithful.told nofun)
  acts h := ⟨h.progress, h.faithful.told fun m same => by cases same; exact h.progress⟩
  resumes {own begun s t} h untouched := by
    obtain ⟨more, grown⟩ := h.progress.grown
    exact ⟨⟨h.progress.called, ⟨more, grown.alike_after (alike_of_untouched untouched)⟩,
      untouched.productions_eq.trans h.progress.productions_eq⟩,
      h.faithful.of_eq untouched.events_eq⟩
  requests h live allowed := by
    obtain rfl := allowed trivial
    exact ⟨⟨h.progress.situated, h.faithful⟩, h.resumed⟩

end Expand

namespace Generator

variable {σ κ : Type} [DecisionSource σ]

/-- At every moment of every callback of a run, outside the expansions that the callback asks for,
the way up from its node leads through the productions being expanded, and the text that was added
since it was called is the rendering of its node.  This holds of callbacks that use no context but
their own, whatever they catch and however the run ends. -/
theorem callbacks_oriented (g : Generator κ) (isLocal : g.replacements.Local) (call : Call)
    (start : Option String) (source : σ) (user : κ) :
    let r := g.runWithin call start source user
    let chronicle := g.chronicle call start source user
    (r.outcome = chronicle.1 ∧ r.final = chronicle.2.bare) ∧
      ∀ m, .acted m ∈ chronicle.2.events → ∃ above, m.Oriented above := by
  intro r chronicle
  refine ⟨g.runWithin_chronicle call start source user, fun m member => ?_⟩
  obtain ⟨ended, frozen, gains, left⟩ := g.chronicle_moves (Expand.growth σ g.plan)
    (fun _ => isLocal) call start source user ⟨Expand.situated_start source user, nofun⟩
  rw [show chronicle.2 = _ from left] at member
  exact (gains.faithful m member).oriented

theorem marked_callbacks_oriented :
    let script : Script := { queue := [.repeats (.int 1), .repeats (.int 0)] }
    let events := (marked.chronicle (.first 20) none script ()).2.events
    ((events.filterMap Event.moment?).map fun m =>
        (m.own.node, m.now.productions, m.now.text)) =
        [(0, ["s"], ""), (0, ["s"], ""), (4, ["s", "s"], "a"), (4, ["s", "s"], "a"),
          (4, ["s", "s"], "aa"), (4, ["s", "s"], "aa!"), (0, ["s"], "aa!"), (0, ["s"], "aa!!")] ∧
      ∀ m, .acted m ∈ events → ∃ above, m.Oriented above :=
  ⟨by decide +kernel, (callbacks_oriented marked marked_local (.first 20) none _ ()).2⟩

end Generator

end SentenceGen
