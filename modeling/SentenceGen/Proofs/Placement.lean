import Mathlib.Data.List.Chain
import SentenceGen.Proofs.Conduct
import SentenceGen.Proofs.Preorder

/-!
# Every moment of a run is in preorder

The tree of a run changes only when a node is added, so the trees of a chronicle show it at every
moment.  The engine adds the node of a rule below the node of the rule around it, and a callback
that keeps to its own context adds below the node that it was called for.  Both are on the edge of
the tree then, and stay on it while anything is added below them, whatever faults are caught on the
way.
-/

namespace SentenceGen

/-- The second tree has one node more. -/
def Tree.OneMore (t t' : Tree) : Prop :=
  ∃ (label : Label) (parent : Option NodeId), t.add (label.under parent) = (.ok t.size, t')

theorem Tree.Edge.takes {t : Tree} {parent : Option NodeId} (h : t.Edge parent)
    (thawed : t.frozen = false) : t.Takes parent where
  thawed := thawed
  parent_lt := by
    rintro id rfl
    exact h.1

/-- The trees of a run, from the empty one on. -/
def Expansion.film {σ κ : Type} (s : Expansion (Chronicled σ κ) κ) : List Tree :=
  {} :: s.events.filterMap Event.tree?

theorem Expansion.film_grown {σ κ : Type} (s : Expansion (Chronicled σ κ) κ) (node : Node) :
    (s.grown node).film = s.film ++ [(s.tree.add node).2] :=
  congrArg (List.cons _) List.filterMap_append

/-- No other event has a picture. -/
theorem Expansion.film_told {σ κ : Type} (s : Expansion (Chronicled σ κ) κ) {event : Event σ κ}
    (unseen : event.tree? = none) : (s.told event).film = s.film := by
  rw [film, film, events_told, List.filterMap_append, List.filterMap_cons_none unseen,
    List.filterMap_nil, List.append_nil]

namespace Expand

open Expansion

variable {σ κ : Type}

/-- A film from the empty tree to the present one, node by node, of trees that grow on their edge.
-/
structure Filming (s : Expansion (Chronicled σ κ) κ) : Prop where
  thawed : s.tree.frozen = false
  shown : s.film.getLast? = some s.tree
  grown : s.film.IsChain Tree.OneMore
  trailing : ∀ t ∈ s.film, t.Trailing

/-- Neither tree nor film was touched. -/
structure Still (s t : Expansion (Chronicled σ κ) κ) : Prop where
  tree_eq : t.tree = s.tree
  film_eq : t.film = s.film

/-- The film goes on, and the parent is on the edge still. -/
structure Advanced (parent : Option NodeId) (s t : Expansion (Chronicled σ κ) κ) : Prop where
  filming : Filming t
  extended : ∃ linked, s.tree.Extends linked t.tree
  edge : ∀ id, parent = some id → t.tree.Edge (some id)

variable {s t u : Expansion (Chronicled σ κ) κ} {parent : Option NodeId} {label : Label}

theorem still_of_untouched (h : Untouched s t) : Still s t where
  tree_eq := h.tree_eq
  film_eq := by rw [film, film, h.events_eq]

theorem still_told (s : Expansion (Chronicled σ κ) κ) {event : Event σ κ}
    (unseen : event.tree? = none) : Still s (s.told event) := ⟨rfl, s.film_told unseen⟩

theorem still_spoken (s : Expansion (Chronicled σ κ) κ) (text : String) :
    Still s (s.spoken text) := ⟨s.tree_spoken text, by rw [film, film, s.events_spoken]⟩

theorem Filming.present (h : Filming s) : s.tree.Trailing :=
  h.trailing _ (List.mem_of_getLast? h.shown)

theorem Filming.of_still (h : Filming s) (still : Still s t) : Filming t where
  thawed := by rw [still.tree_eq, h.thawed]
  shown := by rw [still.film_eq, still.tree_eq, h.shown]
  grown := by
    rw [still.film_eq]
    exact h.grown
  trailing := by
    rw [still.film_eq]
    exact h.trailing

theorem Filming.advanced (h : Filming s) (edge : s.tree.Edge parent) : Advanced parent s s where
  filming := h
  extended := ⟨_, Tree.extends_refl _⟩
  edge := by
    rintro id rfl
    exact edge

theorem Advanced.still (h : Advanced parent s t) (still : Still t u) : Advanced parent s u where
  filming := h.filming.of_still still
  extended := by
    rw [still.tree_eq]
    exact h.extended
  edge := by
    rw [still.tree_eq]
    exact h.edge

theorem Advanced.trans (first : Advanced parent s t) (second : Advanced parent t u) :
    Advanced parent s u where
  filming := second.filming
  extended := by
    obtain ⟨_, extended⟩ := first.extended
    obtain ⟨_, extendedOn⟩ := second.extended
    exact ⟨_, extended.trans extendedOn⟩
  edge := second.edge

/-- A node that is added on the edge makes one more picture. -/
theorem Filming.add (h : Filming s) (edge : s.tree.Edge parent) :
    Filming (s.grown (label.under parent)) := by
  have takes := edge.takes h.thawed
  have added : s.tree.Takes (label.under parent).parent := takes
  have picture := s.film_grown (label.under parent)
  constructor
  case thawed => exact (Tree.frozen_add _ _).trans h.thawed
  case shown =>
    rw [picture]
    exact List.getLast?_concat
  case grown =>
    rw [picture]
    refine h.grown.append (.singleton _) ?_
    rw [h.shown]
    rintro _ ⟨⟩ _ ⟨⟩
    exact ⟨label, parent, Tree.add_eq added⟩
  case trailing =>
    rw [picture]
    refine List.forall_mem_append.mpr ⟨h.trailing, List.forall_mem_singleton.mpr ?_⟩
    exact h.present.add takes edge

/-- What comes below a node that was just added is on the edge, and when it is done, so is what was
on the edge before. -/
theorem Filming.descend (h : Filming s) (edge : s.tree.Edge parent)
    {below : Expansion (Chronicled σ κ) κ} (begun : Still (s.grown (label.under parent)) below) :
    (Filming below ∧ below.tree.Edge (some s.tree.size)) ∧
      ∀ {t u}, Advanced (some s.tree.size) below t → Still t u → Advanced parent s u := by
  have takes := edge.takes h.thawed
  have added : s.tree.Takes (label.under parent).parent := takes
  have tree_eq : below.tree = (s.tree.add (label.under parent)).2 := begun.tree_eq
  refine ⟨⟨(h.add edge).of_still begun, ?_⟩, fun {t u} advanced still => ?_⟩
  · rw [tree_eq]
    exact Tree.edge_add takes
  · obtain ⟨_, extended⟩ := advanced.extended
    rw [tree_eq] at extended
    refine Advanced.still ⟨advanced.filming, ⟨_, (Tree.extends_add added).trans extended⟩, ?_⟩ still
    rintro above rfl
    have child : (s.tree.add (label.under (some above))).2.HasParent s.tree.size above :=
      (Tree.hasParent_add takes.thawed takes.apart).mpr (.inl ⟨rfl, rfl⟩)
    have last := advanced.edge s.tree.size rfl
    exact last.above advanced.filming.present (.child_of_hasParent (child.of_extends extended))

/-- Runs are filmed, as long as callbacks keep to their own contexts. -/
def filmed (σ : Type) {κ : Type} (plan : Plan κ) : Conduct σ plan True where
  Fits parent s := Filming s ∧ s.tree.Edge parent
  Moves := Advanced
  Runs own := Advanced (some own.node)
  takes h := h.2.takes h.1.thawed
  stays h untouched := by
    have still := still_of_untouched untouched
    refine ⟨h.1.of_still still, ?_⟩
    rw [still.tree_eq]
    exact h.2
  refl h := h.1.advanced h.2
  trans := Advanced.trans
  ends h untouched := h.still (still_of_untouched untouched)
  next _ h := ⟨h.filming, h.edge _ rfl⟩
  reaches {parent s} h := by
    have still : Still s (s.told (.reached s.bare)) := still_told s rfl
    exact ⟨⟨h.1.of_still still, h.2⟩, (h.1.advanced h.2).still still⟩
  leaf {id s label} h made isLeaf := by
    have added : Still (s.grown (label.under (some id))) _ := ⟨rfl, rfl⟩
    obtain ⟨⟨filming, edge⟩, onwards⟩ := h.1.descend h.2 added
    exact onwards (filming.advanced edge) (still_spoken _ label.text)
  inner {id s label} h made inner other := by
    have added : Still (s.grown (label.under (some id))) _ := ⟨rfl, rfl⟩
    obtain ⟨below, onwards⟩ := h.1.descend h.2 added
    exact ⟨below, fun moves => onwards moves ⟨rfl, rfl⟩⟩
  keeps {parent s name} h unbound := by
    let label : Label := { kind := .nonTerminal, name := some name }
    have begun : Still (s.grown (label.under parent)) (s.keeping name parent) :=
      ⟨rfl, film_told _ rfl⟩
    obtain ⟨below, onwards⟩ := h.1.descend h.2 begun
    exact ⟨below, fun moves => onwards moves ⟨rfl, rfl⟩⟩
  calls {parent s name callback} h bound := by
    let label : Label := { kind := .nonTerminal, name := some name }
    have begun : Still (s.grown (label.under parent)) (s.calling name parent callback) :=
      ⟨rfl, film_told _ rfl⟩
    obtain ⟨below, onwards⟩ := h.1.descend h.2 begun
    exact ⟨below.1.advanced below.2, fun moves => onwards moves ⟨rfl, film_told _ rfl⟩⟩
  acts h := h.still (still_told _ rfl)
  resumes h untouched := h.still (still_of_untouched untouched)
  requests h live allowed := by
    obtain rfl := allowed trivial
    exact ⟨⟨h.filming, h.edge _ rfl⟩, fun moves => h.trans moves⟩

end Expand

namespace Generator

variable {σ κ : Type} [DecisionSource σ]

/-- The film of a run ends with the tree that the run leaves, which may be frozen by then. -/
theorem filming_chronicle (g : Generator κ) (isLocal : g.replacements.Local) (call : Call)
    (start : Option String) (source : σ) (user : κ) :
    ∃ ended frozen, Expand.Filming ended ∧
      (g.chronicle call start source user).2 =
        { ended with tree := { ended.tree with frozen } } := by
  have begun : Expand.Filming
      (call.begin { inner := source } user : Expansion (Chronicled σ κ) κ) :=
    ⟨rfl, rfl, .singleton _, List.forall_mem_singleton.mpr Tree.trailing_empty⟩
  obtain ⟨ended, frozen, advanced, left⟩ := g.chronicle_moves (Expand.filmed σ g.plan)
    (fun _ => isLocal) call start source user ⟨begun, rfl⟩
  exact ⟨ended, frozen, advanced.filming, left⟩

/-- At every moment of a run, whatever faults its callbacks catch, the places are the preorder; so
they are in the tree that it leaves and in the one that it returns. -/
theorem run_preordered (g : Generator κ) (isLocal : g.replacements.Local) (call : Call)
    (start : Option String) (source : σ) (user : κ) :
    let r := g.runWithin call start source user
    let chronicle := g.chronicle call start source user
    let film := chronicle.2.film
    (r.outcome = chronicle.1 ∧ r.final = chronicle.2.bare) ∧
      (film.head? = some {} ∧ film.IsChain Tree.OneMore ∧
        film.getLast? = some { r.final.tree with frozen := false }) ∧
      (∀ t ∈ film, t.Preordered) ∧ r.final.tree.Preordered ∧
      ∀ t, r.tree = .ok t → t.Preordered := by
  intro r chronicle film
  have same := g.runWithin_chronicle call start source user
  obtain ⟨ended, frozen, filming, left⟩ := g.filming_chronicle isLocal call start source user
  have tree : r.final.tree = { ended.tree with frozen } := by
    rw [same.2, left]
    rfl
  have film_eq : film = ended.film := by
    simp only [film, chronicle, left]
    rfl
  have preordered : r.final.tree.Preordered := by
    rw [tree]
    exact (filming.present.refrozen frozen).preordered
  refine ⟨same, ⟨rfl, ?_, ?_⟩, ?_, preordered, ?_⟩
  · rw [film_eq]
    exact filming.grown
  · have thawed : ended.tree = { ended.tree with frozen := false } :=
      congrArg (Tree.mk ended.tree.nodes) filming.thawed
    rw [film_eq, filming.shown, tree, thawed]
  · rw [film_eq]
    exact fun t picture => (filming.trailing t picture).preordered
  · intro t returned
    have outcome := Run.outcome_of_tree returned
    rw [Run.tree, outcome] at returned
    rw [← Except.ok.inj returned]
    exact preordered

theorem marked_run_preordered :
    let script : Script := { queue := [.repeats (.int 1), .repeats (.int 0)] }
    let r := marked.runWithin (.first 20) none script ()
    let film := (marked.chronicle (.first 20) none script ()).2.film
    marked.replacements.Local ∧ r.final.tree.size = 10 ∧ film.map Tree.size = List.range 11 ∧
      ∀ t ∈ film, t.Preordered :=
  ⟨marked_local, by decide +kernel, by decide +kernel,
    (run_preordered marked marked_local (.first 20) none _ ()).2.2.1⟩

end Generator

end SentenceGen
