import SentenceGen.Proofs.Formation
import SentenceGen.Proofs.Observation
import SentenceGen.Proofs.Phases

/-!
# Every run builds a well-formed tree

Nodes are added below the node of a call that goes on or of an open context, and these are inner
nodes.  So the tree stays well formed whatever the callbacks do: whichever open contexts they use,
whatever they write, and however they go on after a fault.
-/

namespace SentenceGen

namespace Expand

variable {σ κ α β : Type}

structure Building (s : Expansion σ κ) : Prop where
  formed : s.tree.Formed
  thawed : s.tree.frozen = false
  contexts : ∀ context ∈ s.live, s.tree.Hosts (some context.node)

/-- The tree has grown, and the same contexts are open. -/
structure Advance (s t : Expansion σ κ) : Prop where
  building : Building t
  extended : ∃ linked, s.tree.Extends linked t.tree
  live_eq : t.live = s.live

/-- What the action adds, it adds below the parent or below contexts that are open. -/
def Builds (parent : Option NodeId) (action : Expand σ κ α) : Prop :=
  ∀ s, Building s → s.tree.Hosts parent → Advance s (action.exec s).2

variable {s t u : Expansion σ κ} {parent : Option NodeId} {label : Label}

theorem Building.hosts_none (h : Building s) : s.tree.Hosts none := ⟨h.thawed, nofun⟩

theorem Advance.hosts (h : Advance s t) (hosts : s.tree.Hosts parent) : t.tree.Hosts parent := by
  obtain ⟨_, extended⟩ := h.extended
  exact hosts.of_extends extended h.building.thawed

theorem Advance.trans (first : Advance s t) (second : Advance t u) : Advance s u where
  building := second.building
  extended := by
    obtain ⟨_, extended⟩ := first.extended
    obtain ⟨_, extendedOn⟩ := second.extended
    exact ⟨_, extended.trans extendedOn⟩
  live_eq := second.live_eq.trans first.live_eq

theorem Building.of_eq (h : Building s) (tree_eq : t.tree = s.tree) (live_eq : t.live = s.live) :
    Building t where
  formed := by
    rw [tree_eq]
    exact h.formed
  thawed := by
    rw [tree_eq]
    exact h.thawed
  contexts := by
    rw [tree_eq, live_eq]
    exact h.contexts

/-- Only what is neither tree nor context was touched. -/
theorem Building.advance_of_eq (h : Building s) (tree_eq : t.tree = s.tree)
    (live_eq : t.live = s.live) : Advance s t where
  building := h.of_eq tree_eq live_eq
  extended := by
    rw [tree_eq]
    exact ⟨_, Tree.extends_refl _⟩
  live_eq := live_eq

theorem Building.add (h : Building s) (hosts : s.tree.Hosts parent) (made : label.Made)
    (tree_eq : t.tree = (s.tree.add (label.under parent)).2) (live_eq : t.live = s.live) :
    Advance s t := by
  have takes : s.tree.Takes (label.under parent).parent := hosts.takes
  have extended := Tree.extends_add takes
  have thawed : (s.tree.add (label.under parent)).2.frozen = false := by
    rw [Tree.frozen_add, h.thawed]
  refine ⟨⟨?_, ?_, ?_⟩, ?_, live_eq⟩
  · rw [tree_eq]
    exact h.formed.add hosts made
  · rw [tree_eq]
    exact thawed
  · rw [tree_eq, live_eq]
    intro context live
    exact (h.contexts context live).of_extends extended thawed
  · rw [tree_eq]
    exact ⟨_, extended⟩

/-! ### Building blocks -/

theorem Builds.bind {action : Expand σ κ α} {next : α → Expand σ κ β}
    (first : Builds parent action)
    (second : ∀ a s t, action.exec s = (.ok a, t) → Builds parent (next a)) :
    Builds parent (action >>= next) := by
  intro s building hosts
  have advance := first s building hosts
  rcases ran : action.exec s with ⟨fault | a, t⟩
  · rw [exec_bind_of_error ran]
    rw [ran] at advance
    exact advance
  · rw [exec_bind_of_ok ran]
    rw [ran] at advance
    exact advance.trans (second a s t ran t advance.building (advance.hosts hosts))

theorem Builds.attempt {action : Expand σ κ α} {next : Except Fault α → Expand σ κ β}
    (first : Builds parent action) (second : ∀ result, Builds parent (next result)) :
    Builds parent (attempt action next) := by
  intro s building hosts
  have advance := first s building hosts
  rw [exec_attempt]
  exact advance.trans (second _ _ advance.building (advance.hosts hosts))

theorem builds_lift (result : Except Fault α) :
    Builds parent (liftM result : Expand σ κ α) :=
  fun _ building _ => building.advance_of_eq rfl rfl

theorem builds_leaf (plan : Plan κ) (made : label.Made) :
    Builds parent (leaf plan label parent : Expand σ κ Unit) := by
  intro s building hosts
  obtain ⟨chunks, size, left⟩ := exec_leaf_left plan label parent s
  apply building.add hosts made <;> rw [left]

/-- Nodes can be added below an inner node that was just added. -/
theorem Builds.below (made : label.Made) (inner : label.kind.isLeaf = false)
    {next : NodeId → Expand σ κ α} (below : ∀ id, Builds (some id) (next id)) :
    Builds parent (addNode (label.under parent) >>= next) := by
  intro s building hosts
  have advance : Advance s { s with tree := (s.tree.add (label.under parent)).2 } :=
    building.add hosts made rfl rfl
  rw [exec_bind_of_ok (exec_addNode_of_takes hosts.takes)]
  exact advance.trans (below _ _ advance.building (hosts.add inner))

theorem builds_forM {act : Rule → Expand σ κ Unit} {items : List Rule}
    (each : ∀ item ∈ items, Builds parent (act item)) : Builds parent (items.forM act) := by
  induction items with
  | nil => exact fun _ building _ => building.advance_of_eq rfl rfl
  | cons item rest ih =>
    rw [List.forall_mem_cons] at each
    exact each.1.bind fun _ _ _ _ => ih each.2

theorem Builds.within {action : Expand σ κ Unit} (inside : Builds parent action) (name : String) :
    Builds parent (within name action) := by
  intro s building hosts
  have entered : Building { s with productions := name :: s.productions } :=
    building.of_eq rfl rfl
  have advance := inside _ entered hosts
  rw [exec_within]
  exact ⟨advance.building.of_eq rfl rfl, advance.extended, advance.live_eq⟩

theorem Builds.nested {action : Expand σ κ Unit} (inside : Builds parent action) (plan : Plan κ) :
    Builds parent (nested plan action) := by
  intro s building hosts
  rw [exec_nested]
  cases levelOutcome plan (s.depth + 1) s.productions with
  | error fault => exact building.advance_of_eq rfl rfl
  | ok _ =>
    have deeper : Building { s with depth := s.depth + 1 } := building.of_eq rfl rfl
    have advance := inside _ deeper hosts
    exact ⟨advance.building.of_eq rfl rfl, advance.extended, advance.live_eq⟩

/-- What is written becomes a leaf below a context that is open. -/
theorem builds_writeTo (plan : Plan κ) (target : Context) (text : Datum) :
    Builds none (writeTo plan target text : Expand σ κ Unit) := by
  intro s building _
  rw [exec_writeTo]
  by_cases live : s.live.contains target = true
  · rw [if_pos live]
    have hosts := building.contexts target (List.contains_iff_mem.mp live)
    cases text with
    | str text => exact builds_leaf plan (.literal text) s building hosts
    | _ => exact building.advance_of_eq rfl rfl
  · rw [if_neg live]
    exact building.advance_of_eq rfl rfl

/-! ### Rules and callbacks -/

section

variable {plan : Plan κ} {expandOne : Rule → Option NodeId → Expand σ κ Unit}
  (each : ∀ rule parent, Builds parent (expandOne rule parent))
include each

theorem builds_grow (made : label.Made) (items : List Rule) :
    Builds parent (grow plan expandOne parent label items) := by
  have below (id : NodeId) : Builds (some id) (items.forM fun item => expandOne item (some id)) :=
    builds_forM fun item _ => each item (some id)
  unfold grow
  by_cases leaf : label.kind.isLeaf = true
  · rw [if_pos leaf]
    exact builds_leaf plan made
  · rw [if_neg leaf]
    apply Builds.below made (Bool.eq_false_iff.mpr leaf)
    intro id
    split
    next name _ _ => exact (below id).within name
    next => exact below id

theorem builds_expandIn (target : Context) : Builds none (expandIn plan expandOne target) := by
  intro s building _
  rw [expandIn, exec_bind, exec_requireOpen]
  by_cases live : s.live.contains target = true
  · rw [if_pos live]
    have hosts := building.contexts target (List.contains_iff_mem.mp live)
    exact (builds_lift _).bind (fun body _ _ _ => each body _) s building hosts
  · rw [if_neg live]
    exact building.advance_of_eq rfl rfl

end

variable [DecisionSource σ] {plan : Plan κ} {expandOne : Rule → Option NodeId → Expand σ κ Unit}

theorem consult_made {rule : Rule} {items : List Rule}
    (done : (consult plan rule).exec s = (.ok (label, items), t)) : label.Made := by
  cases rule with
  | literal text =>
    cases done
    exact .literal text
  | sequence =>
    cases done
    exact .sequence
  | stray => cases done
  | alternative =>
    simp only [consult, exec_bind_ok] at done
    obtain ⟨_, _, _, ⟨index, _⟩, _, _, made⟩ := done
    cases made
    exact .alternative index
  | optional =>
    simp only [consult, exec_bind_ok] at done
    obtain ⟨answer, _, _, made⟩ := done
    cases made
    exact .optional answer.truthy
  | repetition =>
    simp only [consult, exec_bind_ok] at done
    obtain ⟨_, _, _, _, _, _, count, _, _, made⟩ := done
    cases made
    exact .repetition count
  | nonTerminal name =>
    simp only [consult, exec_bind_ok] at done
    obtain ⟨_, _, _, made⟩ := done
    cases made
    exact .nonTerminal name
  | characters set =>
    simp only [consult, exec_bind_ok] at done
    obtain ⟨_, _, _, _, _, _, codepoint, _, _, made⟩ := done
    cases made
    exact .character set.name codepoint

theorem builds_consult (plan : Plan κ) (rule : Rule) :
    Builds (σ := σ) parent (consult plan rule) := by
  intro s building _
  obtain ⟨source, sites, _, left⟩ := consult_left plan rule s
  apply building.advance_of_eq <;> rw [left]

section

variable (each : ∀ rule parent, Builds parent (expandOne rule parent))
include each

theorem builds_serve (program : Program κ (Except Fault Unit)) :
    Builds none (serve plan expandOne program) := by
  induction program with
  | done result => exact builds_lift result
  | write target text next ih =>
    rw [serve_write]
    exact (builds_writeTo plan target text).attempt ih
  | expand target next ih =>
    rw [serve_expand]
    exact (builds_expandIn each target).attempt ih
  | ask question next ih =>
    rw [serve_ask]
    exact Builds.attempt (fun _ building _ => building.advance_of_eq rfl rfl) ih
  | look next ih => exact fun s building hosts => ih ⟨s.tree, s.user⟩ s building hosts
  | store user next ih =>
    intro s building hosts
    have stored : Advance s { s with user } := building.advance_of_eq rfl rfl
    exact stored.trans (ih _ stored.building (stored.hosts hosts))

/-- The context of a callback belongs to a node that is there. -/
theorem builds_replace (callback : Callback κ) (target : Context) :
    Builds (some target.node) (replace plan expandOne callback target) := by
  intro s building hosts
  have opened : Building { s with live := target :: s.live } :=
    ⟨building.formed, building.thawed, List.forall_mem_cons.mpr ⟨hosts, building.contexts⟩⟩
  have served : Builds none (serve plan expandOne (callback target).run) :=
    builds_serve each (callback target).run
  have advance := served _ opened opened.hosts_none
  have closed : ((serve plan expandOne (callback target).run).exec
      { s with live := target :: s.live }).2.live.erase target = s.live := by
    rw [advance.live_eq, List.erase_cons_head]
  rw [exec_replace]
  refine ⟨⟨advance.building.formed, advance.building.thawed, ?_⟩, advance.extended, closed⟩
  intro context live
  exact advance.building.contexts context (List.mem_of_mem_erase live)

theorem builds_step (rule : Rule) : Builds parent (step plan expandOne rule parent) := by
  rcases kept_or_bound plan rule with kept | ⟨name, callback, rfl, found⟩
  · rw [step_eq plan expandOne rule parent kept]
    apply (builds_consult plan rule).bind
    rintro ⟨label, items⟩ s t done
    exact builds_grow each (consult_made done) items
  · rw [step_nonTerminal]
    apply (builds_lift _).bind
    intro body _ _ _
    apply Builds.below (.nonTerminal name) rfl
    intro id
    rw [produce, found]
    apply Builds.within ?_ name
    exact fun s => builds_replace each callback ⟨s.call, id, name⟩ s

end

theorem builds_expand (plan : Plan κ) (fuel : Nat) (rule : Rule) (parent : Option NodeId) :
    Builds (σ := σ) parent (expand plan fuel rule parent) := by
  induction fuel generalizing rule parent with
  | zero => exact builds_lift (.error .nestingExhausted)
  | succ fuel ih => exact (builds_step ih rule).nested plan

end Expand

open Expand

/-- The tree of every completed run is well formed, whatever its callbacks did. -/
theorem Generator.formed_of_run {σ κ : Type} [DecisionSource σ] {g : Generator κ} {call : Call}
    {start : Option String} {source : σ} {user : κ} {t : Tree}
    (completed : (g.runWithin call start source user).tree = .ok t) : t.Formed := by
  have outcome := Run.outcome_of_tree completed
  obtain ⟨name, _, derived⟩ := runWithin_ok outcome
  obtain ⟨last, done, final⟩ := derive_ok derived
  have begun : Building (call.begin source user : Expansion σ κ) := ⟨Tree.formed_empty, rfl, nofun⟩
  have advance :=
    builds_expand g.plan call.ceiling (.nonTerminal name) none _ begun begun.hosts_none
  have built : last.tree.Formed := by
    rw [done] at advance
    exact advance.building.formed
  have same : t = (g.runWithin call start source user).final.tree := by
    rw [Run.tree, outcome] at completed
    exact (Except.ok.inj completed).symm
  rw [same, final]
  exact built.freeze

end SentenceGen
