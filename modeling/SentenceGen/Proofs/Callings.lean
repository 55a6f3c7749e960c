import SentenceGen.Proofs.Conduct

/-!
# What a chronicle tells

There is one event for every production in the tree, in the order of the places: what the table of
replacements says about its name was done for it.  The context of a callback is open from the call
until the callback is over, and never again.  All contexts that are ever open belong to the call of
the run, so none of another call is.
-/

namespace SentenceGen

/-! ### Productions in the tree -/

/-- The production at a place with this label, if it is that of one, as a context of a call. -/
def Label.occurrence? (label : Label) (call : Nat) (id : NodeId) : Option Context :=
  if label.kind = .nonTerminal then label.name.map (⟨call, id, ·⟩) else none

namespace Tree

/-- The productions in the tree, by place and name, in the order of the places. -/
def occurrences (t : Tree) (call : Nat) : List Context :=
  (List.range t.size).filterMap fun id =>
    (t.node? id).bind fun node => node.label.occurrence? call id

theorem occurrences_add {t : Tree} {parent : Option NodeId} (takes : t.Takes parent)
    (label : Label) (call : Nat) : (t.add (label.under parent)).2.occurrences call =
      t.occurrences call ++ (label.occurrence? call t.size).toList := by
  have added : t.Takes (label.under parent).parent := takes
  have before : ∀ id ∈ List.range t.size,
      (((t.add (label.under parent)).2.node? id).bind fun node => node.label.occurrence? call id) =
        (t.node? id).bind fun node => node.label.occurrence? call id := by
    intro id member
    rw [node?_add added, if_neg (Nat.ne_of_lt (List.mem_range.mp member)), Option.bind_map]
    rfl
  rw [occurrences, size_add t _ takes.thawed, List.range_succ, List.filterMap_append,
    List.filterMap_congr before]
  have last : ((t.add (label.under parent)).2.node? t.size).bind
      (fun node => node.label.occurrence? call t.size) = label.occurrence? call t.size := by
    rw [node?_add_self added, Option.bind_some, Node.label_under]
  simp only [List.filterMap_cons, List.filterMap_nil, last]
  cases label.occurrence? call t.size <;> rfl

end Tree

/-! ### Events -/

namespace Event

variable {σ κ : Type}

/-- The event is what the table says about the name. -/
def Follows (r : Replacements (Callback κ)) : Event σ κ → Prop
  | .kept place => r.find? place.name = none
  | .called callback place => r.find? place.name = some callback
  | _ => True

/-- A context that is over is closed whenever the run can be seen later. -/
def Precedes (earlier later : Event σ κ) : Prop :=
  ∀ target now, earlier = .finished target → later.now? = some now → target ∉ now.live

/-- All contexts that are open at the event belong to the call. -/
def Within (call : Nat) (event : Event σ κ) : Prop :=
  (∀ now context, event.now? = some now → context ∈ now.live → context.call = call) ∧
    ∀ place, event.place? = some place → place.call = call

end Event

namespace Expand

open Expansion

variable {σ κ : Type}

/-- The chronicle tells of callbacks as long as their contexts are open and of their ends, and it
does not tell of any other call. -/
structure Orderly (plan : Plan κ) (s : Expansion (Chronicled σ κ) κ) : Prop where
  building : Building s
  owned : ∀ context ∈ s.live, context.call = s.call
  follows : ∀ event ∈ s.events, event.Follows plan.replacements
  within : ∀ event ∈ s.events, event.Within s.call
  ends (callback : Callback κ) (target : Context) : .called callback target ∈ s.events →
    target ∈ s.live ∨ .finished target ∈ s.events
  passed (target : Context) : .finished target ∈ s.events →
    target.node < s.tree.size ∧ target ∉ s.live
  shut : s.events.Pairwise Event.Precedes

/-- The chronicle also tells of every production in the tree. -/
structure Chronicling (plan : Plan κ) (s : Expansion (Chronicled σ κ) κ) : Prop
    extends Orderly plan s where
  places : s.events.filterMap Event.place? = s.tree.occurrences s.call

/-- The chronicle went on in the same call, and the same contexts are open. -/
structure Continues (plan : Plan κ) (s t : Expansion (Chronicled σ κ) κ) : Prop where
  chronicling : Chronicling plan t
  extended : ∃ linked, s.tree.Extends linked t.tree
  call_eq : t.call = s.call
  live_eq : t.live = s.live

/-- How an event goes with what is done to the tree and the contexts. -/
structure Occurs (plan : Plan κ) (s : Expansion (Chronicled σ κ) κ) (event : Event σ κ)
    (t : Expansion (Chronicled σ κ) κ) : Prop where
  building : Building t
  call_eq : t.call = s.call
  events_eq : t.events = s.events ++ [event]
  room : s.tree.size ≤ t.tree.size
  follows : event.Follows plan.replacements
  within : event.Within s.call
  shows : ∀ now, event.now? = some now → now.live = s.live
  opens : ∀ context ∈ t.live,
    context ∈ s.live ∨ context.call = s.call ∧ .finished context ∉ s.events
  closes : ∀ context ∈ s.live, context ∈ t.live ∨ event = .finished context
  called : ∀ callback target, event = .called callback target → target ∈ t.live
  finished : ∀ target, event = .finished target → target.node < t.tree.size ∧ target ∉ t.live

variable {plan : Plan κ} {s t u : Expansion (Chronicled σ κ) κ} {parent : Option NodeId}
  {label : Label} {event : Event σ κ}

theorem Orderly.occurs (h : Orderly plan s) (occurs : Occurs plan s event t) : Orderly plan t where
  building := occurs.building
  owned := by
    intro context live
    rw [occurs.call_eq]
    rcases occurs.opens context live with before | ⟨own, _⟩
    · exact h.owned context before
    · exact own
  follows := by
    rw [occurs.events_eq]
    exact List.forall_mem_append.mpr ⟨h.follows, List.forall_mem_singleton.mpr occurs.follows⟩
  within := by
    rw [occurs.events_eq, occurs.call_eq]
    exact List.forall_mem_append.mpr ⟨h.within, List.forall_mem_singleton.mpr occurs.within⟩
  ends := by
    rw [occurs.events_eq]
    intro callback target member
    rcases List.mem_append.mp member with before | last
    · rcases h.ends callback target before with live | gone
      · rcases occurs.closes target live with still | rfl
        · exact .inl still
        · exact .inr List.mem_concat_self
      · exact .inr (List.mem_append_left _ gone)
    · exact .inl (occurs.called callback target (List.mem_singleton.mp last).symm)
  passed := by
    rw [occurs.events_eq]
    intro target member
    rcases List.mem_append.mp member with before | last
    · obtain ⟨there, closed⟩ := h.passed target before
      refine ⟨Nat.lt_of_lt_of_le there occurs.room, fun live => ?_⟩
      rcases occurs.opens target live with still | ⟨_, fresh⟩
      · exact closed still
      · exact fresh before
    · exact occurs.finished target (List.mem_singleton.mp last).symm
  shut := by
    rw [occurs.events_eq]
    refine List.pairwise_append.mpr ⟨h.shut, List.pairwise_singleton _ _, ?_⟩
    rintro _ member later last target now rfl shown
    rw [List.mem_singleton.mp last] at shown
    rw [occurs.shows now shown]
    exact (h.passed target member).2

/-- Nothing but the event is new. -/
theorem Chronicling.told (h : Chronicling plan s) (nowhere : event.place? = none)
    (going : ∀ target, event ≠ .finished target)
    (shows : ∀ now, event.now? = some now → now.live = s.live) :
    Continues plan s (s.told event) := by
  have occurs : Occurs plan s event (s.told event) := by
    refine ⟨h.building.of_eq rfl rfl, rfl, rfl, Nat.le_refl _, ?_, ⟨?_, ?_⟩, shows,
      fun _ live => .inl live, fun _ live => .inl live, ?_, fun target same =>
        absurd same (going target)⟩
    · cases event with
      | kept | called => cases nowhere
      | _ => trivial
    · intro now context shown live
      rw [shows now shown] at live
      exact h.owned context live
    · intro place about
      rw [nowhere] at about
      cases about
    · rintro callback target rfl
      cases nowhere
  refine ⟨⟨h.toOrderly.occurs occurs, ?_⟩, ⟨_, Tree.extends_refl _⟩, rfl, rfl⟩
  rw [events_told, List.filterMap_append, List.filterMap_cons_none nowhere, List.filterMap_nil,
    List.append_nil]
  exact h.places

theorem Chronicling.of_eq (h : Chronicling plan s) (call_eq : t.call = s.call)
    (tree_eq : t.tree = s.tree) (live_eq : t.live = s.live) (events_eq : t.events = s.events) :
    Continues plan s t := by
  refine ⟨⟨⟨h.building.of_eq tree_eq live_eq, ?_, ?_, ?_, ?_, ?_, ?_⟩, ?_⟩, ?_, call_eq, live_eq⟩
  all_goals simp only [call_eq, tree_eq, live_eq, events_eq]
  · exact h.owned
  · exact h.follows
  · exact h.within
  · exact h.ends
  · exact h.passed
  · exact h.shut
  · exact h.places
  · exact ⟨_, Tree.extends_refl _⟩

theorem Continues.trans (first : Continues plan s t) (second : Continues plan t u) :
    Continues plan s u where
  chronicling := second.chronicling
  extended := by
    obtain ⟨_, extended⟩ := first.extended
    obtain ⟨_, extendedOn⟩ := second.extended
    exact ⟨_, extended.trans extendedOn⟩
  call_eq := second.call_eq.trans first.call_eq
  live_eq := second.live_eq.trans first.live_eq

theorem Continues.hosts (h : Continues plan s t) (hosts : s.tree.Hosts parent) :
    t.tree.Hosts parent := by
  obtain ⟨_, extended⟩ := h.extended
  exact hosts.of_extends extended h.chronicling.building.thawed

/-! ### Nodes and callbacks -/

theorem Orderly.grown (h : Orderly plan s) (hosts : s.tree.Hosts parent) (made : label.Made) :
    Orderly plan (s.grown (label.under parent)) ∧
      ∃ linked, s.tree.Extends linked (s.grown (label.under parent)).tree := by
  have advance : Advance s { s with tree := (s.tree.add (label.under parent)).2 } :=
    h.building.add hosts made rfl rfl
  obtain ⟨_, extended⟩ := advance.extended
  have occurs : Occurs plan s (.added (s.tree.add (label.under parent)).2)
      (s.grown (label.under parent)) :=
    ⟨advance.building.of_eq rfl rfl, rfl, rfl, extended.size_le, trivial, ⟨nofun, nofun⟩, nofun,
      fun _ live => .inl live, fun _ live => .inl live, nofun, nofun⟩
  exact ⟨h.occurs occurs, _, extended⟩

/-- A node that is no production is added. -/
theorem Chronicling.add (h : Chronicling plan s) (hosts : s.tree.Hosts parent) (made : label.Made)
    (other : label.kind ≠ .nonTerminal) : Continues plan s (s.grown (label.under parent)) := by
  obtain ⟨orderly, extended⟩ := h.toOrderly.grown hosts made
  refine ⟨⟨orderly, ?_⟩, extended, rfl, rfl⟩
  have nowhere : label.occurrence? s.call s.tree.size = none := if_neg other
  have occurrences := Tree.occurrences_add hosts.takes label s.call
  rw [nowhere] at occurrences
  rw [events_grown, List.filterMap_append, h.places]
  exact occurrences.symm

/-- The node of a production is added, and then comes the event that says what is done for it. -/
theorem Chronicling.enter (h : Chronicling plan s) (hosts : s.tree.Hosts parent) {name : String}
    (occurs : Occurs plan (s.entering name parent) event t)
    (place : event.place? = some (s.nextContext name))
    (tree_eq : t.tree = (s.entering name parent).tree) :
    Chronicling plan t ∧ (∃ linked, s.tree.Extends linked t.tree) ∧
      t.tree.Hosts (some s.tree.size) := by
  obtain ⟨orderly, extended⟩ := h.toOrderly.grown hosts (.nonTerminal name)
  have entered : Orderly plan (s.entering name parent) :=
    ⟨orderly.building.of_eq rfl rfl, orderly.owned, orderly.follows, orderly.within, orderly.ends,
      orderly.passed, orderly.shut⟩
  refine ⟨⟨entered.occurs occurs, ?_⟩, ?_, ?_⟩
  · have occurrences := Tree.occurrences_add hosts.takes
      { kind := .nonTerminal, name := some name } s.call
    have events : (s.entering name parent).events = s.events ++ [.added _] := s.events_grown _
    rw [occurs.events_eq, occurs.call_eq, tree_eq, events, List.filterMap_append,
      List.filterMap_append, h.places]
    have told : [event].filterMap Event.place? = [s.nextContext name] := by
      rw [List.filterMap_cons_some place, List.filterMap_nil]
    rw [told]
    exact (congrArg (· ++ [s.nextContext name]) (List.append_nil _)).trans occurrences.symm
  · rw [tree_eq]
    exact extended
  · rw [tree_eq]
    exact hosts.add rfl

theorem Chronicling.keep (h : Chronicling plan s) (hosts : s.tree.Hosts parent) {name : String}
    (unbound : plan.replacements.find? name = none) :
    Continues plan s (s.keeping name parent) ∧
      (s.keeping name parent).tree.Hosts (some s.tree.size) := by
  obtain ⟨orderly, _⟩ := h.toOrderly.grown hosts (.nonTerminal name)
  have occurs : Occurs plan (s.entering name parent) (.kept (s.nextContext name))
      (s.keeping name parent) := by
    refine ⟨orderly.building.of_eq rfl rfl, rfl, rfl, Nat.le_refl _, unbound, ⟨nofun, ?_⟩, nofun,
      fun _ live => .inl live, fun _ live => .inl live, nofun, nofun⟩
    rintro place ⟨⟩
    rfl
  obtain ⟨kept, extended, below⟩ := h.enter hosts occurs rfl rfl
  exact ⟨⟨kept, extended, rfl, rfl⟩, below⟩

/-- A place that is just added cannot be that of an open context. -/
theorem Orderly.nextContext_not_mem (h : Orderly plan s) (name : String) :
    s.nextContext name ∉ s.live := fun live =>
  Nat.lt_irrefl _ ((h.building.contexts _ live).takes.parent_lt s.tree.size rfl)

theorem Chronicling.call (h : Chronicling plan s) (hosts : s.tree.Hosts parent) {name : String}
    {callback : Callback κ} (bound : plan.replacements.find? name = some callback) :
    Chronicling plan (s.calling name parent callback) ∧
      ∃ linked, s.tree.Extends linked (s.calling name parent callback).tree := by
  obtain ⟨orderly, _⟩ := h.toOrderly.grown hosts (.nonTerminal name)
  have fresh : .finished (s.nextContext name) ∉ (s.entering name parent).events := by
    intro member
    rcases List.mem_append.mp member with before | last
    · exact Nat.lt_irrefl _ (h.passed _ before).1
    · cases List.mem_singleton.mp last
  have occurs : Occurs plan (s.entering name parent) (.called callback (s.nextContext name))
      (s.calling name parent callback) := by
    refine ⟨⟨orderly.building.formed, orderly.building.thawed, ?_⟩, rfl, rfl, Nat.le_refl _, bound,
      ⟨nofun, ?_⟩, nofun, ?_, fun _ live => .inl (List.mem_cons_of_mem _ live), ?_, nofun⟩
    · exact List.forall_mem_cons.mpr ⟨hosts.add rfl, orderly.building.contexts⟩
    · rintro place ⟨⟩
      rfl
    · intro context live
      rcases List.mem_cons.mp live with rfl | before
      · exact .inr ⟨rfl, fresh⟩
      · exact .inl before
    · rintro _ _ ⟨⟩
      exact List.mem_cons_self
  obtain ⟨called, extended, _⟩ := h.enter hosts occurs rfl rfl
  exact ⟨called, extended⟩

/-- A callback ends, and its context is closed. -/
theorem Chronicling.close (h : Chronicling plan t) {target : Context} {rest : List Context}
    (live : t.live = target :: rest) (apart : target ∉ rest) :
    Chronicling plan (t.closed target) := by
  have closed : (t.closed target).live = rest := by
    change t.live.erase target = rest
    rw [live, List.erase_cons_head]
  have hosts := h.building.contexts target (by rw [live]; exact List.mem_cons_self)
  have occurs : Occurs plan t (.finished target) (t.closed target) := by
    refine ⟨⟨h.building.formed, h.building.thawed, ?_⟩, rfl, rfl, Nat.le_refl _, trivial,
      ⟨nofun, nofun⟩, nofun, fun _ still => .inl (List.mem_of_mem_erase still), ?_, nofun, ?_⟩
    · exact fun context still => h.building.contexts context (List.mem_of_mem_erase still)
    · intro context before
      rw [closed]
      rw [live] at before
      rcases List.mem_cons.mp before with rfl | outer
      · exact .inr rfl
      · exact .inl outer
    · rintro _ ⟨⟩
      rw [closed]
      exact ⟨hosts.takes.parent_lt target.node rfl, apart⟩
  refine ⟨h.toOrderly.occurs occurs, ?_⟩
  rw [occurs.events_eq, List.filterMap_append]
  exact (List.append_nil _).trans h.places

/-- Chronicles are kept in order. -/
def chronicling (σ : Type) {κ : Type} (plan : Plan κ) : Conduct σ plan False where
  Fits parent s := Chronicling plan s ∧ s.tree.Hosts parent
  Moves _ := Continues plan
  Runs _ := Continues plan
  takes h := h.2.takes
  stays h untouched := by
    obtain ⟨call_eq, tree_eq, _, _, _, live_eq, events_eq⟩ := untouched
    have continues := h.1.of_eq call_eq tree_eq live_eq events_eq
    exact ⟨continues.chronicling, continues.hosts h.2⟩
  refl h := h.1.of_eq rfl rfl rfl rfl
  trans := Continues.trans
  ends h untouched := by
    obtain ⟨call_eq, tree_eq, _, _, _, live_eq, events_eq⟩ := untouched
    exact h.trans (h.chronicling.of_eq call_eq tree_eq live_eq events_eq)
  next h continues := ⟨continues.chronicling, continues.hosts h.2⟩
  reaches {parent s} h := by
    have continues : Continues plan s (s.told (.reached s.bare)) :=
      h.1.told rfl nofun fun _ same => by cases same; rfl
    exact ⟨⟨continues.chronicling, h.2⟩, continues⟩
  leaf {id s label} h made isLeaf := by
    have other : label.kind ≠ .nonTerminal := by
      intro production
      rw [production] at isLeaf
      cases isLeaf
    have added := h.1.add h.2 made other
    exact added.trans (added.chronicling.of_eq (call_spoken _ _) (tree_spoken _ _)
      (live_spoken _ _) (events_spoken _ _))
  inner h made inner other := by
    have added := h.1.add h.2 made other
    exact ⟨⟨added.chronicling, h.2.add inner⟩, fun moves => added.trans moves⟩
  keeps h unbound := by
    obtain ⟨kept, below⟩ := h.1.keep h.2 unbound
    refine ⟨⟨kept.chronicling, below⟩, fun {t} moves => ?_⟩
    exact (kept.trans moves).trans (moves.chronicling.of_eq rfl rfl rfl rfl)
  calls {parent s name callback} h bound := by
    obtain ⟨called, extended⟩ := h.1.call h.2 bound
    refine ⟨called.of_eq rfl rfl rfl rfl, fun {t} served => ?_⟩
    have apart := h.1.toOrderly.nextContext_not_mem name
    have live : t.live = s.nextContext name :: s.live := served.live_eq
    have closed := served.chronicling.close live apart
    obtain ⟨_, first⟩ := extended
    obtain ⟨_, second⟩ := served.extended
    refine Continues.trans ⟨closed, ⟨_, first.trans second⟩, served.call_eq, ?_⟩
      (closed.of_eq rfl rfl rfl rfl)
    change t.live.erase _ = s.live
    rw [live, List.erase_cons_head]
  acts h := h.trans (h.chronicling.told rfl nofun fun _ same => by cases same; rfl)
  resumes h untouched := by
    obtain ⟨call_eq, tree_eq, _, _, _, live_eq, events_eq⟩ := untouched
    exact h.trans (h.chronicling.of_eq call_eq tree_eq live_eq events_eq)
  requests h live _ :=
    ⟨⟨h.chronicling, h.chronicling.building.contexts _ live⟩, fun moves => h.trans moves⟩

end Expand

open Expand

/-- The chronicle of a whole run, at the end of which no context is open. -/
structure Expansion.Told {σ κ : Type} (s : Expansion (Chronicled σ κ) κ) (plan : Plan κ)
    (call : Nat) : Prop where
  places : s.events.filterMap Event.place? = s.tree.occurrences call
  follows : ∀ event ∈ s.events, event.Follows plan.replacements
  within : ∀ event ∈ s.events, event.Within call
  ends (callback : Callback κ) (target : Context) : .called callback target ∈ s.events →
    .finished target ∈ s.events
  shut : s.events.Pairwise Event.Precedes
  live_eq : s.live = []

/-- However a run ends, its chronicle tells of it as a whole. -/
theorem Generator.told_chronicle {σ κ : Type} [DecisionSource σ] (g : Generator κ) (call : Call)
    (start : Option String) (source : σ) (user : κ) :
    (g.chronicle call start source user).2.Told g.plan call.serial := by
  let begun : Expansion (Chronicled σ κ) κ := call.begin { inner := source } user
  have building : Building begun := ⟨Tree.formed_empty, rfl, nofun⟩
  have chronicling : Chronicling g.plan begun :=
    ⟨⟨building, nofun, nofun, nofun, nofun, nofun, .nil⟩, rfl⟩
  obtain ⟨ended, frozen, continues, left⟩ := g.chronicle_moves (Expand.chronicling σ g.plan)
    False.elim call start source user ⟨chronicling, building.hosts_none⟩
  have told := continues.chronicling
  have call_eq : ended.call = call.serial := continues.call_eq
  have live_eq : ended.live = [] := continues.live_eq
  rw [left]
  refine ⟨?_, told.follows, ?_, fun callback target member => ?_, told.shut, live_eq⟩
  · rw [← call_eq]
    exact told.places
  · rw [← call_eq]
    exact told.within
  · rcases told.ends callback target member with live | gone
    · rw [live_eq] at live
      cases live
    · exact gone

end SentenceGen
