import SentenceGen.Proofs.Lockstep
import SentenceGen.Proofs.Scripts

/-!
# Scripts and derivations

Without replacements and cutoffs, a derivation read in preorder is a script that yields it, and a
script that is used up is, but for the truth of its optional entries, the reading of the tree that
it yields.  Both directions follow the expansion: the entry behind a node stands before those behind
what is below it.
-/

namespace SentenceGen

/-- A plan without replacements and cutoffs, with the class of every character set. -/
structure Plan.Plain {κ : Type} (plan : Plan κ) : Prop where
  kept : ∀ name, plan.replacements.find? name = none
  maxDepth_eq : plan.maxDepth = none
  maxSize_eq : plan.maxSize = none
  sound : Generator.ClassesSound plan.grammar.registry plan.classes
  covers : ∀ set, plan.grammar.Reaches (.characters set) → (plan.classes.lookup set).isSome = true

namespace Grammar

/-- The derivations of a rule in which every production is expanded by its body. -/
abbrev Yields (g : Grammar) : Rule → Derivation → Prop := g.Derives fun _ => False

abbrev YieldsAll (g : Grammar) : List Rule → List Derivation → Prop := g.DerivesAll fun _ => False

end Grammar

namespace Expand

open SentenceGen.Derivation

variable {κ : Type} {plan : Plan κ} {expandOne : Rule → Option NodeId → Expand Script κ Unit}
  {parent : Option NodeId}

/-! ### From derivations to scripts -/

/-- What follows from a script with the decision of a node in front: the node is added, and the
rules below it are expanded with the rest of the script. -/
structure Prepared (expandOne : Rule → Option NodeId → Expand Script κ Unit)
    (action : Expand Script κ Unit) (parent : Option NodeId) (label : Label) (items : List Rule)
    (rest : List Decision) (s inner : Expansion Script κ) : Prop where
  tree_eq : inner.tree = (s.tree.add (label.under parent)).2
  queued : inner.source.Queued rest
  finish : ∀ outer,
    (items.forM fun item => expandOne item (some s.tree.size)).exec inner = (.ok (), outer) →
      ∃ t, action.exec s = (.ok (), t) ∧ t.tree = outer.tree ∧ t.source = outer.source

theorem exec_append_of_none (maxSize : plan.maxSize = none) (text : String)
    (s : Expansion Script κ) :
    (append plan text).exec s =
      (.ok (), { s with chunks := s.chunks.push text, size := s.size + text.length }) := by
  rw [exec_append, appendOutcome, maxSize]

theorem exec_unless_append (maxSize : plan.maxSize = none) (text : String)
    (s : Expansion Script κ) :
    ∃ t, (if text = "" then pure () else append plan text).exec s = (.ok (), t) ∧
      t.tree = s.tree ∧ t.source = s.source := by
  split
  · exact ⟨s, rfl, rfl, rfl⟩
  · exact ⟨_, exec_append_of_none maxSize text s, rfl, rfl⟩

theorem exec_ask_of_queued (q : Question) {d : Decision} {rest : List Decision}
    {s : Expansion Script κ} (queued : s.source.Queued (d :: rest)) (kind : d.kind = q.kind)
    (accepted : Script.Accepted q d.value) :
    ∃ source, (ask q : Expand Script κ Datum).exec s = (.ok (q.settled d.value), { s with source })
      ∧ source.Queued rest := by
  obtain ⟨source, asked, queuedRest⟩ := Script.ask_of_queued queued kind accepted
  exact ⟨source, exec_ask_of_eq asked, queuedRest⟩

theorem production_of_body? {g : Grammar} {name : String} {body : Rule}
    (defined : g.body? name = some body) : g.production name = .ok body := by
  rw [Grammar.production, defined]

theorem classOf_of_resolve (plain : plan.Plain) {set : CharacterSet} {whole : CharacterClass}
    (reached : plan.grammar.Reaches (.characters set))
    (resolved : plan.grammar.registry.resolve set.name = .ok whole) :
    classOf plan set = .ok (whole.remove set.points) := by
  obtain ⟨members, found⟩ := Option.isSome_iff_exists.mp (plain.covers set reached)
  have stands : plan.grammar.registry.ofSet set = .ok (whole.remove set.points) :=
    Registry.ofSet_eq_ok.mpr ⟨whole, resolved, rfl⟩
  rw [classOf, found, ← stands, plain.sound set members found]

/-- With the decision of the node in front of the script, a step does what the grammar says. -/
theorem step_of_opens (expandOne : Rule → Option NodeId → Expand Script κ Unit)
    (plain : plan.Plain) {rule : Rule} {label : Label} {items : List Rule}
    (opens : plan.grammar.Opens rule label items) (reached : plan.grammar.Reaches rule)
    {rest : List Decision} {s : Expansion Script κ} (takes : s.tree.Takes parent)
    (queued : s.source.Queued (label.decision?.toList ++ rest)) :
    ∃ inner, Prepared expandOne (step plan expandOne rule parent) parent label items rest s
      inner := by
  have adds {t : Expansion Script κ} (same : t.tree = s.tree) :
      (addNode (label.under parent)).exec t =
        (.ok s.tree.size, { t with tree := (s.tree.add (label.under parent)).2 }) := by
    rw [← same] at takes ⊢
    exact exec_addNode_of_takes takes
  cases opens with
  | literal text =>
    refine ⟨{ s with tree := _ }, rfl, queued, ?_⟩
    rintro outer ⟨⟩
    obtain ⟨t, appended, tree_eq, source_eq⟩ := exec_unless_append plain.maxSize_eq text _
    exact ⟨t, exec_bind_ok.mpr ⟨_, _, adds rfl, appended⟩, tree_eq, source_eq⟩
  | sequence items =>
    refine ⟨{ s with tree := _ }, rfl, queued, fun outer below => ⟨outer, ?_, rfl, rfl⟩⟩
    exact exec_bind_ok.mpr ⟨_, _, adds rfl, below⟩
  | @alternative items index item branch =>
    obtain ⟨source, asked, queuedRest⟩ := exec_ask_of_queued
      (.alternative (.int items.length)) queued rfl trivial
    refine ⟨{ s with tree := _, source }, rfl, queuedRest, fun outer below => ⟨outer, ?_, rfl, rfl⟩⟩
    simp only [step, exec_bind_ok]
    exact ⟨_, _, asked, _, _, congrArg (·, _) (branchOf_of_getElem? branch), _, _, adds rfl,
      by simpa using below⟩
  | present item =>
    obtain ⟨source, asked, queuedRest⟩ := exec_ask_of_queued .optional queued rfl trivial
    refine ⟨{ s with tree := _, source }, rfl, queuedRest, fun outer below => ⟨outer, ?_, rfl, rfl⟩⟩
    simp only [step, exec_bind_ok]
    exact ⟨_, _, asked, _, _, adds rfl,
      by simpa [Question.settled, Datum.truthy, Decision.take] using below⟩
  | absent item =>
    obtain ⟨source, asked, queuedRest⟩ := exec_ask_of_queued .optional queued rfl trivial
    refine ⟨{ s with tree := _, source }, rfl, queuedRest, fun outer below => ⟨outer, ?_, rfl, rfl⟩⟩
    simp only [step, exec_bind_ok]
    exact ⟨_, _, asked, _, _, adds rfl,
      by simpa [Question.settled, Datum.truthy, Decision.skip] using below⟩
  | @repetition item bounds count admitted =>
    obtain ⟨source, asked, queuedRest⟩ := exec_ask_of_queued
      (s := { s with sites := s.sites + 1 })
      (.repetition bounds { index := .int s.sites, production := s.productions.head? })
      queued rfl trivial
    refine ⟨{ s with tree := _, source, sites := s.sites + 1 }, rfl, queuedRest,
      fun outer below => ⟨outer, ?_, rfl, rfl⟩⟩
    simp only [step, exec_bind_ok]
    refine ⟨_, _, rfl, _, _, asked, _, _, congrArg (·, _) (countOf_of_admits admitted _), _, _,
      adds rfl, ?_⟩
    rwa [times_eq_forM fun item => expandOne item (some s.tree.size)]
  | @nonTerminal name body defined =>
    refine ⟨{ s with tree := _, productions := name :: s.productions }, rfl, queued,
      fun outer below =>
        ⟨{ outer with productions := outer.productions.tail }, ?_, rfl, rfl⟩⟩
    simp only [step, exec_bind_ok, exec_leaving_ok, plain.kept]
    exact ⟨_, _, congrArg (·, _) (production_of_body? defined), _, _, adds rfl, _, _, rfl, outer,
      by simpa using below, rfl⟩
  | @characters set whole codepoint resolved member kept =>
    have inside : codepoint ∈ whole.remove set.points :=
      CharacterClass.mem_remove.mpr ⟨member, kept⟩
    obtain ⟨source, asked, queuedRest⟩ := exec_ask_of_queued
      (.codepoint (.ofClass (whole.remove set.points))) queued rfl
      (Candidates.contains_of_mem inside)
    refine ⟨{ s with tree := _, source }, rfl, queuedRest, ?_⟩
    rintro outer ⟨⟩
    simp only [step, exec_bind_ok]
    exact ⟨_, ⟨_, _, congrArg (·, _) (classOf_of_resolve plain reached resolved), _, _, asked, _, _,
      congrArg (·, _) (memberOf_of_mem inside _), _, _, adds rfl,
      exec_append_of_none plain.maxSize_eq _ _⟩, rfl, rfl⟩

theorem nested_of_ok (maxDepth : plan.maxDepth = none) {action : Expand Script κ Unit}
    {s t : Expansion Script κ} (done : action.exec { s with depth := s.depth + 1 } = (.ok (), t)) :
    (nested plan action).exec s = (.ok (), { t with depth := t.depth - 1 }) := by
  rw [exec_nested, levelOutcome, maxDepth]
  simp only [done]

mutual

/-- A script that starts with the reading of a derivation yields it and keeps the rest. -/
theorem expand_of_yields (plain : plan.Plain) {rule : Rule} {d : Derivation} :
    plan.grammar.Yields rule d → plan.grammar.Reaches rule → ∀ {fuel : Nat}, d.height ≤ fuel →
      ∀ {parent : Option NodeId} {s : Expansion Script κ} {rest : List Decision},
        s.tree.Takes parent → s.source.Queued (d.script ++ rest) →
          ∃ t, (expand plan fuel rule parent).exec s = (.ok (), t) ∧
            t.tree = d.graft parent s.tree ∧ t.source.Queued rest
  | @Grammar.Derives.opened _ _ _ label _ children opens _ below, reached, fuel, high, parent, s,
      rest, takes, queued => by
    cases fuel with
    | zero => simp [height] at high
    | succ fuel =>
      rw [script, List.append_assoc] at queued
      obtain ⟨inner, prepared⟩ := step_of_opens (expand plan fuel)
        (s := { s with depth := s.depth + 1 }) plain opens reached takes queued
      have added : s.tree.Takes (label.under parent).parent := takes
      obtain ⟨outer, expanded, tree_eq, queuedRest⟩ := forM_of_yieldsAll plain below
        (fun item member => reached.of_opens opens member) (Nat.le_of_succ_le_succ high)
        (by rw [prepared.tree_eq]; exact added.add) prepared.queued
      obtain ⟨t, done, tree, source⟩ := prepared.finish outer expanded
      refine ⟨_, nested_of_ok plain.maxDepth_eq done, ?_, ?_⟩
      · rw [tree, tree_eq, prepared.tree_eq]
        rfl
      · rw [source]
        exact queuedRest

theorem forM_of_yieldsAll (plain : plan.Plain) {items : List Rule} {children : List Derivation} :
    plan.grammar.YieldsAll items children → (∀ item ∈ items, plan.grammar.Reaches item) →
      ∀ {fuel : Nat}, heightAll children ≤ fuel →
        ∀ {id : NodeId} {s : Expansion Script κ} {rest : List Decision}, s.tree.Takes (some id) →
          s.source.Queued (scriptAll children ++ rest) →
            ∃ t, (items.forM fun item => expand plan fuel item (some id)).exec s = (.ok (), t) ∧
              t.tree = graftAll children (some id) s.tree ∧ t.source.Queued rest
  | .nil, _, _, _, _, s, _, _, queued => ⟨s, rfl, rfl, queued⟩
  | @Grammar.DerivesAll.cons _ _ _ _ child _ first others, reached, fuel, high, id, s, rest, takes,
      queued => by
    rw [heightAll, Nat.max_le] at high
    rw [scriptAll, List.append_assoc] at queued
    obtain ⟨t, expanded, tree_eq, queuedRest⟩ :=
      expand_of_yields plain first (reached _ List.mem_cons_self) high.1 takes queued
    have takesToo : t.tree.Takes (some id) := by
      rw [tree_eq]
      exact (Tree.grafted_graft child takes).1.takes takes
    obtain ⟨u, expandedRest, tree_eq', queuedEnd⟩ := forM_of_yieldsAll plain others
      (fun item member => reached item (List.mem_cons_of_mem _ member)) high.2 takesToo queuedRest
    refine ⟨u, forM_cons_ok.mpr ⟨t, expanded, expandedRest⟩, ?_, queuedEnd⟩
    rw [tree_eq', tree_eq, graftAll]

end

/-! ### From scripts to derivations -/

/-- A queue that answers the question behind a label starts with the decision of the label. -/
theorem Answered.queued {label : Label} {source source' : Script} {entries : List Decision}
    (answered : Answered label source source') (queued : source.Queued entries)
    (unkeyed : ∀ d ∈ entries, d.site = none) :
    ∃ used rest, entries = used ++ rest ∧ used.map Decision.normal = label.decision?.toList ∧
      source'.Queued rest := by
  unfold Answered at answered
  cases decision : label.decision? with
  | none =>
    rw [decision] at answered
    obtain rfl := answered
    exact ⟨[], entries, rfl, rfl, queued⟩
  | some d =>
    rw [decision] at answered
    obtain ⟨q, answer, kind, asked, settled⟩ := answered
    obtain ⟨entry, rest, rfl, kindEntry, value, queuedRest⟩ := Script.ask_ok queued asked
    have reading : entry.normal = d := by
      rw [Decision.normal_eq_of_unkeyed (unkeyed entry List.mem_cons_self), kindEntry, ← value,
        settled, kind, ← Label.eq_of_decision? decision]
    exact ⟨[entry], rest, rfl, by simp [reading], queuedRest⟩

/-- What a completed action does to the tree and the queue: a derivation of the rule is added, and
its reading is used. -/
def Reads (g : Grammar) (rule : Rule) (parent : Option NodeId) (action : Expand Script κ Unit) :
    Prop :=
  ∀ s t entries, s.tree.Takes parent → s.source.Queued entries → (∀ d ∈ entries, d.site = none) →
    action.exec s = (.ok (), t) →
      ∃ d used rest, g.Yields rule d ∧ t.tree = d.graft parent s.tree ∧
        entries = used ++ rest ∧ used.map Decision.normal = d.script ∧ t.source.Queued rest

theorem yieldsAll_of_forM {g : Grammar} {id : NodeId}
    (each : ∀ item, Reads g item (some id) (expandOne item (some id))) (items : List Rule)
    {s t : Expansion Script κ} {entries : List Decision} (takes : s.tree.Takes (some id))
    (queued : s.source.Queued entries) (unkeyed : ∀ d ∈ entries, d.site = none)
    (done : (items.forM fun item => expandOne item (some id)).exec s = (.ok (), t)) :
    ∃ children used rest, g.YieldsAll items children ∧
      t.tree = graftAll children (some id) s.tree ∧ entries = used ++ rest ∧
      used.map Decision.normal = scriptAll children ∧ t.source.Queued rest := by
  induction items generalizing s entries with
  | nil =>
    cases done
    exact ⟨[], [], entries, .nil, rfl, rfl, rfl, queued⟩
  | cons item items ih =>
    obtain ⟨u, expanded, expandedRest⟩ := forM_cons_ok.mp done
    obtain ⟨child, used, left, yields, tree_eq, rfl, read, queuedLeft⟩ :=
      each item s u entries takes queued unkeyed expanded
    have takesToo : u.tree.Takes (some id) := by
      rw [tree_eq]
      exact (Tree.grafted_graft child takes).1.takes takes
    obtain ⟨children, usedToo, rest, yieldsToo, tree_eq', rfl, readToo, queuedRest⟩ :=
      ih takesToo queuedLeft (fun d member => unkeyed d (List.mem_append_right _ member))
        expandedRest
    refine ⟨child :: children, used ++ usedToo, rest, .cons yields yieldsToo, ?_, ?_, ?_,
      queuedRest⟩
    · rw [tree_eq', tree_eq, graftAll]
    · rw [List.append_assoc]
    · rw [List.map_append, read, readToo, scriptAll]

/-- A completed expansion added a derivation and used the entries that read it. -/
theorem reads_expand (plain : plan.Plain) (fuel : Nat) (rule : Rule) (parent : Option NodeId) :
    Reads plan.grammar rule parent (expand plan fuel rule parent) := by
  induction fuel generalizing rule parent with
  | zero =>
    intro s t entries _ _ _ done
    cases done
  | succ fuel ih =>
    intro s t entries takes queued unkeyed done
    obtain ⟨u, stepped, rfl⟩ := nested_ok done
    obtain ⟨label, items, id, inner, outer, opens, opened⟩ :=
      step_ok plain.sound (fun name _ => plain.kept name) stepped
    have added : s.tree.Takes (label.under parent).parent := takes
    obtain ⟨rfl, inner_tree⟩ := (Tree.add_ok_iff added).mp opened.added
    obtain ⟨used, left, rfl, read, queuedLeft⟩ := opened.answered.queued queued unkeyed
    obtain ⟨children, usedToo, rest, yields, tree_eq, rfl, readToo, queuedRest⟩ :=
      yieldsAll_of_forM (fun item => ih item _) items (by rw [inner_tree]; exact added.add)
        queuedLeft (fun d member => unkeyed d (List.mem_append_right _ member)) opened.below
    refine ⟨.node label children, used ++ usedToo, rest, .opened opens (by simp) yields, ?_, ?_,
      ?_, ?_⟩
    · rw [show _ = outer.tree from opened.tree_eq, tree_eq, inner_tree]
      rfl
    · rw [List.append_assoc]
    · rw [List.map_append, read, readToo, script]
    · rw [show _ = outer.source from opened.source_eq]
      exact queuedRest

end Expand

namespace Derivation

mutual

theorem unkeyed_script : ∀ (d : Derivation), ∀ entry ∈ d.script, entry.site = none
  | .node label children, entry, member => by
    rw [script] at member
    rcases List.mem_append.mp member with here | below
    · rw [Label.eq_of_decision? (Option.mem_toList.mp here)]
    · exact unkeyed_scriptAll children entry below

theorem unkeyed_scriptAll : ∀ (ds : List Derivation), ∀ entry ∈ scriptAll ds, entry.site = none
  | [], entry, member => by simp [scriptAll] at member
  | d :: rest, entry, member => by
    rw [scriptAll] at member
    rcases List.mem_append.mp member with first | later
    · exact unkeyed_script d entry first
    · exact unkeyed_scriptAll rest entry later

end

end Derivation

namespace Generator

variable {κ : Type}

theorem plain_of_new {grammar : Grammar} {config : Config} {g : Generator κ}
    (made : new grammar [] none config = .ok g) (endless : config.limits.maxDepth = .null)
    (boundless : config.limits.maxOutputSize = .null) :
    g.grammar = grammar ∧ g.plan.Plain := by
  obtain ⟨sound, covers⟩ := resolved_of_new made
  obtain ⟨replacements, classes, bound, _, rfl⟩ := new_eq_ok made
  cases bound
  refine ⟨rfl, fun name => rfl, ?_, ?_, sound, covers⟩
  · simp only [plan, endless]
    rfl
  · simp only [plan, boundless]
    rfl

/-- A run from the script of the given entries, none of them kept for a site, completes with the
given tree and uses every entry. -/
def UsesUp (g : Generator κ) (call : Call) (start : Option String) (user : κ)
    (entries : List Decision) (t : Tree) : Prop :=
  (∀ entry ∈ entries, entry.site = none) ∧ ∃ script, Script.ofDecisions entries = .ok script ∧
    (g.runWithin call start script user).tree = .ok t ∧
    (g.runWithin call start script user).final.source.remaining = 0

theorem usesUp_of_yields {g : Generator κ} (plain : g.plan.Plain) {start : Option String}
    {name : String} (found : g.startOf start = .ok name) (user : κ) {d : Derivation}
    (yields : g.grammar.Yields (.nonTerminal name) d) {call : Call}
    (high : d.height ≤ call.ceiling) :
    g.UsesUp call start user d.script d.toTree.freeze := by
  refine ⟨d.unkeyed_script, { queue := d.script },
    Script.ofDecisions_of_unkeyed d.unkeyed_script, ?_⟩
  have queued : Script.Queued { queue := d.script } (d.script ++ []) :=
    ⟨(List.append_nil _).symm, rfl⟩
  obtain ⟨last, done, tree, queuedRest⟩ := Expand.expand_of_yields plain yields
    (.inl ⟨name, rfl⟩) high (s := call.begin { queue := d.script } user)
    Derivation.takes_empty queued
  obtain ⟨outcome, final⟩ := runWithin_of_expand found done
  constructor
  · rw [Run.tree, outcome, final, tree]
    rfl
  · rw [final]
    exact queuedRest.remaining_eq

theorem yields_of_usesUp {g : Generator κ} (plain : g.plan.Plain) {start : Option String}
    {name : String} (found : g.startOf start = .ok name) {user : κ} {entries : List Decision}
    {t : Tree} {call : Call} (usesUp : g.UsesUp call start user entries t) :
    ∃ d, g.grammar.Yields (.nonTerminal name) d ∧ t = d.toTree.freeze ∧
      entries.map Decision.normal = d.script := by
  obtain ⟨unkeyed, script, made, completed, nothing⟩ := usesUp
  rw [Script.ofDecisions_of_unkeyed unkeyed] at made
  obtain rfl := Except.ok.inj made
  have outcome := Run.outcome_of_tree completed
  obtain ⟨name', found', derived⟩ := runWithin_ok outcome
  obtain rfl := Except.ok.inj (found.symm.trans found')
  obtain ⟨last, expanded, final⟩ := derive_ok derived
  obtain ⟨d, used, rest, yields, tree, rfl, read, queued⟩ :=
    Expand.reads_expand plain call.ceiling _ none _ _ entries Derivation.takes_empty ⟨rfl, rfl⟩
      unkeyed expanded
  rw [Run.tree, outcome, final, tree] at completed
  rw [final] at nothing
  have used_all : rest = [] := by
    rw [← List.length_eq_zero_iff, ← queued.remaining_eq]
    exact nothing
  refine ⟨d, yields, (Except.ok.inj completed).symm, ?_⟩
  rw [used_all, List.append_nil, read]

theorem text_of_usesUp {g : Generator κ} (plain : g.plan.Plain) {start : Option String} {user : κ}
    {entries : List Decision} {d : Derivation} {call : Call}
    (usesUp : g.UsesUp call start user entries d.toTree.freeze) :
    (g.runWithin call start ({ queue := entries } : Script) user).text = .ok d.text := by
  obtain ⟨unkeyed, script, made, completed, _⟩ := usesUp
  rw [Script.ofDecisions_of_unkeyed unkeyed] at made
  obtain rfl := Except.ok.inj made
  have isLocal : g.replacements.Local := by
    intro name callback bound
    cases (plain.kept name).symm.trans bound
  have outcome := Run.outcome_of_tree completed
  obtain ⟨e, tree, text, _⟩ := runWithin_grown isLocal outcome
  rw [Run.tree, outcome, tree] at completed
  have same : d = e := Derivation.toTree_freeze_injective (Except.ok.inj completed).symm
  rw [Run.text, outcome, text, same]
  rfl

/-- Without replacements and limits, scripts and derivations correspond: the preorder reading of any
derivation of the start is a script that yields it and its text and is used up; an unkeyed script
that is used up is, its optional entries normalised, the reading of the derivation that it yields;
and so two such scripts with the same tree differ in nothing else. -/
theorem scripts_correspond {grammar : Grammar} {config : Config} {g : Generator κ}
    (made : new grammar [] none config = .ok g) (endless : config.limits.maxDepth = .null)
    (boundless : config.limits.maxOutputSize = .null) {start : Option String} {name : String}
    (found : g.startOf start = .ok name) (user : κ) :
    (∀ d, grammar.Yields (.nonTerminal name) d → ∀ call : Call, d.height ≤ call.ceiling →
      g.UsesUp call start user d.script d.toTree.freeze ∧
      (g.runWithin call start ({ queue := d.script } : Script) user).text = .ok d.text) ∧
    (∀ call entries t, g.UsesUp call start user entries t →
      ∃ d, grammar.Yields (.nonTerminal name) d ∧ t = d.toTree.freeze ∧
        entries.map Decision.normal = d.script) ∧
    ∀ call call' entries entries' t, g.UsesUp call start user entries t →
      g.UsesUp call' start user entries' t →
        entries.map Decision.normal = entries'.map Decision.normal := by
  obtain ⟨rfl, plain⟩ := plain_of_new made endless boundless
  refine ⟨?_, ?_, ?_⟩
  · intro d yields call high
    have usesUp := usesUp_of_yields plain found user yields high
    exact ⟨usesUp, text_of_usesUp plain usesUp⟩
  · intro call entries t usesUp
    exact yields_of_usesUp plain found usesUp
  · intro call call' entries entries' t usesUp usesUp'
    obtain ⟨d, _, tree, read⟩ := yields_of_usesUp plain found usesUp
    obtain ⟨d', _, tree', read'⟩ := yields_of_usesUp plain found usesUp'
    have same : d = d' := Derivation.toTree_freeze_injective (tree.symm.trans tree')
    rw [read, read', same]

def unmarked : Generator Unit :=
  { grammar := .nesting, replacements := {}, config := {}, classes := [] }

theorem unmarked_made : new .nesting [] none {} = .ok unmarked := by
  rw [new, resolveSets_nesting]
  rfl

theorem nesting_scripts_correspond :
    ∃ d, Grammar.nesting.Yields (.nonTerminal "s") d ∧
      [Decision.repeats (.int 1), .repeats (.int 0)] = d.script := by
  let script : Script := { queue := [.repeats (.int 1), .repeats (.int 0)] }
  have completed : (unmarked.runWithin (.first 20) none script ()).outcome = .ok () :=
    Run.completed (by decide +kernel)
  have uses : unmarked.UsesUp (.first 20) none () script.queue
      (unmarked.runWithin (.first 20) none script ()).final.tree := by
    refine ⟨by simp [script, Decision.repeats], script, rfl, ?_, by decide +kernel⟩
    simp only [Run.tree, completed, Except.map]
  have found : unmarked.startOf none = .ok "s" := rfl
  obtain ⟨_, reading, _⟩ := scripts_correspond unmarked_made rfl rfl found ()
  obtain ⟨d, yields, _, read⟩ := reading (.first 20) _ _ uses
  exact ⟨d, yields, read⟩

end Generator

end SentenceGen
