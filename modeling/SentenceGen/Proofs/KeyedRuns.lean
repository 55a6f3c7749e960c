import Mathlib.Data.List.Forall2
import SentenceGen.Proofs.Correspondence
import SentenceGen.Proofs.KeyedScripts

/-!
# Runs from scripts with kept entries

In a run without replacements the sites are numbered as their questions come, so an entry that is
kept for a number answers the question with that number, and the repetition node with that number
has the count of the entry.  What is kept for numbers that no question had is left.
-/

namespace SentenceGen

namespace Transcript

variable {σ : Type} {t : Transcript σ}

theorem mem_repetitions {asked : RepetitionSite × Except Fault Datum} :
    asked ∈ t.repetitions ↔ ∃ entry ∈ t.log, entry.1.site? = some asked.1 ∧ entry.2 = asked.2 := by
  obtain ⟨site, answer⟩ := asked
  simp only [repetitions, List.mem_filterMap, Option.map_eq_some_iff, Prod.mk.injEq]
  constructor
  · rintro ⟨entry, member, _, given, rfl, rfl⟩
    exact ⟨entry, member, given, rfl⟩
  · rintro ⟨entry, member, given, rfl⟩
    exact ⟨entry, member, site, given, rfl, rfl⟩

theorem length_filter_isAbout (t : Transcript σ) (key : Datum) :
    (t.log.filter fun asked => asked.1.isAbout key).length =
      ((t.repetitions.map (·.1.index)).filter key.same).length := by
  rw [repetitions, List.filter_map, List.length_map]
  induction t.log with
  | nil => rfl
  | cons entry rest ih =>
    cases given : entry.1.site? with
    | none =>
      have other : entry.1.isAbout key = false := by rw [Question.isAbout, given]; rfl
      simp only [List.filter_cons, List.filterMap_cons, given, Option.map_none, other,
        Bool.false_eq_true, if_false]
      exact ih
    | some site =>
      have about : entry.1.isAbout key = key.same site.index := by
        rw [Question.isAbout, given]
        rfl
      simp only [List.filter_cons, List.filterMap_cons, given, Option.map_some, about,
        Function.comp_apply]
      by_cases same : key.same site.index = true
      · rw [if_pos same, if_pos same]
        exact congrArg (· + 1) ih
      · rw [if_neg same, if_neg same]
        exact ih

end Transcript

/-- The production that a repetition node names is the nearest one above it. -/
theorem Tree.Records.enclosed {t : Tree} {asked : RepetitionSite × Except Fault Datum}
    {id : NodeId} (h : t.Records asked id) :
    ∃ node above name, t.node? id = some node ∧ asked.2 = .ok node.value ∧
      t.production id = .ok (some above) ∧ t.nameOf above = some name ∧
      asked.1.production = some name := by
  obtain ⟨node, name, names, found, kind, answer, inside, production⟩ := h
  have other : t.isProduction id = false := by simp [Tree.isProduction, found, kind]
  obtain ⟨above, isAbove, named⟩ := inside.production other
  exact ⟨node, above, name, found, answer, isAbove, named, production⟩

namespace Sited

variable {σ : Type} {pending : List (RepetitionSite × Except Fault Datum)} {t : Transcript σ}
  {sites : Nat} {tree : Tree}

theorem index_eq (h : Sited pending t sites tree) {j : Nat}
    {asked : RepetitionSite × Except Fault Datum} (found : t.repetitions[j]? = some asked) :
    asked.1.index = .int j := by
  have numbered := congrArg (·[j]?) h.numbered
  simp only [List.getElem?_map, found, Option.map_some] at numbered
  obtain ⟨n, inRange, index⟩ := Option.map_eq_some_iff.mp numbered.symm
  obtain ⟨_, rfl⟩ := List.getElem?_eq_some_iff.mp inRange
  rw [← index, List.getElem_range]

theorem length_repetitions (h : Sited pending t sites tree) : t.repetitions.length = sites := by
  have lengths := congrArg List.length h.numbered
  simpa using lengths

/-- No site is asked about twice. -/
theorem once (h : Sited pending t sites tree) (k : Int) :
    (t.log.filter fun asked => asked.1.isAbout (.int k)).length ≤ 1 := by
  rw [t.length_filter_isAbout, h.numbered, List.filter_map, List.length_map]
  have same : ∀ j ∈ (List.range sites).filter ((Datum.int k).same ∘ fun n : Nat => .int n),
      k = j := by
    intro j member
    simpa using (List.mem_filter.mp member).2
  have distinct := (List.nodup_range (n := sites)).filter
    ((Datum.int k).same ∘ fun n : Nat => .int n)
  revert same distinct
  generalize (List.range sites).filter _ = found
  rcases found with _ | ⟨i, _ | ⟨j, rest⟩⟩
  · simp
  · simp
  · intro same distinct
    have equal : i = j := by
      have first := same i (by simp)
      have second := same j (by simp)
      omega
    rw [equal, List.nodup_cons] at distinct
    exact absurd (List.mem_cons_self ..) distinct.1

theorem eq_of_length_filter_le_one {α : Type} {p : α → Bool} {xs : List α}
    (short : (xs.filter p).length ≤ 1) {a b : α} (ha : a ∈ xs) (pa : p a = true) (hb : b ∈ xs)
    (pb : p b = true) : a = b := by
  have memA := List.mem_filter.mpr ⟨ha, pa⟩
  have memB := List.mem_filter.mpr ⟨hb, pb⟩
  obtain ⟨c, only⟩ := List.length_eq_one_iff.mp
    (Nat.le_antisymm short (List.length_pos_of_mem memA))
  rw [only] at memA memB
  exact (List.mem_singleton.mp memA).trans (List.mem_singleton.mp memB).symm

theorem length_nodes (h : Sited pending t sites tree) :
    t.repetitions.length = tree.repetitionNodes.length + pending.length := by
  obtain ⟨matched, split, recorded⟩ := h.recorded
  rw [split, List.length_append, recorded.length_eq]

/-- Each node belongs to the question with its number. -/
theorem records (h : Sited pending t sites tree) {j : Nat}
    {asked : RepetitionSite × Except Fault Datum} {id : NodeId}
    (found : t.repetitions[j]? = some asked) (node : tree.repetitionNodes[j]? = some id) :
    tree.Records asked id := by
  obtain ⟨matched, split, recorded⟩ := h.recorded
  obtain ⟨placed, rfl⟩ := List.getElem?_eq_some_iff.mp node
  rw [split, List.getElem?_append_left (by rw [recorded.length_eq]; exact placed)] at found
  obtain ⟨listed, rfl⟩ := List.getElem?_eq_some_iff.mp found
  exact recorded.get listed placed

/-- What is kept for a site is the answer to the question with its number. -/
theorem answer_of_kept {entries : List Decision} {t : Transcript Script}
    (h : Sited pending t sites tree) (serves : Script.Serves entries t) {j : Nat} {d : Decision}
    (kept : (.int j, d) ∈ Script.kept entries) {asked : RepetitionSite × Except Fault Datum}
    (found : t.repetitions[j]? = some asked) : asked.2 = .ok d.value := by
  obtain ⟨entry, member, given, answer⟩ :=
    Transcript.mem_repetitions.mp (List.mem_of_getElem? found)
  have about : entry.1.isAbout (.int j) = true :=
    Question.isAbout_iff.mpr ⟨asked.1, given, by simp [h.index_eq found]⟩
  obtain ⟨first, isFirst⟩ : ∃ first, (t.log.find? fun asked => asked.1.isAbout (.int j)) =
      some first := Option.isSome_iff_exists.mp (List.find?_isSome.mpr ⟨entry, member, about⟩)
  have aboutFirst : first.1.isAbout (.int j) = true :=
    List.find?_some (p := fun asked : Question × Except Fault Datum => asked.1.isAbout (.int j))
      isFirst
  have same : first = entry :=
    eq_of_length_filter_le_one (h.once j) (List.mem_of_find?_eq_some isFirst) aboutFirst member
      about
  rw [← answer, ← same]
  exact serves.kept_eq _ kept first isFirst

/-- What is left of what was kept is what is kept for sites that were never reached. -/
theorem mem_reserved_iff {entries : List Decision} {t : Transcript Script}
    (h : Sited pending t sites tree) (serves : Script.Serves entries t)
    (keyed : Script.Keyed (Script.kept entries)) {entry : Datum × Decision} :
    entry ∈ t.inner.reserved ↔
      entry ∈ Script.kept entries ∧ ∀ j < t.repetitions.length, entry.1 ≠ .int j := by
  rw [serves.mem_reserved, h.length_repetitions]
  refine and_congr_right fun member => ?_
  obtain ⟨k, key_eq⟩ := keyed.integer entry member
  rw [key_eq]
  have indices {j : Nat} : j < sites ↔ ∃ asked ∈ t.repetitions, asked.1.index = .int j := by
    rw [← List.mem_map (f := fun asked : RepetitionSite × _ => asked.1.index), h.numbered,
      List.mem_map]
    constructor
    · intro less
      exact ⟨j, List.mem_range.mpr less, rfl⟩
    · rintro ⟨i, inRange, same⟩
      have less := List.mem_range.mp inRange
      have same : (i : Int) = j := Datum.int.inj same
      omega
  constructor
  · intro never j reached same
    obtain ⟨asked, member, index⟩ := indices.mp reached
    obtain ⟨entry, logged, given, _⟩ := Transcript.mem_repetitions.mp member
    have quiet := never entry logged
    have about : entry.1.isAbout (.int k) = true :=
      Question.isAbout_iff.mpr ⟨asked.1, given, by rw [index, same]; simp⟩
    rw [quiet] at about
    cases about
  · intro unreached asked logged
    rw [Bool.eq_false_iff]
    intro about
    obtain ⟨site, given, same⟩ := Question.isAbout_iff.mp about
    have told : (site, asked.2) ∈ t.repetitions :=
      Transcript.mem_repetitions.mpr ⟨asked, logged, given, rfl⟩
    have numbered : site.index ∈ (List.range sites).map fun n : Nat => Datum.int n := by
      rw [← h.numbered]
      exact List.mem_map_of_mem (f := fun asked => asked.1.index) told
    obtain ⟨j, inRange, index⟩ := List.mem_map.mp numbered
    rw [← index, Datum.same_int, decide_eq_true_eq] at same
    exact unreached j (List.mem_range.mp inRange) (congrArg Datum.int same)

end Sited

namespace Generator

variable {κ : Type}

/-- In which order a script keeps its entries makes no difference to a run. -/
theorem runWithin_moved (g : Generator κ) (call : Call) (start : Option String)
    {script script' : Script} (agree : Script.Moved script script') (user : κ) :
    (g.runWithin call start script' user).outcome =
        (g.runWithin call start script user).outcome ∧
      (g.runWithin call start script' user).tree = (g.runWithin call start script user).tree ∧
      (g.runWithin call start script' user).text =
        (g.runWithin call start script user).text := by
  rcases g.runWithin_beside Script.companions_moved False False.elim call start agree user with
    ⟨_, _, alike⟩ | ⟨_, lost, _⟩
  · obtain ⟨outcome, final⟩ := Prod.mk.inj alike
    refine ⟨outcome, ?_, ?_⟩
    · rw [Run.tree, Run.tree, outcome, final]
      rfl
    · rw [Run.text, Run.text, outcome, final]
      rfl
  · exact lost.elim

/-- The j-th question about a repetition has the number j and names the production around its node,
and what is kept for j answers it, so the j-th repetition node has that count; all other questions
use the other entries in order, what is kept for sites that were never reached is left, and it does
not matter where in the script the kept entries stand. -/
theorem keyed_answers {grammar : Grammar} {config : Config} {g : Generator κ}
    (made : new grammar [] none config = .ok g) {entries : List Decision} {script : Script}
    (scripted : Script.ofDecisions entries = .ok script)
    (integer : ∀ d ∈ entries, ∀ site ∈ d.site, ∃ k : Int, site = .int k) (call : Call)
    (start : Option String) (user : κ) :
    let r := g.runWithin call start script user
    let told := g.runWithin call start ({ inner := script } : Transcript Script) user
    let tree := told.final.tree
    let asked := told.final.source.repetitions
    let nodes := tree.repetitionNodes
    (r.outcome = told.outcome ∧ r.final = told.final.withSource told.final.source.inner) ∧
      (∀ (j : Nat) site answer, asked[j]? = some (site, answer) → site.index = .int j ∧
        ∀ id, nodes[j]? = some id → ∃ node above name, tree.node? id = some node ∧
          answer = .ok node.value ∧ tree.production id = .ok (some above) ∧
          tree.nameOf above = some name ∧ site.production = some name) ∧
      nodes.length ≤ asked.length ∧ asked.length ≤ nodes.length + 1 ∧
      (r.final.source.reserved.Sublist (Script.kept entries) ∧
        ∀ entry, entry ∈ r.final.source.reserved ↔
          entry ∈ Script.kept entries ∧ ∀ j < asked.length, entry.1 ≠ .int j) ∧
      (r.outcome = .ok () → nodes.length = asked.length ∧
        (∀ d ∈ entries, ∀ j : Nat, d.site = some (.int j) → ∀ id, nodes[j]? = some id →
          ∃ node, tree.node? id = some node ∧ node.value = d.value) ∧
        ∃ used, Script.unkept entries = used ++ r.final.source.queue ∧
          List.Forall₂ Script.Used used (told.final.source.log.filter fun asked =>
            !entries.any fun d => d.site.any asked.1.isAbout)) ∧
      ∀ moved : List Decision, moved.Perm entries → Script.unkept moved = Script.unkept entries →
        ∃ script', Script.ofDecisions moved = .ok script' ∧
          (g.runWithin call start script' user).outcome = r.outcome ∧
          (g.runWithin call start script' user).tree = r.tree ∧
          (g.runWithin call start script' user).text = r.text := by
  intro r told tree asked nodes
  have bare : ∀ name, g.replacements.find? name = none := by
    obtain ⟨_, _, bound, _, rfl⟩ := new_eq_ok made
    cases bound
    exact fun _ => rfl
  have whole : ∀ entry ∈ Script.kept entries, ∃ k : Int, entry.1 = .int k := by
    rintro ⟨site, d⟩ member
    obtain ⟨listed, given⟩ := Script.mem_kept.mp member
    exact integer d listed site given
  obtain ⟨⟨repetitions, keyed⟩, script_eq⟩ := (Script.ofDecisions_eq_ok whole).mp scripted
  obtain ⟨outcome_eq, final_eq⟩ := g.runWithin_transcript call start script user
  have serves : Script.Serves entries told.final.source :=
    g.source_runWithin (fun q t serves => serves.ask keyed q) call start
      (.start (by rw [script_eq]) (by rw [script_eq])) user
  obtain ⟨⟨pending, short, none_pending, sited⟩, served⟩ :=
    runWithin_sited bare call start script user
  have lengths : asked.length = nodes.length + pending.length := sited.length_nodes
  have left : r.final.source = told.final.source.inner := by
    rw [show r.final = _ from final_eq]
    rfl
  have once : ∀ entry ∈ Script.kept entries,
      (told.final.source.log.filter fun asked => asked.1.isAbout entry.1).length ≤ 1 := by
    intro entry member
    obtain ⟨k, key_eq⟩ := whole entry member
    rw [key_eq]
    exact sited.once k
  refine ⟨⟨outcome_eq, final_eq⟩, ?_, by omega, by omega, ?_, ?_, ?_⟩
  · intro j site answer found
    exact ⟨sited.index_eq found, fun id node => (sited.records found node).enclosed⟩
  · rw [left]
    refine ⟨?_, fun entry => sited.mem_reserved_iff serves keyed⟩
    rw [serves.reserved_eq]
    exact List.filter_sublist
  · intro completed
    have completed : told.outcome = .ok () := outcome_eq.symm.trans completed
    obtain rfl := none_pending completed
    refine ⟨lengths.symm, ?_, ?_⟩
    · intro d listed j given id placed
      have reached : j < asked.length := by
        obtain ⟨less, _⟩ := List.getElem?_eq_some_iff.mp placed
        rw [lengths]
        exact less
      have found : asked[j]? = some asked[j] := List.getElem?_eq_getElem reached
      obtain ⟨node, _, _, node_eq, answer, _⟩ := (sited.records found placed).enclosed
      have kept := sited.answer_of_kept serves (Script.mem_kept.mpr ⟨listed, given⟩) found
      exact ⟨node, node_eq, Except.ok.inj (answer.symm.trans kept)⟩
    · obtain ⟨used, split, uses⟩ := serves.queue_eq (served completed) once
      simp only [Script.any_kept] at uses
      rw [left]
      exact ⟨used, split, uses⟩
  · intro moved perm same
    obtain ⟨script', made', agree⟩ := Script.Moved.of_perm whole scripted perm same
    exact ⟨script', made', g.runWithin_moved call start agree user⟩

theorem nesting_keyed_answers :
    let first : Decision := .repeats (.int 1) (some (.int 0))
    let never : Decision := .repeats (.int 2) (some (.int 7))
    let script : Script :=
      { queue := [.repeats (.int 0)], reserved := [(.int 0, first), (.int 7, never)] }
    let r := unmarked.runWithin (.first 20) none script ()
    r.text.toOption = some "aa" ∧ (.int 7, never) ∈ r.final.source.reserved ∧
      (∃ id node, r.final.tree.repetitionNodes[0]? = some id ∧
        r.final.tree.node? id = some node ∧ node.value = .int 1) ∧
      ∃ script', Script.ofDecisions [never, .repeats (.int 0), first] = .ok script' ∧
        (unmarked.runWithin (.first 20) none script' ()).text = r.text := by
  intro first never script
  have integer : ∀ d ∈ [Decision.repeats (.int 0), first, never], ∀ site ∈ d.site,
      ∃ k : Int, site = .int k := by
    simp [first, never, Decision.repeats]
  have scripted : Script.ofDecisions [.repeats (.int 0), first, never] = .ok script := rfl
  have text : (unmarked.runWithin (.first 20) none script ()).text.toOption = some "aa" := by
    decide +kernel
  have completed : (unmarked.runWithin (.first 20) none script ()).outcome = .ok () :=
    Run.completed (by decide +kernel)
  have asked : (unmarked.runWithin (.first 20) none ({ inner := script } : Transcript Script)
      ()).final.source.repetitions.length = 2 := by decide +kernel
  have placed : (unmarked.runWithin (.first 20) none ({ inner := script } : Transcript Script)
      ()).final.tree.repetitionNodes[0]? = some 3 := by decide +kernel
  have answers := keyed_answers unmarked_made scripted integer (.first 20) none ()
  -- No step below is about what the runs do, so they need not be unfolded.
  generalize unmarked.runWithin (.first 20) none script () = r at *
  generalize unmarked.runWithin (.first 20) none ({ inner := script } : Transcript Script) () = told
    at *
  obtain ⟨⟨_, final_eq⟩, _, _, _, ⟨_, left⟩, met, moving⟩ := answers
  obtain ⟨_, counts, _⟩ := met completed
  refine ⟨text, ?_, ?_, ?_⟩
  · refine (left _).mpr ⟨by simp [Script.kept, first, never, Decision.repeats], ?_⟩
    intro j less same
    rw [asked] at less
    have same : (7 : Int) = j := Datum.int.inj same
    omega
  · obtain ⟨node, found, value⟩ := counts first (by simp) 0 rfl 3 placed
    rw [final_eq]
    exact ⟨3, node, placed, found, value⟩
  · have rotated : ([never] ++ [.repeats (.int 0), first]).Perm
        ([.repeats (.int 0), first] ++ [never]) := List.perm_append_comm
    obtain ⟨script', made, _, _, text⟩ := moving _ rotated rfl
    exact ⟨script', made, text⟩

end Generator

end SentenceGen
