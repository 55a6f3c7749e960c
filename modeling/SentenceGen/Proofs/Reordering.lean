import SentenceGen.Proofs.Calls
import SentenceGen.Proofs.Interchange

/-!
# Productions in any order

The rules of a name are those of the calls for it, in the order of these calls.  What stands between
them makes no difference: productions that are given in another order are the same productions, so a
grammar is built in either order, and generates the same.
-/

namespace SentenceGen

namespace Builder

variable {b c : Builder} {name other : String} {rules : List Rule}
  {gifts gifts' : List (String × List Rule)}

/-- One call for each of the names, with the rules that it gets. -/
def productionCalls (gifts : List (String × List Rule)) : List Call :=
  gifts.map fun gift => .production gift.1 gift.2

/-- The same calls in another order, in which the calls for one name keep theirs. -/
structure Reordered (gifts gifts' : List (String × List Rule)) : Prop where
  perm : gifts'.Perm gifts
  kept (name : String) :
    gifts'.filter (fun gift => gift.1 = name) = gifts.filter (fun gift => gift.1 = name)

/-! ### The rules of one name -/

theorem lookup_append_self (name : String) (rules : List Rule)
    (pending : List (String × List Rule)) :
    (append name rules pending).lookup name = some ((pending.lookup name).getD [] ++ rules) := by
  induction pending with
  | nil => simp [append]
  | cons entry rest ih =>
    rw [append]
    by_cases here : name = entry.1
    · subst here
      rw [if_pos (beq_self_eq_true _), List.lookup_cons, List.lookup_cons, beq_self_eq_true]
      rfl
    · have differs : (name == entry.1) = false := beq_eq_false_iff_ne.mpr here
      rw [if_neg (by simpa using here), List.lookup_cons, List.lookup_cons, differs]
      exact ih

theorem rulesOf?_perform_of_ne (different : other ≠ name) (b : Builder) (rules : List Rule) :
    (b.perform (.production name rules)).2.rulesOf? other = b.rulesOf? other := by
  rcases b.perform_production name rules with ⟨_, taken⟩ | ⟨_, fault, refused, _⟩
  · rw [taken]
    exact lookup_append_of_ne different rules b.pending
  · rw [refused]

/-- Rules are added, or refused, whatever else the builder has. -/
theorem rulesOf?_perform_congr (same : b.rulesOf? name = c.rulesOf? name) (rules : List Rule) :
    (b.perform (.production name rules)).2.rulesOf? name =
      (c.perform (.production name rules)).2.rulesOf? name := by
  rcases b.perform_production name rules with ⟨acceptable, taken⟩ | ⟨unacceptable, _, refused, _⟩
  · rcases c.perform_production name rules with ⟨_, takenToo⟩ | ⟨unacceptable, _⟩
    · have same : b.pending.lookup name = c.pending.lookup name := same
      rw [taken, takenToo, rulesOf?, rulesOf?, lookup_append_self, lookup_append_self, same]
    · exact absurd acceptable unacceptable
  · rcases c.perform_production name rules with ⟨acceptable, _⟩ | ⟨_, _, refusedToo, _⟩
    · exact absurd acceptable unacceptable
    · rw [refused, refusedToo]
      exact same

/-- Calls for other names do not count. -/
theorem rulesOf?_after_filter (same : b.rulesOf? name = c.rulesOf? name)
    (gifts : List (String × List Rule)) :
    (b.after (productionCalls gifts)).rulesOf? name =
      (c.after (productionCalls (gifts.filter fun gift => gift.1 = name))).rulesOf? name := by
  induction gifts generalizing b c with
  | nil => exact same
  | cons gift rest ih =>
    by_cases here : gift.1 = name
    · rw [List.filter_cons_of_pos (by simpa using here)]
      subst here
      exact ih (rulesOf?_perform_congr same gift.2)
    · rw [List.filter_cons_of_neg (by simpa using here)]
      exact ih ((rulesOf?_perform_of_ne (Ne.symm here) b gift.2).trans same)

theorem Reordered.rulesOf?_eq (reordered : Reordered gifts gifts') (b : Builder) (name : String) :
    (b.after (productionCalls gifts')).rulesOf? name =
      (b.after (productionCalls gifts)).rulesOf? name := by
  rw [rulesOf?_after_filter (c := b) rfl gifts', reordered.kept name,
    ← rulesOf?_after_filter (b := b) rfl gifts]

/-! ### The productions of the builder -/

/-- Calls for productions change nothing else. -/
theorem after_productionCalls (b : Builder) (gifts : List (String × List Rule)) :
    ∃ pending, b.after (productionCalls gifts) = { b with pending } := by
  induction gifts generalizing b with
  | nil => exact ⟨b.pending, rfl⟩
  | cons gift rest ih =>
    obtain ⟨pending, left⟩ := ih (b.perform (.production gift.1 gift.2)).2
    refine ⟨pending, left.trans ?_⟩
    rcases b.perform_production gift.1 gift.2 with ⟨_, taken⟩ | ⟨_, _, refused, _⟩
    · rw [taken]
    · rw [refused]

/-- In a table without repeats a name has the rules that stand beside it. -/
theorem Distinct.mem_pending_iff (distinct : b.Distinct) :
    (name, rules) ∈ b.pending ↔ b.rulesOf? name = some rules := by
  rw [rulesOf?, List.lookup_eq_some_iff]
  constructor
  · intro listed
    obtain ⟨before, after, split⟩ := List.append_of_mem listed
    refine ⟨before, after, split, fun entry earlier => ?_⟩
    rw [Distinct, split, List.map_append, List.nodup_append] at distinct
    have apart := distinct.2.2 entry.1 (List.mem_map_of_mem earlier) name List.mem_cons_self
    simpa using apart.symm
  · rintro ⟨before, after, split, _⟩
    rw [split]
    exact List.mem_append_right _ List.mem_cons_self

theorem Reordered.symm (reordered : Reordered gifts gifts') : Reordered gifts' gifts where
  perm := reordered.perm.symm
  kept name := (reordered.kept name).symm

theorem Reordered.matches (reordered : Reordered gifts gifts') (distinct : b.Distinct) :
    (b.after (productionCalls gifts)).Matches (b.after (productionCalls gifts')) := by
  have rules_eq := reordered.rulesOf?_eq b
  have listed := distinct.after (productionCalls gifts)
  have listedToo := distinct.after (productionCalls gifts')
  obtain ⟨pending, left⟩ := b.after_productionCalls gifts
  obtain ⟨pending', left'⟩ := b.after_productionCalls gifts'
  constructor
  case name_eq => rw [left, left']
  case start_eq => rw [left, left']
  case rulesOf?_eq => exact rules_eq
  case pending =>
    intro entry member
    have found := (rules_eq entry.1).symm.trans (listedToo.mem_pending_iff.mp member)
    exact listed.mem_pending_iff.mpr found
  case ofSet_eq =>
    intro set c resolved
    rw [left] at resolved
    rw [left']
    exact resolved

/-- Whatever the builder was called for before, productions may be added in any order as long as the
calls for each name keep theirs: a grammar is built of both or of neither, and the two grammars can
take each other's place. -/
theorem reordered_interchangeable (start : String) (named : Option String) (registry : Registry)
    (before : List Call) (reordered : Reordered gifts gifts') :
    let begun := (new start named registry).after before
    let b := begun.after (productionCalls gifts)
    let b' := begun.after (productionCalls gifts')
    ((∃ g, b.build = .ok g) ↔ ∃ g', b'.build = .ok g') ∧
      ∀ g g', b.build = .ok g → b'.build = .ok g' → g.Interchangeable g' := by
  intro begun b b'
  have empty : (new start named registry).Distinct := List.nodup_nil
  have distinct : begun.Distinct := empty.after before
  have there : b.Matches b' := reordered.matches distinct
  have back : b'.Matches b := reordered.symm.matches distinct
  refine ⟨⟨?_, ?_⟩, ?_⟩
  · rintro ⟨g, built⟩
    obtain ⟨g', built', _⟩ := there.build built
    exact ⟨g', built'⟩
  · rintro ⟨g', built'⟩
    obtain ⟨g, built, _⟩ := back.build built'
    exact ⟨g, built⟩
  · intro g g' built built'
    obtain ⟨other, builtOther, interchangeable⟩ := there.interchangeable built
    cases builtOther.symm.trans built'
    exact interchangeable

/-- A sentence of two words. -/
def sentence : String × List Rule := ("s", [.sequence [.nonTerminal "a", .nonTerminal "b"]])

/-- The words; the first one gets a second spelling when both have one. -/
def words : List (String × List Rule) :=
  [("a", [.literal "x"]), ("b", [.literal "y"]), ("a", [.literal "z"])]

theorem reordered_words : Reordered (sentence :: words) (words ++ [sentence]) where
  perm := List.perm_append_singleton sentence words
  kept name := by
    by_cases here : "s" = name
    · subst here
      rfl
    · have other : decide ("s" = name) = false := decide_eq_false here
      simp only [List.filter_append, List.filter_cons, sentence, other, Bool.false_eq_true,
        if_false, List.filter_nil, List.append_nil]

def phrased : Generator Unit where
  grammar :=
    { name := "s", start := "s", registry := ⟨[], false⟩
      productions :=
        [("s", .sequence [.nonTerminal "a", .nonTerminal "b"]),
          ("a", .alternative [.literal "x", .literal "z"]), ("b", .literal "y")] }
  replacements := {}
  config := {}
  classes := []

theorem sentence_built :
    ((new "s" none ⟨[], false⟩).after (productionCalls (sentence :: words))).build =
      .ok phrased.grammar := by
  refine build_of_checked rfl ?_
  simp [productionCalls, sentence, words, after, perform, production, append, new, bodies, bodyOf,
    Rule.walk, Rule.walkFrom, Rule.children, checkRule, defines, rulesOf?, List.lookup_cons,
    Rule.stray?]

theorem phrased_made : Generator.new phrased.grammar [] none phrased.config = .ok phrased := by
  simp [Generator.new, Generator.rulesOf, phrased, Rule.walk, Rule.walkFrom, Rule.children,
    Generator.resolveSets]
  rfl

/-- The second spelling is the second one in either order. -/
theorem words_reordered_interchangeable :
    let script : Script := { queue := [.pick (.int 1)] }
    Reordered (sentence :: words) (words ++ [sentence]) ∧ ∃ g h,
      ((new "s" none ⟨[], false⟩).after (productionCalls (words ++ [sentence]))).build = .ok g ∧
        g.productions.map (·.1) = ["a", "b", "s"] ∧
        Generator.new g [] none {} = .ok h ∧
        (h.runWithin (.first 20) none script ()).text.toOption = some "zy" := by
  intro script
  refine ⟨reordered_words, ?_⟩
  obtain ⟨alike, runs⟩ := reordered_interchangeable "s" none ⟨[], false⟩ [] reordered_words
  obtain ⟨g, built⟩ := alike.mp ⟨_, sentence_built⟩
  rcases runs _ _ sentence_built built [] none phrased.config with
    ⟨fault, refused, _⟩ | ⟨h, h', made, made', same, _⟩
  · cases phrased_made.symm.trans refused
  · cases phrased_made.symm.trans made
    refine ⟨g, h', built, ?_, made', ?_⟩
    · obtain ⟨_, rfl, _⟩ := build_ok built
      rfl
    · rw [same]
      decide +kernel

end Builder

end SentenceGen
