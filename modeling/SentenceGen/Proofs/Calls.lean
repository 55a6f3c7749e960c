import Mathlib.Data.List.Induction
import SentenceGen.Proofs.FirstOccurrences
import SentenceGen.Proofs.Inclusion

/-!
# The calls of a builder

A builder gets its productions call by call, and may be called again after a call has failed.  If
no call fails, each name that was mentioned has the rules of all its calls in their order, and the
names stand in the order in which they were mentioned first.
-/

namespace SentenceGen

namespace Builder

inductive Call where
  | production (name : String) (rules : List Rule)
  | inclusion (g : Grammar)

variable {b c : Builder} {call : Call} {calls : List Call} {name : String} {rules : List Rule}
  {pending : List (String × List Rule)}

/-- The outcome of a call and the builder that it leaves; rules are refused as a whole. -/
def perform (b : Builder) : Call → Except Fault Unit × Builder
  | .production name rules =>
    match b.production name rules with
    | .ok c => (.ok (), c)
    | .error fault => (.error fault, b)
  | .inclusion g => b.includeGrammar g

/-- The builder after some calls, failed ones included. -/
def after (b : Builder) : List Call → Builder
  | [] => b
  | call :: rest => (b.perform call).2.after rest

def outcomes (b : Builder) : List Call → List (Except Fault Unit)
  | [] => []
  | call :: rest => (b.perform call).1 :: (b.perform call).2.outcomes rest

/-- No call fails. -/
def Accepts (b : Builder) (calls : List Call) : Prop :=
  ∀ outcome ∈ b.outcomes calls, outcome = .ok ()

/-- Rules that a production can be given: there are some, and none is a stray value. -/
def Acceptable (rules : List Rule) : Prop :=
  rules.isEmpty = false ∧ rules.findSome? Rule.stray? = none

/-- Rules are taken for what they are, whatever the builder has. -/
theorem perform_production (b : Builder) (name : String) (rules : List Rule) :
    Acceptable rules ∧ b.perform (.production name rules) =
        (.ok (), { b with pending := append name rules b.pending }) ∨
      ¬ Acceptable rules ∧ ∃ fault, b.perform (.production name rules) = (.error fault, b) ∧
        ∀ taken, fault ≠ .duplicateProduction taken := by
  by_cases empty : rules.isEmpty = true
  · have refused : ¬ Acceptable rules := fun h => absurd h.1 (by simp [empty])
    refine .inr ⟨refused, .productionWithoutRules name, ?_, nofun⟩
    simp [perform, production, empty]
  · cases stray : rules.findSome? Rule.stray? with
    | some value =>
      have refused : ¬ Acceptable rules := fun h => absurd h.2 (by simp [stray])
      refine .inr ⟨refused, .productionNotRule name value.kind, ?_, nofun⟩
      simp [perform, production, empty, stray]
    | none =>
      refine .inl ⟨⟨Bool.eq_false_iff.mpr empty, stray⟩, ?_⟩
      simp [perform, production, empty, stray]

/-! ### What calls give -/

/-- A production of a grammar with its body for the only rule. -/
def alone (entry : String × Rule) : String × List Rule := (entry.1, [entry.2])

/-- The rules of a call, with the names that they are given to. -/
def Call.gifts : Call → List (String × List Rule)
  | .production name rules => [(name, rules)]
  | .inclusion g => g.productions.map alone

/-- The rules that were given to a name, in order. -/
def given (gifts : List (String × List Rule)) (name : String) : List Rule :=
  gifts.flatMap fun gift => if gift.1 = name then gift.2 else []

/-- The names in the order in which they were mentioned first. -/
def mentioned (gifts : List (String × List Rule)) : List String := (gifts.map (·.1)).eraseDups

def table (gifts : List (String × List Rule)) : List (String × List Rule) :=
  (mentioned gifts).map fun name => (name, given gifts name)

/-- All rules added one after the other. -/
def appendAll (gifts pending : List (String × List Rule)) : List (String × List Rule) :=
  gifts.foldl (fun pending gift => append gift.1 gift.2 pending) pending

theorem appendAll_append (first second pending : List (String × List Rule)) :
    appendAll (first ++ second) pending = appendAll second (appendAll first pending) :=
  List.foldl_append

theorem append_of_not_mem (fresh : name ∉ pending.map (·.1)) (rules : List Rule) :
    append name rules pending = pending ++ [(name, rules)] := by
  induction pending with
  | nil => rfl
  | cons entry rest ih =>
    rw [List.map_cons, List.mem_cons, not_or] at fresh
    rw [append, if_neg (by simpa using fresh.1), ih fresh.2]
    rfl

theorem append_of_mem {names : List String} (distinct : names.Nodup) (member : name ∈ names)
    (rulesOf : String → List Rule) (rules : List Rule) :
    append name rules (names.map fun other => (other, rulesOf other)) =
      names.map fun other => (other, rulesOf other ++ if name = other then rules else []) := by
  induction names with
  | nil => cases member
  | cons first rest ih =>
    obtain ⟨new, distinct⟩ := List.nodup_cons.mp distinct
    rw [List.map_cons, List.map_cons, append]
    by_cases here : name = first
    · subst here
      have others : ∀ other ∈ rest, name ≠ other := by
        rintro other listed rfl
        exact new listed
      rw [if_pos (beq_self_eq_true _), if_pos rfl]
      congr 1
      refine List.map_congr_left fun other listed => ?_
      rw [if_neg (others other listed), List.append_nil]
    · have later : name ∈ rest := (List.mem_cons.mp member).resolve_left here
      rw [if_neg (by simpa using here), if_neg here, List.append_nil, ih distinct later]

theorem map_fst_append (name : String) (rules : List Rule)
    (pending : List (String × List Rule)) : (append name rules pending).map (·.1) =
      if name ∈ pending.map (·.1) then pending.map (·.1) else pending.map (·.1) ++ [name] := by
  induction pending with
  | nil => rfl
  | cons entry rest ih =>
    rw [append]
    by_cases here : name = entry.1
    · simp [here]
    · rw [if_neg (by simpa using here), List.map_cons, ih, List.map_cons]
      by_cases later : name ∈ rest.map (·.1)
      · rw [if_pos later, if_pos (List.mem_cons_of_mem _ later)]
      · rw [if_neg later, if_neg (List.not_mem_cons_of_ne_of_not_mem here later)]
        rfl

variable {gifts : List (String × List Rule)}

theorem mem_mentioned : name ∈ mentioned gifts ↔ name ∈ gifts.map (·.1) := List.mem_eraseDups

theorem map_fst_table (gifts : List (String × List Rule)) :
    (table gifts).map (·.1) = mentioned gifts := by
  rw [table, List.map_map]
  exact List.map_id _

theorem given_concat (gifts : List (String × List Rule)) (name : String) (rules : List Rule)
    (other : String) :
    given (gifts ++ [(name, rules)]) other =
      given gifts other ++ if name = other then rules else [] := by
  rw [given, List.flatMap_append, List.flatMap_singleton]
  rfl

theorem given_of_not_mem (unknown : name ∉ gifts.map (·.1)) : given gifts name = [] := by
  refine List.flatMap_eq_nil_iff.mpr fun gift member => if_neg ?_
  rintro rfl
  exact unknown (List.mem_map_of_mem member)

/-- One more call's rules are appended to those that its name has. -/
theorem table_concat (gifts : List (String × List Rule)) (name : String) (rules : List Rule) :
    table (gifts ++ [(name, rules)]) = append name rules (table gifts) := by
  have names : mentioned (gifts ++ [(name, rules)]) =
      if name ∈ mentioned gifts then mentioned gifts else mentioned gifts ++ [name] := by
    rw [mentioned, List.map_append]
    exact eraseDups_concat _ name
  simp only [table, names, given_concat]
  by_cases known : name ∈ mentioned gifts
  · rw [if_pos known]
    exact (append_of_mem (nodup_eraseDups _) known (given gifts) rules).symm
  · have fresh : name ∉ (table gifts).map (·.1) := by rwa [map_fst_table]
    have others : ∀ other ∈ mentioned gifts, (other, given gifts other ++
        if name = other then rules else []) = (other, given gifts other) := by
      intro other listed
      have different : name ≠ other := by
        rintro rfl
        exact known listed
      rw [if_neg different, List.append_nil]
    rw [if_neg known, List.map_append, List.map_congr_left others, List.map_singleton,
      given_of_not_mem (mem_mentioned.not.mp known), if_pos rfl]
    exact (append_of_not_mem fresh rules).symm

theorem appendAll_nil (gifts : List (String × List Rule)) : appendAll gifts [] = table gifts := by
  induction gifts using List.reverseRecOn with
  | nil => rfl
  | append_singleton gifts gift ih =>
    rw [appendAll_append, ih, table_concat]
    rfl

/-! ### What calls do -/

theorem isSome_lookup_iff {β : Type} {entries : List (String × β)} :
    (entries.lookup name).isSome = true ↔ name ∈ entries.map (·.1) := by
  simp only [List.lookup_isSome_iff, beq_iff_eq, List.mem_map]
  exact ⟨fun ⟨entry, listed, same⟩ => ⟨entry, listed, same.symm⟩,
    fun ⟨entry, listed, same⟩ => ⟨entry, listed, same.symm⟩⟩

theorem defines_iff : b.defines name = true ↔ name ∈ b.pending.map (·.1) := isSome_lookup_iff

theorem copy_eq_ok {productions : List (String × Rule)}
    (copied : copy productions b = (.ok (), c)) :
    c = { b with pending := appendAll (productions.map alone) b.pending } := by
  induction productions generalizing b with
  | nil =>
    cases copied
    rfl
  | cons entry rest ih =>
    rw [copy] at copied
    by_cases taken : b.defines entry.1 = true
    · rw [if_pos taken] at copied
      cases copied
    · rw [if_neg taken] at copied
      have fresh : entry.1 ∉ b.pending.map (·.1) := fun listed => taken (defines_iff.mpr listed)
      rw [ih copied, List.map_cons, appendAll, appendAll, List.foldl_cons]
      simp only [alone, append_of_not_mem fresh]

theorem perform_eq_ok (done : b.perform call = (.ok (), c)) :
    c = { b with pending := appendAll call.gifts b.pending } := by
  cases call with
  | production name rules =>
    rcases b.perform_production name rules with ⟨_, taken⟩ | ⟨_, fault, refused, _⟩
    · rw [taken] at done
      cases done
      rfl
    · rw [refused] at done
      cases done
  | inclusion g => exact copy_eq_ok done

/-- Calls that do not fail add all that they give, and change nothing else. -/
theorem after_of_accepts (accepted : b.Accepts calls) :
    b.after calls = { b with pending := appendAll (calls.flatMap Call.gifts) b.pending } := by
  induction calls generalizing b with
  | nil => rfl
  | cons call rest ih =>
    obtain ⟨first, others⟩ := List.forall_mem_cons.mp accepted
    have others : (b.perform call).2.Accepts rest := others
    have same : (b.perform call).2 = { b with pending := appendAll call.gifts b.pending } :=
      perform_eq_ok (Prod.ext first rfl)
    rw [same] at others
    rw [after, same, ih others, List.flatMap_cons, appendAll_append]

theorem after_new_of_accepts {start : String} {given : Option String} {registry : Registry}
    (accepted : (new start given registry).Accepts calls) :
    (new start given registry).after calls =
      { new start given registry with pending := table (calls.flatMap Call.gifts) } := by
  rw [after_of_accepts accepted, ← appendAll_nil]
  rfl

/-! ### Distinct names -/

/-- Every production stands in the table once. -/
def Distinct (b : Builder) : Prop := (b.pending.map (·.1)).Nodup

theorem Distinct.append (distinct : b.Distinct) (name : String) (rules : List Rule) :
    Distinct { b with pending := append name rules b.pending } := by
  rw [Distinct, map_fst_append]
  exact nodup_concat_of_new distinct name

theorem Distinct.copy (distinct : b.Distinct) (productions : List (String × Rule)) :
    (copy productions b).2.Distinct := by
  induction productions generalizing b with
  | nil => exact distinct
  | cons entry rest ih =>
    rw [Builder.copy]
    by_cases taken : b.defines entry.1 = true
    · rw [if_pos taken]
      exact distinct
    · rw [if_neg taken]
      have fresh : entry.1 ∉ b.pending.map (·.1) := fun listed => taken (defines_iff.mpr listed)
      have longer := distinct.append entry.1 [entry.2]
      rw [append_of_not_mem fresh] at longer
      exact ih longer

theorem Distinct.after (distinct : b.Distinct) (calls : List Call) : (b.after calls).Distinct := by
  induction calls generalizing b with
  | nil => exact distinct
  | cons call rest ih =>
    apply ih
    cases call with
    | production name rules =>
      rcases b.perform_production name rules with ⟨_, taken⟩ | ⟨_, fault, refused, _⟩
      · rw [taken]
        exact distinct.append name rules
      · rw [refused]
        exact distinct
    | inclusion g => exact distinct.copy g.productions

end Builder

theorem Builder.map_fst_bodies (b : Builder) : b.bodies.map (·.1) = b.pending.map (·.1) := by
  rw [bodies, List.map_map]
  rfl

theorem Grammar.defines_iff {g : Grammar} {name : String} :
    g.defines name = true ↔ name ∈ g.productions.map (·.1) := Builder.isSome_lookup_iff

/-- Some calls of a new builder build the grammar. -/
def Grammar.Built (g : Grammar) : Prop :=
  ∃ start name registry calls, ((Builder.new start name registry).after calls).build = .ok g

theorem Grammar.Built.distinct {g : Grammar} (built : g.Built) :
    (g.productions.map (·.1)).Nodup := by
  obtain ⟨start, name, registry, calls, done⟩ := built
  obtain ⟨_, rfl, _⟩ := Builder.build_ok done
  have begun : (Builder.new start name registry).Distinct := List.nodup_nil
  rw [Builder.map_fst_bodies]
  exact begun.after calls

end SentenceGen
