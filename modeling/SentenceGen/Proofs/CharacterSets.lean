import Mathlib.Data.List.Perm.Subperm
import SentenceGen.Generator
import SentenceGen.Proofs.Derives

/-!
# The classes of the character sets

A generator resolves every character set once and finds it again by equality of sets, which ignores
the order of the excluded values and the form in which a number was given.  Equal sets leave out the
same code points, so what is found is the class that the set stands for.
-/

namespace SentenceGen

namespace Datum

/-- What equality of hashable data goes by: a text, a number, or neither. -/
def identity : Datum → Option (String ⊕ Decimal.Magnitude)
  | .str s => some (.inl s)
  | d => d.magnitude?.map .inr

theorem ofFloat_eq_undefined (x : Float) :
    Decimal.Magnitude.ofFloat x = .undefined ↔ Decimal.Double.ofFloat x = .undefined := by
  rw [Decimal.Magnitude.ofFloat]
  split <;> simp_all

theorem magnitude_same (x y : Decimal.Magnitude) :
    (decide (x = .undefined) && decide (y = .undefined) || x.equal y) = decide (x = y) := by
  cases x <;> cases y <;> simp [Decimal.Magnitude.equal]

theorem equal_finite_left (q : Rat) (y : Decimal.Magnitude) :
    (Decimal.Magnitude.finite q).equal y = decide (.finite q = y) := by
  cases y <;> simp [Decimal.Magnitude.equal]

theorem equal_finite_right (x : Decimal.Magnitude) (q : Rat) :
    x.equal (.finite q) = decide (x = .finite q) := by
  cases x <;> simp [Decimal.Magnitude.equal]

theorem same_eq_identity {a b : Datum} (ha : a.hashable = true) (hb : b.hashable = true) :
    a.same b = decide (a.identity = b.identity) := by
  cases a <;> cases b <;> simp only [hashable, Bool.false_eq_true] at ha hb <;>
    simp [same, identity, equal, scalarEqual, isUndefined, magnitude?, int?, equal_finite_left,
      equal_finite_right, Decimal.Magnitude.ofInt]
  case float.float x y =>
    simpa only [ofFloat_eq_undefined] using magnitude_same (.ofFloat x) (.ofFloat y)
  case str.str s t => exact beq_eq_decide s t

theorem whole?_eq_of_identity {a b : Datum} (h : a.identity = b.identity) :
    a.whole? = b.whole? := by
  have viaIdentity {d : Datum} : d.whole? = d.identity.bind fun
      | .inl _ => none
      | .inr x => x.integer? := by
    cases d <;> simp [whole?, identity, magnitude?, int?]
  rw [viaIdentity, viaIdentity, h]

end Datum

namespace CharacterSet

theorem nodup_identities (set : CharacterSet) : (set.exclude.map Datum.identity).Nodup := by
  refine List.pairwise_map.mpr (set.isSet.distinct.imp_of_mem ?_)
  intro a b ha hb differ
  rw [Datum.same_eq_identity (set.isSet.hashable a ha) (set.isSet.hashable b hb)] at differ
  exact of_decide_eq_false differ

/-- Equal sets exclude the same values, in some order. -/
theorem perm_identities {a b : CharacterSet} (h : (a == b) = true) :
    (a.exclude.map Datum.identity).Perm (b.exclude.map Datum.identity) := by
  obtain ⟨_, length, covered⟩ : a.name = b.name ∧ a.exclude.length = b.exclude.length ∧
      ∀ x ∈ a.exclude, ∃ y ∈ b.exclude, x.same y = true := by
    simpa [BEq.beq, Datum.sameMembers] using h
  refine (List.subperm_of_subset a.nodup_identities ?_).perm_of_length_le (by simp [length])
  intro identity member
  obtain ⟨x, hx, rfl⟩ := List.mem_map.mp member
  obtain ⟨y, hy, same⟩ := covered x hx
  rw [Datum.same_eq_identity (a.isSet.hashable x hx) (b.isSet.hashable y hy)] at same
  exact List.mem_map.mpr ⟨y, hy, (of_decide_eq_true same).symm⟩

theorem mem_points_of_beq {a b : CharacterSet} (h : (a == b) = true) {codepoint : Int}
    (member : codepoint ∈ a.points) : codepoint ∈ b.points := by
  obtain ⟨x, hx, whole⟩ := List.mem_filterMap.mp member
  have listed := (perm_identities h).subset (List.mem_map_of_mem hx)
  obtain ⟨y, hy, same⟩ := List.mem_map.mp listed
  refine List.mem_filterMap.mpr ⟨y, hy, ?_⟩
  rw [Datum.whole?_eq_of_identity same, whole]

theorem beq_self (set : CharacterSet) : (set == set) = true := by
  have covered : ∀ x ∈ set.exclude, ∃ y ∈ set.exclude, x.same y = true := fun x hx =>
    ⟨x, hx, by
      rw [Datum.same_eq_identity (set.isSet.hashable x hx) (set.isSet.hashable x hx)]
      exact decide_eq_true rfl⟩
  simpa [BEq.beq, Datum.sameMembers] using covered

theorem beq_symm {a b : CharacterSet} (h : (a == b) = true) : (b == a) = true := by
  have names : a.name = b.name := by
    simp only [BEq.beq, Bool.and_eq_true, decide_eq_true_eq] at h
    exact h.1
  have perm := perm_identities h
  have covered : ∀ y ∈ b.exclude, ∃ x ∈ a.exclude, y.same x = true := by
    intro y hy
    have listed := perm.symm.subset (List.mem_map_of_mem hy)
    obtain ⟨x, hx, same⟩ := List.mem_map.mp listed
    refine ⟨x, hx, ?_⟩
    rw [Datum.same_eq_identity (b.isSet.hashable y hy) (a.isSet.hashable x hx)]
    exact decide_eq_true same.symm
  have length : b.exclude.length = a.exclude.length := by simpa using perm.symm.length_eq
  simpa [BEq.beq, Datum.sameMembers, names, length] using covered

end CharacterSet

namespace Registry

theorem ofSet_of_beq (r : Registry) {a b : CharacterSet} (h : (a == b) = true) :
    r.ofSet a = r.ofSet b := by
  have names : a.name = b.name := by
    simp only [BEq.beq, Bool.and_eq_true, decide_eq_true_eq] at h
    exact h.1
  have points (codepoint : Int) : a.points.contains codepoint = b.points.contains codepoint := by
    rw [Bool.eq_iff_iff, List.contains_iff_mem, List.contains_iff_mem]
    exact ⟨CharacterSet.mem_points_of_beq h,
      CharacterSet.mem_points_of_beq (CharacterSet.beq_symm h)⟩
  simp only [ofSet, names, CharacterClass.remove, points]

theorem ofSet_eq_ok {r : Registry} {set : CharacterSet} {c : CharacterClass} :
    r.ofSet set = .ok c ↔
      ∃ whole, r.resolve set.name = .ok whole ∧ whole.remove set.points = c := by
  unfold ofSet
  cases r.resolve set.name <;> simp [Bind.bind, Except.bind, pure, Except.pure]

end Registry

namespace Generator

variable {κ : Type}

/-- What a table of classes says of a set is what the set stands for. -/
def ClassesSound (registry : Registry) (classes : List (CharacterSet × CharacterClass)) : Prop :=
  ∀ set c, classes.lookup set = some c → registry.ofSet set = .ok c

theorem ClassesSound.append {registry : Registry} {classes : List (CharacterSet × CharacterClass)}
    (sound : ClassesSound registry classes) {set : CharacterSet} {c : CharacterClass}
    (resolved : registry.ofSet set = .ok c) : ClassesSound registry (classes ++ [(set, c)]) := by
  intro other found lookup
  rw [List.lookup_append, Option.or_eq_some_iff] at lookup
  rcases lookup with early | ⟨_, last⟩
  · exact sound other found early
  · rw [List.lookup_cons] at last
    split at last
    next same =>
      obtain rfl := Option.some.inj last
      rw [registry.ofSet_of_beq same, resolved]
    next => cases last

/-- Resolving the sets of a list of rules keeps what was resolved and covers the rules. -/
theorem resolveSets_spec {registry : Registry} (rules : List Rule)
    {classes table : List (CharacterSet × CharacterClass)} (sound : ClassesSound registry classes)
    (resolved : resolveSets registry rules classes = .ok table) :
    ClassesSound registry table ∧
      (∀ set, (classes.lookup set).isSome = true → (table.lookup set).isSome = true) ∧
      ∀ set, .characters set ∈ rules → (table.lookup set).isSome = true := by
  induction rules generalizing classes with
  | nil =>
    obtain rfl := Except.ok.inj resolved
    exact ⟨sound, fun _ found => found, by simp⟩
  | cons rule rest ih =>
    cases rule with
    | characters set =>
      rw [resolveSets] at resolved
      split at resolved
      next known =>
        obtain ⟨soundTable, kept, covered⟩ := ih sound resolved
        refine ⟨soundTable, kept, fun other member => ?_⟩
        rcases List.mem_cons.mp member with same | later
        · obtain rfl := Rule.characters.inj same
          exact kept _ known
        · exact covered other later
      next =>
        cases members : registry.ofSet set with
        | error fault => rw [members] at resolved; cases resolved
        | ok c =>
          rw [members] at resolved
          obtain ⟨soundTable, kept, covered⟩ := ih (sound.append members) resolved
          refine ⟨soundTable, fun other found => kept other ?_, fun other member => ?_⟩
          · simp [List.lookup_append, found]
          · rcases List.mem_cons.mp member with same | later
            · obtain rfl := Rule.characters.inj same
              refine kept _ ?_
              simp [List.lookup_append, CharacterSet.beq_self]
            · exact covered other later
    | _ =>
      obtain ⟨soundTable, kept, covered⟩ := ih sound resolved
      exact ⟨soundTable, kept, fun other member => covered other (by simpa using member)⟩

theorem mem_rulesOf {g : Grammar} {name : String} {body rule : Rule}
    (defined : g.body? name = some body) (visited : rule ∈ body.walk) : rule ∈ rulesOf g := by
  obtain ⟨before, after, split, _⟩ := List.lookup_eq_some_iff.mp defined
  have listed : (name, body) ∈ g.productions := by
    rw [split]
    exact List.mem_append_right _ List.mem_cons_self
  exact List.mem_flatMap.mpr ⟨(name, body), listed, visited⟩

/-- Sets that stand for classes can be resolved. -/
theorem resolveSets_of_ofSet {registry : Registry} {rules : List Rule}
    (each : ∀ set, .characters set ∈ rules → ∃ c, registry.ofSet set = .ok c)
    (classes : List (CharacterSet × CharacterClass)) :
    ∃ table, resolveSets registry rules classes = .ok table := by
  induction rules generalizing classes with
  | nil => exact ⟨classes, rfl⟩
  | cons rule rest ih =>
    have later (set : CharacterSet) (member : .characters set ∈ rest) :
        ∃ c, registry.ofSet set = .ok c :=
      each set (List.mem_cons_of_mem _ member)
    cases rule with
    | characters set =>
      obtain ⟨c, resolved⟩ := each set List.mem_cons_self
      rw [resolveSets, resolved]
      split
      · exact ih later classes
      · exact ih later (classes ++ [(set, c)])
    | _ => exact ih later classes

/-- The table of classes of a generator: it is sound and has every set in the productions. -/
structure Resolved (g : Generator κ) : Prop where
  sound : ClassesSound g.grammar.registry g.classes
  covers : ∀ set, g.grammar.Reaches (.characters set) → (g.classes.lookup set).isSome = true

theorem new_eq_ok {grammar : Grammar} {bindings : List (Datum ⊕ Binding (Callback κ))}
    {default : Option (Callback κ)} {config : Config} {g : Generator κ}
    (made : new grammar bindings default config = .ok g) :
    ∃ replacements classes,
      Replacements.ofBindings grammar.defines
        (bindings ++ default.toList.map fun callback => .inr (.default callback)) =
          .ok replacements ∧
      resolveSets grammar.registry (rulesOf grammar) [] = .ok classes ∧
      g = { grammar, replacements, config, classes } := by
  simp only [new, Bind.bind, Except.bind] at made
  split at made
  next => cases made
  next replacements bound =>
    split at made
    next => cases made
    next classes resolved =>
      exact ⟨replacements, classes, bound, resolved, (Except.ok.inj made).symm⟩

theorem resolved_of_new {grammar : Grammar} {bindings : List (Datum ⊕ Binding (Callback κ))}
    {default : Option (Callback κ)} {config : Config} {g : Generator κ}
    (made : new grammar bindings default config = .ok g) : g.Resolved := by
  obtain ⟨replacements, classes, _, resolved, rfl⟩ := new_eq_ok made
  have nothing : ClassesSound grammar.registry [] := by
    intro set c lookup
    simp at lookup
  obtain ⟨sound, _, covered⟩ := resolveSets_spec _ nothing resolved
  refine ⟨sound, fun set reached => covered set ?_⟩
  obtain ⟨name, same⟩ | ⟨name, body, defined, visited⟩ := reached
  · cases same
  · exact mem_rulesOf defined visited

theorem ofSet_of_new {grammar : Grammar} {bindings : List (Datum ⊕ Binding (Callback κ))}
    {default : Option (Callback κ)} {config : Config} {g : Generator κ}
    (made : new grammar bindings default config = .ok g) {set : CharacterSet}
    (listed : .characters set ∈ rulesOf grammar) : ∃ c, grammar.registry.ofSet set = .ok c := by
  obtain ⟨_, classes, _, resolved, _⟩ := new_eq_ok made
  have nothing : ClassesSound grammar.registry [] := by
    intro set c lookup
    simp at lookup
  obtain ⟨sound, _, covered⟩ := resolveSets_spec _ nothing resolved
  obtain ⟨c, found⟩ := Option.isSome_iff_exists.mp (covered set listed)
  exact ⟨c, sound set c found⟩

theorem resolveSets_nesting :
    resolveSets Grammar.nesting.registry (rulesOf .nesting) [] = .ok [] := by
  simp [rulesOf, Grammar.nesting, Rule.walk, Rule.walkFrom, Rule.children, resolveSets]

end Generator

end SentenceGen
