import SentenceGen.Proofs.Registries
import SentenceGen.Proofs.Resolution
import SentenceGen.Proofs.SharedRules

/-!
# Two ways of excluding

A rule takes one-character texts for their code points, so what the engine offers has none of the
excluded characters.  A class that is looked up is taken at its word: only code points leave it.
The two agree where every excluded text was of no consequence, and so whenever none is among the
exclusions.
-/

namespace SentenceGen

/-- What is excluded: a code point, or the only character of a text. -/
inductive Exclusion where
  | codepoint (n : Int)
  | character (x : Char)
  deriving DecidableEq

namespace Exclusion

def datum : Exclusion → Datum
  | .codepoint n => .int n
  | .character x => .str x.toString

/-- The code point that is meant. -/
def point : Exclusion → Int
  | .codepoint n => n
  | .character x => x.toNat

/-- The code point, if it was given as one. -/
def given? : Exclusion → Option Int
  | .codepoint n => some n
  | .character _ => none

variable {exclude : List Exclusion} {n : Int}

theorem whole?_datum (e : Exclusion) : e.datum.whole? = e.given? := by
  cases e with
  | codepoint n => exact Datum.whole?_int n
  | character x => rfl

theorem hashable_datum : ∀ value ∈ exclude.map datum, value.hashable = true := by
  intro value listed
  obtain ⟨e, _, rfl⟩ := List.mem_map.mp listed
  cases e <;> rfl

theorem mem_given : n ∈ exclude.filterMap given? ↔ .codepoint n ∈ exclude := by
  rw [List.mem_filterMap]
  constructor
  · rintro ⟨e, listed, given⟩
    cases e with
    | codepoint k => exact Option.some.inj given ▸ listed
    | character x => cases given
  · exact fun listed => ⟨.codepoint n, listed, rfl⟩

theorem excludedValue_datum (e : Exclusion) :
    Rule.excludedValue e.datum = .ok ⟨.int e.point, rfl⟩ := by
  cases e with
  | codepoint n => rfl
  | character x =>
    simp only [datum, Rule.excludedValue, Datum.codepoint?_char]
    rfl

end Exclusion

namespace CharacterClass

/-- Integers are taken away, texts are not. -/
theorem without_exclusions (c : CharacterClass) (exclude : List Exclusion) :
    c.without (exclude.map Exclusion.datum) =
      .ok (c.remove (exclude.filterMap Exclusion.given?)) := by
  refine without_eq_ok.mpr ⟨Exclusion.hashable_datum, ?_⟩
  rw [List.filterMap_map]
  exact congrArg c.remove (List.filterMap_congr fun e _ => e.whole?_datum)

theorem contains_remove {points : List Int} (c : CharacterClass) (e : Exclusion)
    (excluded : e.point ∈ points) : (c.remove points).contains e.datum = .ok false := by
  have gone : e.point ∉ (c.remove points).codepoints.map Nat.cast := by
    intro listed
    obtain ⟨n, member, same⟩ := List.mem_map.mp listed
    have kept := (mem_remove.mp (mem_def.mpr member)).2
    rw [same] at kept
    exact kept excluded
  cases e with
  | codepoint n =>
    rw [Exclusion.datum, contains_int]
    exact congrArg Except.ok (decide_eq_false gone)
  | character x =>
    rw [Exclusion.datum, contains_char]
    exact congrArg Except.ok (decide_eq_false fun member => gone (List.mem_map_of_mem member))

end CharacterClass

namespace Rule

variable {exclude : List Exclusion} {d : Datum}

theorem mapM_excludedValue (exclude : List Exclusion) :
    (exclude.map Exclusion.datum).mapM excludedValue =
      .ok (exclude.map fun e => ⟨.int e.point, rfl⟩) := by
  induction exclude with
  | nil => rfl
  | cons e rest ih =>
    rw [List.map_cons, List.mapM_cons, ih, e.excludedValue_datum]
    rfl

/-- The set of a rule has the code points that are meant, however they were given. -/
theorem ofCharacters_exclusions (name : String)
    (collected : d.members = .ok (exclude.map Exclusion.datum)) :
    ∃ set, ofCharacters name d = .ok (.characters set) ∧ set.name = name ∧
      ∀ n, n ∈ set.points ↔ n ∈ exclude.map Exclusion.point := by
  have made : ∃ set, ofCharacters name d = .ok (.characters set) ∧ set.name = name ∧
      set.exclude = Datum.distinct (exclude.map fun e => .int e.point) := by
    simp only [ofCharacters, collected, bind, Except.bind, mapM_excludedValue]
    refine ⟨_, rfl, rfl, congrArg Datum.distinct ?_⟩
    simp [List.unattach]
  obtain ⟨set, made, named, excluded⟩ := made
  have hashable : ∀ value ∈ exclude.map fun e => Datum.int e.point, value.hashable = true := by
    intro value listed
    obtain ⟨e, _, rfl⟩ := List.mem_map.mp listed
    rfl
  refine ⟨set, made, named, fun n => ?_⟩
  rw [CharacterSet.points, excluded, Datum.mem_whole?_distinct hashable]
  simp [List.filterMap_map]

end Rule

/-- What the engine offers for a set is what the set stands for in the registry of the grammar. -/
theorem Generator.offers_of_ofSet {σ κ : Type} [DecisionSource σ] {grammar : Grammar}
    {bindings : List (Datum ⊕ Binding (Callback κ))} {default : Option (Callback κ)}
    {config : Config} {g : Generator κ} (made : new grammar bindings default config = .ok g)
    {set : CharacterSet} (standing : grammar.Standing (.characters set)) {c : CharacterClass}
    (stands : grammar.registry.ofSet set = .ok c) : g.plan.Offers σ set c := by
  obtain rfl := grammar_of_new made
  obtain ⟨name, body, defined, visited⟩ := standing
  exact Plan.offers_of_classOf ((resolved_of_new made).classOf_eq defined visited stands)

namespace Registry

variable {r : Registry} {name : String} {exclude : List Exclusion} {d : Datum}

/-- Looking up a known class less some exclusions is taking them from the class.  Both leave the
texts out of account, and the engine does not: what it offers is what both give for the code points
that are meant. -/
theorem exclusions_agree_iff (known : r.contains name = true)
    (collected : d.members = .ok (exclude.map Exclusion.datum)) :
    ∃ whole direct offered set,
      r.lookup name [] = .ok whole ∧
      r.lookup name (exclude.map Exclusion.datum) = .ok direct ∧
      whole.without (exclude.map Exclusion.datum) = .ok direct ∧
      direct.codepoints =
        whole.codepoints.filter (fun n : Nat => Exclusion.codepoint n ∉ exclude) ∧
      Rule.ofCharacters name d = .ok (.characters set) ∧
      (∀ {σ κ : Type} [DecisionSource σ] {grammar : Grammar}
        {bindings : List (Datum ⊕ Binding (Callback κ))} {default : Option (Callback κ)}
        {config : Config} {g : Generator κ}, grammar.registry = r →
          grammar.Standing (.characters set) →
          Generator.new grammar bindings default config = .ok g → g.plan.Offers σ set offered) ∧
      offered.codepoints =
        whole.codepoints.filter (fun n : Nat => ∀ e ∈ exclude, e.point ≠ n) ∧
      r.lookup name (exclude.map fun e => .int e.point) = .ok offered ∧
      whole.without (exclude.map fun e => .int e.point) = .ok offered ∧
      (direct = offered ↔ ∀ x, Exclusion.character x ∈ exclude → x.toNat ∈ whole →
        Exclusion.codepoint x.toNat ∈ exclude) ∧
      (∀ n, Exclusion.codepoint n ∈ exclude → direct.contains (.int n) = .ok false) ∧
      ∀ e ∈ exclude, offered.contains e.datum = .ok false := by
  rw [contains_iff_resolve?] at known
  obtain ⟨whole, found⟩ := Option.isSome_iff_exists.mp known
  have resolved : r.resolve name = .ok whole := resolve_eq_ok.mpr found
  have looked (values : List Datum) : r.lookup name values = whole.without values := by
    rw [lookup, resolved]
    rfl
  have direct := whole.without_exclusions exclude
  have meant : whole.without (exclude.map fun e => .int e.point) =
      .ok (whole.remove (exclude.map Exclusion.point)) := by
    rw [← whole.without_ints, List.map_map]
    rfl
  obtain ⟨set, made, named, points⟩ := Rule.ofCharacters_exclusions name collected
  have stands : r.ofSet set = .ok (whole.remove (exclude.map Exclusion.point)) :=
    ofSet_eq_ok.mpr ⟨whole, named ▸ resolved,
      CharacterClass.remove_eq_remove_iff.mpr fun n _ => points n⟩
  refine ⟨whole, _, _, set, (lookup_nil r name).trans resolved, (looked _).trans direct, direct, ?_,
    made, ?_, ?_, (looked _).trans meant, meant, ?_, ?_, ?_⟩
  · exact whole.codepoints_remove fun n => Exclusion.mem_given.not.symm
  · rintro σ κ _ grammar bindings default config g rfl standing generated
    exact Generator.offers_of_ofSet generated standing stands
  · exact whole.codepoints_remove fun n => by simp
  · rw [CharacterClass.remove_eq_remove_iff]
    constructor
    · intro same x excluded member
      exact Exclusion.mem_given.mp ((same x.toNat member).mpr (List.mem_map_of_mem excluded))
    -- a text leads to a difference only where its character is a member and is not given otherwise
    · intro covered n member
      rw [Exclusion.mem_given, List.mem_map]
      constructor
      · exact fun given => ⟨_, given, rfl⟩
      · rintro ⟨e | x, listed, same⟩
        · exact same ▸ listed
        · obtain rfl : x.toNat = n := Int.ofNat.inj same
          exact covered x listed member
  · exact fun n listed => whole.contains_remove (.codepoint n) (Exclusion.mem_given.mpr listed)
  · exact fun e listed => whole.contains_remove e (List.mem_map_of_mem listed)

/-- With the letter a excluded in both ways, looking up leaves what the engine offers. -/
theorem letter_exclusions_agree :
    let r := Generator.lettering.registry
    let exclude : List Exclusion := [.codepoint 97, .character 'a']
    r.contains "AB" = true ∧
      (Datum.list [.int 97, .str "a"]).members = .ok (exclude.map Exclusion.datum) ∧
      r.lookup "AB" [.int 97, .str "a"] = .ok ⟨"AB", [98]⟩ ∧
      ∀ (σ : Type) [DecisionSource σ],
        Generator.lettered.plan.Offers σ Generator.lastLetter ⟨"AB", [98]⟩ := by
  intro r exclude
  have known : r.contains "AB" = true := by decide
  have collected : (Datum.list [.int 97, .str "a"]).members =
      .ok (exclude.map Exclusion.datum) := rfl
  obtain ⟨whole, direct, offered, set, found, looked, _, _, made, offers, _, _, _, same, _⟩ :=
    exclusions_agree_iff known collected
  obtain rfl : (⟨"AB", [97, 98]⟩ : CharacterClass) = whole := Except.ok.inj found
  obtain rfl : (⟨"AB", [98]⟩ : CharacterClass) = direct := Except.ok.inj looked
  obtain rfl : Generator.lastLetter = set := Rule.characters.inj (Except.ok.inj made)
  obtain rfl := same.mpr (by simp [exclude])
  have standing : Generator.lettered.grammar.Standing (.characters Generator.lastLetter) :=
    ⟨"t", _, rfl, Rule.mem_walk_self _⟩
  exact ⟨known, collected, rfl, fun σ _ => offers rfl standing Generator.lettered_made⟩

/-- With the letter a excluded as a text alone, looking up leaves it in and the engine does not
offer it. -/
theorem letter_looked_up :
    let r := Generator.lettering.registry
    r.lookup "AB" [.str "a"] = .ok ⟨"AB", [97, 98]⟩ ∧
      CharacterClass.contains ⟨"AB", [97, 98]⟩ (.str "a") = .ok true ∧
      Rule.ofCharacters "AB" (.list [.str "a"]) = .ok (.characters Generator.lastLetter) ∧
      Generator.lettered.grammar.registry = r ∧
      ∀ (σ : Type) [DecisionSource σ],
        Generator.lettered.plan.Offers σ Generator.lastLetter ⟨"AB", [98]⟩ := by
  have standing : Generator.lettered.grammar.Standing (.characters Generator.lastLetter) :=
    ⟨"t", _, rfl, Rule.mem_walk_self _⟩
  exact ⟨rfl, rfl, rfl, rfl, fun σ _ =>
    Generator.offers_of_ofSet Generator.lettered_made standing rfl⟩

end Registry

end SentenceGen
