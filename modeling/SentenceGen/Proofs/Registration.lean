import Mathlib.Data.List.Induction
import SentenceGen.Proofs.Callings
import SentenceGen.Proofs.Interchange

/-!
# Bindings in any order

A generator is made of bindings exactly if a table can be made of them, and is otherwise refused for
the first binding that does not go with those before it.  Every production in a run is then handled
by what is bound to its name, so the order in which the bindings were given cannot be seen.
-/

namespace SentenceGen

/-! ### The first binding that is refused -/

/-- A binding that a table of the earlier ones refuses, and the fault. -/
inductive Binding.Offends {β : Type} (known : String → Bool) (before : List (Binding β))
    (b : Binding β) : Fault → Prop
  | repeated (again : b.production ∈ before.map (·.production)) :
      Offends known before b (.duplicateReplacement (b.production.elim .null .str))
  | unknown {name : String} (names : b.production = some name)
      (fresh : b.production ∉ before.map (·.production)) (undefined : known name = false) :
      Offends known before b (.undefinedProduction (.str name) (.str "<replacement>"))

/-- The fault of the first binding that does not go with those before it. -/
def Binding.FirstOffence {β : Type} (known : String → Bool) (bindings : List (Binding β))
    (fault : Fault) : Prop :=
  ∃ before b after, bindings = before ++ b :: after ∧ Bindable known before ∧
    b.Offends known before fault

namespace Replacements

variable {β : Type} {known : String → Bool}

theorem addAll_append (earlier later : List (Datum ⊕ Binding β)) (r : Replacements β) :
    addAll known (earlier ++ later) r = addAll known earlier r >>= addAll known later := by
  induction earlier generalizing r with
  | nil => rfl
  | cons entry rest ih =>
    cases entry with
    | inl stray => rfl
    | inr b =>
      simp only [List.cons_append, addAll, ih]
      cases r.add known b <;> rfl

variable {r : Replacements β} {before : List (Binding β)} {b : Binding β} {fault : Fault}

theorem add_of_taken (taken : (r.bound? b.production).isSome = true) :
    r.add known b = .error (.duplicateReplacement (b.production.elim .null .str)) := by
  obtain ⟨_ | name, callback⟩ := b
  · exact if_pos taken
  · exact if_pos taken

theorem add_of_unknown {name : String} (names : b.production = some name)
    (fresh : r.bound? b.production = none) (undefined : known name = false) :
    r.add known b = .error (.undefinedProduction (.str name) (.str "<replacement>")) := by
  obtain ⟨_, callback⟩ := b
  obtain rfl := names
  have unbound : r.named.lookup name = none := fresh
  simp [add, unbound, undefined]

/-- A table refuses exactly the bindings that do not go with those it holds. -/
theorem add_eq_error_iff
    (holds : ∀ production callback,
      r.bound? production = some callback ↔ ⟨production, callback⟩ ∈ before) :
    r.add known b = .error fault ↔ b.Offends known before fault := by
  have taken : (r.bound? b.production).isSome = true ↔
      b.production ∈ before.map (·.production) := by
    rw [Option.isSome_iff_exists, List.mem_map]
    constructor
    · rintro ⟨callback, bound⟩
      exact ⟨_, (holds _ _).mp bound, rfl⟩
    · rintro ⟨earlier, member, same⟩
      exact ⟨earlier.callback, (holds _ _).mpr (same ▸ member)⟩
  have unbound (fresh : b.production ∉ before.map (·.production)) :
      r.bound? b.production = none := Option.not_isSome_iff_eq_none.mp (mt taken.mp fresh)
  constructor
  · intro refused
    by_cases again : b.production ∈ before.map (·.production)
    · rw [add_of_taken (taken.mpr again)] at refused
      cases refused
      exact .repeated again
    · by_cases defined : ∀ name, b.production = some name → known name = true
      · rw [add_of_fresh (unbound again) defined] at refused
        cases refused
      · push Not at defined
        obtain ⟨name, names, undefined⟩ := defined
        have undefined := Bool.eq_false_iff.mpr undefined
        rw [add_of_unknown names (unbound again) undefined] at refused
        cases refused
        exact .unknown names again undefined
  · rintro (again | ⟨names, fresh, undefined⟩)
    · exact add_of_taken (taken.mpr again)
    · exact add_of_unknown names (unbound fresh) undefined

variable {bindings : List (Binding β)}

theorem exists_ofBindings_iff :
    (∃ r, ofBindings known (bindings.map .inr) = .ok r) ↔ Bindable known bindings := by
  constructor
  · rintro ⟨r, made⟩
    exact (ofBindings_eq_ok made).1
  · intro bindable
    obtain ⟨r, made, _⟩ := ofBindings_of_bindable bindable
    exact ⟨r, made⟩

/-- Bindings that no table can be made of are refused for the first of them that offends. -/
theorem ofBindings_eq_error_iff :
    ofBindings known (bindings.map .inr) = .error fault ↔
      Binding.FirstOffence known bindings fault := by
  have one (r : Replacements β) (b : Binding β) :
      addAll known [.inr b] r = r.add known b := by
    rw [addAll]
    cases r.add known b <;> rfl
  constructor
  · -- by induction from the end: either the fault was there before, or the last binding offends
    intro refused
    induction bindings using List.reverseRecOn with
    | nil => cases refused
    | append_singleton earlier b ih =>
      rw [ofBindings, List.map_append, addAll_append] at refused
      cases made : ofBindings known (earlier.map .inr) with
      | error found =>
        rw [show addAll known (earlier.map .inr) {} = _ from made] at refused
        obtain ⟨before, first, after, rfl, bindable, offends⟩ := ih (refused ▸ made)
        exact ⟨before, first, after ++ [b], by simp, bindable, offends⟩
      | ok r =>
        rw [show addAll known (earlier.map .inr) {} = _ from made] at refused
        obtain ⟨bindable, holds⟩ := ofBindings_eq_ok made
        exact ⟨earlier, b, [], rfl, bindable,
          (add_eq_error_iff holds).mp ((one r b).symm.trans refused)⟩
  · rintro ⟨before, b, after, rfl, bindable, offends⟩
    obtain ⟨r, made, holds⟩ := ofBindings_of_bindable bindable
    have refused : r.add known b = .error fault := (add_eq_error_iff holds).mpr offends
    rw [ofBindings, List.map_append, addAll_append,
      show addAll known (before.map .inr) {} = _ from made]
    simp only [List.map_cons, Bind.bind, Except.bind, addAll, refused]

end Replacements

/-! ### What is done for a production -/

/-- The event is what the bindings say about its production: its own binding counts, else the
default, else there is none. -/
def Event.Obeys {σ κ : Type} (bindings : List (Binding (Callback κ))) : Event σ κ → Prop
  | .kept place => ∀ b ∈ bindings, b.production ≠ none ∧ b.production ≠ some place.name
  | .called callback place => ⟨some place.name, callback⟩ ∈ bindings ∨
      ⟨none, callback⟩ ∈ bindings ∧ ∀ b ∈ bindings, b.production ≠ some place.name
  | _ => True

namespace Replacements

variable {κ : Type} {r : Replacements (Callback κ)} {bindings : List (Binding (Callback κ))}

theorem bound?_eq_none_iff (holds : ∀ production callback,
      r.bound? production = some callback ↔ ⟨production, callback⟩ ∈ bindings)
    (production : Option String) :
    r.bound? production = none ↔ ∀ b ∈ bindings, b.production ≠ production := by
  rw [Option.eq_none_iff_forall_ne_some]
  constructor
  · rintro unbound b member rfl
    exact unbound b.callback ((holds _ _).mpr member)
  · intro apart callback bound
    exact apart _ ((holds _ _).mp bound) rfl

theorem obeys_of_follows (holds : ∀ production callback,
      r.bound? production = some callback ↔ ⟨production, callback⟩ ∈ bindings)
    {σ : Type} {event : Event σ κ} (follows : event.Follows r) : event.Obeys bindings := by
  cases event with
  | kept place =>
    have unbound : (r.bound? (some place.name)).or (r.bound? none) = none := follows
    obtain ⟨own, other⟩ := Option.or_eq_none_iff.mp unbound
    intro b member
    exact ⟨(bound?_eq_none_iff holds none).mp other b member,
      (bound?_eq_none_iff holds _).mp own b member⟩
  | called callback place =>
    have bound : (r.bound? (some place.name)).or (r.bound? none) = some callback := follows
    rcases Option.or_eq_some_iff.mp bound with own | ⟨unbound, other⟩
    · exact .inl ((holds _ _).mp own)
    · exact .inr ⟨(holds _ _).mp other, (bound?_eq_none_iff holds _).mp unbound⟩
  | _ => trivial

end Replacements

/-! ### Generators of the same bindings -/

namespace Grammar

/-- A grammar says what it says itself. -/
theorem Matches.refl (g : Grammar) : g.Matches g := ⟨rfl, rfl, fun _ => rfl, fun _ => rfl⟩

end Grammar

namespace Generator

variable {κ : Type} {b : Builder} {grammar : Grammar} {bindings : List (Binding (Callback κ))}
  {default : Option (Callback κ)} {config : Config} {g : Generator κ}

/-- The bindings that a generator is made of; the default callback counts as the last of them. -/
def boundBy (bindings : List (Binding (Callback κ))) (default : Option (Callback κ)) :
    List (Binding (Callback κ)) :=
  bindings ++ default.toList.map .default

theorem map_boundBy (bindings : List (Binding (Callback κ))) (default : Option (Callback κ)) :
    (boundBy bindings default).map (Sum.inr (α := Datum)) =
      bindings.map .inr ++ default.toList.map fun callback => .inr (.default callback) := by
  rw [boundBy, List.map_append, List.map_map]
  rfl

theorem bound?_of_new (made : new grammar (bindings.map .inr) default config = .ok g)
    (production : Option String) (callback : Callback κ) :
    g.replacements.bound? production = some callback ↔
      ⟨production, callback⟩ ∈ boundBy bindings default := by
  obtain ⟨listed, same, _, holds⟩ := bindings_of_new made
  rw [← map_boundBy] at same
  obtain rfl := List.map_injective_iff.mpr (fun _ _ => Sum.inr.inj) same
  exact holds production callback

/-- The character sets of a built grammar stand for classes, so it is all up to the bindings. -/
theorem new_of_build (built : b.build = .ok grammar) (bindings : List (Binding (Callback κ)))
    (default : Option (Callback κ)) (config : Config) : ∃ classes,
    new grammar (bindings.map .inr) default config =
      (Replacements.ofBindings grammar.defines ((boundBy bindings default).map .inr)).map
        fun replacements => { grammar, replacements, config, classes } := by
  obtain ⟨classes, resolved⟩ := resolveSets_of_ofSet (fun _ => Builder.ofSet_of_build built) []
  refine ⟨classes, ?_⟩
  rw [new, ← map_boundBy, resolved]
  cases Replacements.ofBindings grammar.defines ((boundBy bindings default).map .inr) <;> rfl

/-- Of the same bindings in another order a generator is made that does the same. -/
theorem new_of_perm (built : b.build = .ok grammar)
    (made : new grammar (bindings.map .inr) default config = .ok g)
    {bindings' : List (Binding (Callback κ))} {default' : Option (Callback κ)}
    (perm : (boundBy bindings' default').Perm (boundBy bindings default)) :
    ∃ g', new grammar (bindings'.map .inr) default' config = .ok g' ∧
      ∀ name, g'.replacements.find? name = g.replacements.find? name := by
  obtain ⟨listed, same, bindable, _⟩ := bindings_of_new made
  rw [← map_boundBy] at same
  obtain rfl := List.map_injective_iff.mpr (fun _ _ => Sum.inr.inj) same
  obtain ⟨g', made'⟩ := new_of_bindable (map_boundBy bindings' default').symm
    (bindable.perm perm.symm) (fun _ => Builder.ofSet_of_build built) config
  refine ⟨g', made', fun name => ?_⟩
  have same (production : Option String) :
      g'.replacements.bound? production = g.replacements.bound? production := by
    apply Option.ext
    intro callback
    rw [bound?_of_new made', bound?_of_new made, perm.mem_iff]
  rw [Replacements.find?_eq, Replacements.find?_eq, same, same]

/-- A generator is made of bindings to known names without repeats, and otherwise refused for the
first binding that offends.  In each of its runs there is one event for every production, in the
order of the tree, and it is what the bindings say; the same bindings in another order make a
generator whose runs are the same. -/
theorem registration_exact (built : b.build = .ok grammar) (bindings : List (Binding (Callback κ)))
    (default : Option (Callback κ)) (config : Config) :
    let all := boundBy bindings default
    ((∃ g, new grammar (bindings.map .inr) default config = .ok g) ↔
        Bindable grammar.defines all) ∧
      (∀ fault, new grammar (bindings.map .inr) default config = .error fault ↔
        Binding.FirstOffence grammar.defines all fault) ∧
      ∀ g, new grammar (bindings.map .inr) default config = .ok g →
        (∀ {σ : Type} [DecisionSource σ] (call : Call) (start : Option String) (source : σ)
          (user : κ),
          let r := g.runWithin call start source user
          let chronicle := g.chronicle call start source user
          (r.outcome = chronicle.1 ∧ r.final = chronicle.2.bare) ∧
            chronicle.2.events.filterMap Event.place? = r.final.tree.occurrences call.serial ∧
            ∀ event ∈ chronicle.2.events, event.Obeys all) ∧
        ∀ bindings' default', (boundBy bindings' default').Perm all →
          ∃ g', new grammar (bindings'.map .inr) default' config = .ok g' ∧
            (∀ {σ : Type} [DecisionSource σ] (call : Call) (start : Option String) (source : σ)
              (user : κ),
              g'.runWithin call start source user = g.runWithin call start source user) ∧
            ∀ (sowing : Datum → Nat) (call : Call) (start : Option String) (user : κ),
              g'.runFresh sowing call start user = g.runFresh sowing call start user := by
  intro all
  obtain ⟨classes, decided⟩ := new_of_build built bindings default config
  refine ⟨?_, fun fault => ?_, fun g made => ⟨?_, fun bindings' default' perm => ?_⟩⟩
  · rw [← Replacements.exists_ofBindings_iff, decided]
    cases Replacements.ofBindings grammar.defines (all.map .inr) <;> simp [Except.map]
  · rw [← Replacements.ofBindings_eq_error_iff, decided]
    cases Replacements.ofBindings grammar.defines (all.map .inr) <;> simp [Except.map]
  · intro σ _ call start source user r chronicle
    have told := g.told_chronicle call start source user
    have same := g.runWithin_chronicle call start source user
    refine ⟨same, ?_, fun event member => ?_⟩
    · have tree_eq : r.final.tree = chronicle.2.tree := congrArg Expansion.tree same.2
      rw [tree_eq]
      exact told.places
    · exact Replacements.obeys_of_follows (bound?_of_new made) (told.follows event member)
  · obtain ⟨g', made', bound⟩ := new_of_perm built made perm
    have itself := Grammar.Matches.refl grammar
    exact ⟨g', made', itself.runWithin_eq made made' bound, itself.runFresh_eq made made' bound⟩

/-- A pair of letters. -/
def pairing : Builder where
  start := "s"
  name := "s"
  registry := ⟨[], false⟩
  pending :=
    [("s", [.sequence [.nonTerminal "a", .nonTerminal "b"]]), ("a", [.literal "x"]),
      ("b", [.literal "y"])]

def crossing : Binding (Callback Unit) := ⟨some "a", fun own => Action.write own (.str "+")⟩

/-- Puts what a production expands to between bars. -/
def barring : Callback Unit := fun own => do
  Action.write own (.str "|")
  Action.expandDefault own
  Action.write own (.str "|")

def barred : Generator Unit where
  grammar :=
    { name := "s", start := "s", productions := pairing.bodies, registry := pairing.registry }
  replacements :=
    { named := [("a", crossing.callback)]
      default := some barring }
  config := {}
  classes := []

theorem pairing_built : pairing.build = .ok barred.grammar := by
  simp [Builder.build, pairing, Builder.bodies, Builder.bodyOf, Rule.walk, Rule.walkFrom,
    Rule.children, Builder.checkRule, Builder.defines, Builder.rulesOf?, List.lookup_cons]
  rfl

theorem barred_made : new barred.grammar [.inr crossing] (some barring) {} = .ok barred := by
  simp [new, rulesOf, barred, pairing, Builder.bodies, Builder.bodyOf, Rule.walk, Rule.walkFrom,
    Rule.children, resolveSets]
  rfl

/-- The default may be bound first.  A repeated binding that comes after one to an unknown name is
not looked at. -/
theorem barred_registration_exact :
    let script : Script := {}
    let call : Call := .first 20
    let events := (barred.chronicle call none script ()).2.events
    (events.filterMap Event.place? =
        (barred.runWithin call none script ()).final.tree.occurrences call.serial ∧
      ∀ event ∈ events, event.Obeys [crossing, .default barring]) ∧
      (∃ g, new barred.grammar [.inr (.default barring), .inr crossing] none {} = .ok g ∧
        (g.runWithin call none script ()).text.toOption = some "|+|y||") ∧
      new barred.grammar [.inr crossing, .inr ⟨some "c", barring⟩, .inr crossing] none {} =
        .error (.undefinedProduction (.str "c") (.str "<replacement>")) := by
  intro script call events
  obtain ⟨-, -, kept⟩ := registration_exact pairing_built [crossing] (some barring) {}
  obtain ⟨told, reordered⟩ := kept barred barred_made
  refine ⟨(told call none script ()).2, ?_, ?_⟩
  · obtain ⟨g, made, same, _⟩ :=
      reordered [.default barring, crossing] none (List.Perm.swap _ _ _)
    refine ⟨g, made, ?_⟩
    rw [same]
    decide +kernel
  · have refused := (registration_exact pairing_built
      [crossing, ⟨some "c", barring⟩, crossing] none {}).2.1
    refine (refused _).mpr ⟨[crossing], ⟨some "c", barring⟩, [crossing], rfl, ⟨?_, ?_⟩, ?_⟩
    · exact List.nodup_singleton _
    · intro b member name names
      obtain rfl := List.mem_singleton.mp member
      cases names
      rfl
    · exact .unknown rfl (by decide) rfl

end Generator

end SentenceGen
