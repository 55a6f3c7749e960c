import SentenceGen.Proofs.Ceilings
import SentenceGen.Proofs.Resolution
import SentenceGen.Proofs.SharedRules

/-!
# Including a grammar

A grammar that is included keeps its meaning: from each of its productions the whole grammar derives
what the included one derives, whatever else there is in the whole.  Classes are resolved anew;
where one has another name then, a source has to go by the code points that it is given.
-/

namespace SentenceGen

/-! ### Builders that go on -/

/-- The builder goes on after it has included a grammar.  It gets rules for productions that the
grammar does not have, and includes further grammars, as far as that goes. -/
inductive Grammar.GoesOn (g : Grammar) : Builder → Builder → Prop where
  | refl (b : Builder) : g.GoesOn b b
  | production {b c d : Builder} {name : String} {rules : List Rule} : g.GoesOn b c →
    g.defines name = false → c.production name rules = .ok d → g.GoesOn b d
  | included {b c : Builder} (other : Grammar) : g.GoesOn b c →
    g.GoesOn b (c.includeGrammar other).2

namespace Builder

theorem lookup_append_of_ne {name other : String} (different : other ≠ name) (rules : List Rule)
    (pending : List (String × List Rule)) :
    (append name rules pending).lookup other = pending.lookup other := by
  have differs : (other == name) = false := beq_eq_false_iff_ne.mpr different
  induction pending with
  | nil => simp [append, List.lookup_cons, differs]
  | cons entry rest ih =>
    rw [append]
    by_cases here : name = entry.1
    · rw [if_pos (by simpa using here), List.lookup_cons, List.lookup_cons, ← here, differs]
    · rw [if_neg (by simpa using here), List.lookup_cons, List.lookup_cons, ih]

theorem production_eq_ok {b c : Builder} {name : String} {rules : List Rule}
    (given : b.production name rules = .ok c) :
    c = { b with pending := append name rules b.pending } := by
  unfold production at given
  split at given
  · cases given
  · split at given
    · cases given
    · exact (Except.ok.inj given).symm

/-- Copying takes away nothing, and leaves the registry as it is. -/
theorem copy_keeps (productions : List (String × Rule)) (b : Builder) :
    (copy productions b).2.registry = b.registry ∧ ∀ name rules, b.rulesOf? name = some rules →
      (copy productions b).2.rulesOf? name = some rules := by
  induction productions generalizing b with
  | nil => exact ⟨rfl, fun _ _ found => found⟩
  | cons entry rest ih =>
    rw [copy]
    by_cases taken : b.defines entry.1 = true
    · rw [if_pos taken]
      exact ⟨rfl, fun _ _ found => found⟩
    · rw [if_neg taken]
      obtain ⟨registry_eq, kept⟩ := ih { b with pending := b.pending ++ [(entry.1, [entry.2])] }
      refine ⟨registry_eq, fun name rules found => kept name rules ?_⟩
      have found : b.pending.lookup name = some rules := found
      simp [rulesOf?, List.lookup_append, found]

/-- A completed copy has every production with its body for the only rule. -/
theorem rulesOf?_of_copy {productions : List (String × Rule)} {b c : Builder}
    (copied : copy productions b = (.ok (), c)) {name : String} {body : Rule}
    (defined : productions.lookup name = some body) : c.rulesOf? name = some [body] := by
  induction productions generalizing b with
  | nil => cases defined
  | cons entry rest ih =>
    rw [copy] at copied
    by_cases taken : b.defines entry.1 = true
    · rw [if_pos taken] at copied
      cases copied
    · rw [if_neg taken] at copied
      rw [List.lookup_cons] at defined
      by_cases here : name = entry.1
      · subst here
        rw [beq_self_eq_true] at defined
        obtain rfl := Option.some.inj defined
        have kept := (copy_keeps rest { b with pending := b.pending ++ [(entry.1, [entry.2])] }).2
        rw [copied] at kept
        apply kept
        have free : b.pending.lookup entry.1 = none := Option.not_isSome_iff_eq_none.mp taken
        simp [rulesOf?, List.lookup_append, free]
      · rw [beq_eq_false_iff_ne.mpr here] at defined
        exact ih copied defined

/-- The grammar's productions are the builder's, each with its body for the only rule. -/
def Includes (b : Builder) (g : Grammar) : Prop :=
  ∀ name body, g.body? name = some body → b.rulesOf? name = some [body]

theorem Includes.goesOn {g : Grammar} {b c : Builder} (goesOn : g.GoesOn b c)
    (includes : b.Includes g) : c.Includes g ∧ c.registry = b.registry := by
  induction goesOn with
  | refl => exact ⟨includes, rfl⟩
  | @production c d name rules _ foreign given ih =>
    obtain ⟨kept, registry_eq⟩ := ih
    obtain rfl := production_eq_ok given
    refine ⟨fun other body defined => ?_, registry_eq⟩
    have different : other ≠ name := by
      rintro rfl
      simp [Grammar.defines, defined] at foreign
    exact (lookup_append_of_ne different rules c.pending).trans (kept other body defined)
  | @included c other _ ih =>
    obtain ⟨kept, registry_eq⟩ := ih
    obtain ⟨same, further⟩ := copy_keeps other.productions c
    exact ⟨fun name body defined => further name _ (kept name body defined), same.trans registry_eq⟩

/-- In what is built the included productions have the bodies that they had. -/
theorem Includes.body?_of_build {b : Builder} {g whole : Grammar} (includes : b.Includes g)
    (built : b.build = .ok whole) {name : String} {body : Rule}
    (defined : g.body? name = some body) : whole.body? name = some body := by
  obtain ⟨_, rfl, _⟩ := build_ok built
  have found : b.pending.lookup name = some [body] := includes name body defined
  have mapped : b.bodies.lookup name = (b.pending.lookup name).map bodyOf :=
    Replacements.lookup_map bodyOf name b.pending
  rw [Grammar.body?, mapped, found]
  rfl

theorem includes_of_includeGrammar {g : Grammar} {b c d : Builder}
    (included : b.includeGrammar g = (.ok (), c)) (goesOn : g.GoesOn c d) :
    d.Includes g ∧ d.registry = b.registry := by
  have includes : c.Includes g := fun name body => rulesOf?_of_copy included
  have registry_eq := (copy_keeps g.productions b).1
  rw [show copy g.productions b = _ from included] at registry_eq
  obtain ⟨kept, same⟩ := includes.goesOn goesOn
  exact ⟨kept, same.trans registry_eq⟩

end Builder

/-- The registry resolves the names in the grammar to the code points that they had, in the same
order. -/
def Registry.Respells (r : Registry) (g : Grammar) : Prop :=
  ∀ set, g.Standing (.characters set) → ∀ c, g.registry.resolve set.name = .ok c →
    ∃ c', r.resolve set.name = .ok c' ∧ c'.codepoints = c.codepoints

/-- The registry resolves the names in the grammar to the classes that they had. -/
def Registry.Agrees (r : Registry) (g : Grammar) : Prop :=
  ∀ set, g.Standing (.characters set) → r.resolve set.name = g.registry.resolve set.name

theorem Builder.ofSet_of_build {b : Builder} {g : Grammar} (built : b.build = .ok g)
    {set : CharacterSet} (listed : .characters set ∈ Generator.rulesOf g) :
    ∃ c, g.registry.ofSet set = .ok c := by
  obtain ⟨entry, member, visited⟩ := List.mem_flatMap.mp listed
  obtain ⟨_, same, checked⟩ := build_ok built
  have member : entry ∈ b.bodies := by
    rw [same] at member
    exact member
  obtain ⟨c, stands, _⟩ := checked_of_checkRule built rfl (checked entry member _ visited)
  exact ⟨c, stands⟩

/-! ### Sources that go by code points -/

theorem CharacterClass.hasInt_of_codepoints {c c' : CharacterClass}
    (same : c'.codepoints = c.codepoints) : c'.hasInt = c.hasInt := by
  funext n
  simp only [hasInt, mem_def, same]

theorem CharacterClass.contains_of_codepoints {c c' : CharacterClass}
    (same : c'.codepoints = c.codepoints) : c'.contains = c.contains := by
  funext value
  simp only [contains, hasInt_of_codepoints same, mem_def, same]

/-- The source goes by the code points of a class and not by its name. -/
def ReadsPoints (σ : Type) [DecisionSource σ] : Prop :=
  ∀ (c c' : CharacterClass) (source : σ), c'.codepoints = c.codepoints →
    DecisionSource.ask (.codepoint (.ofClass c')) source =
      DecisionSource.ask (.codepoint (.ofClass c)) source

/-- The question with the code points of a class listed one by one. -/
def Question.spelled : Question → Question
  | .codepoint (.ofClass c) => .codepoint (.listed (c.codepoints.map fun n => .int n))
  | q => q

/-- The questions as far as a source goes by them, with their answers. -/
def Transcript.spelled {σ : Type} (t : Transcript σ) : List (Question × Except Fault Datum) :=
  t.log.map fun entry => (entry.1.spelled, entry.2)

/-- A source that keeps what it was asked, as far as it goes by it. -/
structure Minutes (σ : Type) where
  inner : σ
  log : List (Question × Except Fault Datum) := []

namespace Minutes

variable {σ : Type} [DecisionSource σ]

instance : DecisionSource (Minutes σ) where
  name m := DecisionSource.name m.inner
  shown m := DecisionSource.shown m.inner
  ask q m :=
    let (answer, inner) := DecisionSource.ask q m.inner
    (answer, { inner, log := m.log ++ [(q.spelled, answer)] })

theorem readsPoints (reads : ReadsPoints σ) : ReadsPoints (Minutes σ) := by
  intro c c' m same
  have asked := reads c c' m.inner same
  simp only [DecisionSource.ask, Question.spelled, same] at asked ⊢
  rw [asked]

theorem companions :
    Companions (fun (t : Transcript σ) (m : Minutes σ) => m.inner = t.inner ∧ m.log = t.spelled)
      fun _ _ => False where
  asked := by
    rintro t ⟨_, _⟩ q ⟨rfl, rfl⟩
    refine .inl ⟨rfl, rfl, ?_⟩
    simp [Transcript.spelled, DecisionSource.ask]
  stays _ lost := lost
  ordinary lost := lost.elim

end Minutes

/-- What a run asks of a source that goes by code points, it asks of one that keeps just that. -/
theorem Generator.spelled_runWithin {σ κ : Type} [DecisionSource σ] (g : Generator κ)
    (call : Call) (start : Option String) (source : σ) (user : κ) :
    (g.runWithin call start ({ inner := source } : Transcript σ) user).final.source.spelled =
      (g.runWithin call start ({ inner := source } : Minutes σ) user).final.source.log := by
  have agree :
      ({ inner := source } : Minutes σ).inner = ({ inner := source } : Transcript σ).inner ∧
        ({ inner := source } : Minutes σ).log = ({ inner := source } : Transcript σ).spelled :=
    ⟨rfl, rfl⟩
  have beside := g.runWithin_beside Minutes.companions False False.elim call start agree user
  rcases beside with ⟨minutes, ⟨_, same⟩, ended⟩ | ⟨_, lost, _⟩
  · have final_eq := (Prod.mk.inj ended).2
    rw [final_eq]
    exact same.symm
  · exact lost.elim

/-! ### The two engines -/

namespace Expand

variable {σ κ : Type} [DecisionSource σ]

theorem ask_of_readsPoints (reads : ReadsPoints σ) {c c' : CharacterClass}
    (same : c'.codepoints = c.codepoints) :
    (ask (.codepoint (.ofClass c')) : Expand σ κ Datum) = ask (.codepoint (.ofClass c)) := by
  have asked : DecisionSource.ask (σ := σ) (.codepoint (.ofClass c')) =
      DecisionSource.ask (.codepoint (.ofClass c)) := by
    funext source
    exact reads c c' source same
  unfold ask
  rw [asked]

omit [DecisionSource σ] in
theorem memberOf_of_codepoints {c c' : CharacterClass} (same : c'.codepoints = c.codepoints)
    (name : String) (answer : Datum) : memberOf c' name answer = memberOf c name answer := by
  simp only [memberOf, CharacterClass.hasInt_of_codepoints same]

end Expand

open Expand

namespace Generator

variable {κ : Type} {b b₀ b₁ b₂ : Builder} {grammar whole : Grammar}
  {entries : List (Datum ⊕ Binding (Callback κ))} {default : Option (Callback κ)}
  {config : Config} {g h : Generator κ}

/-- The whole grammar has every production of the included one, so what fits the one fits the
other. -/
theorem new_of_includes (includes : b₂.Includes grammar) (built : b₂.build = .ok whole)
    (made : new grammar entries default config = .ok g) :
    ∃ h, new whole entries default config = .ok h := by
  obtain ⟨bindings, listed, bindable, _⟩ := bindings_of_new made
  apply new_of_bindable listed ?_ (fun set => Builder.ofSet_of_build built) config
  constructor
  · exact bindable.distinct
  · intro binding member name production
    obtain ⟨body, found⟩ :=
      Option.isSome_iff_exists.mp (bindable.defined binding member name production)
    exact Option.isSome_iff_exists.mpr ⟨body, includes.body?_of_build built found⟩

theorem share_of_includes {σ : Type} [DecisionSource σ] (built : b.build = .ok grammar)
    (includes : b₂.Includes grammar) (builtWhole : b₂.build = .ok whole)
    (respells : b₂.registry.Respells grammar)
    (alike : ReadsPoints σ ∨ b₂.registry.Agrees grammar)
    (made : new grammar entries default config = .ok g)
    (madeWhole : new whole entries default config = .ok h) :
    g.plan.Share σ (fun name => grammar.defines name = true) grammar.Encloses h.plan := by
  obtain ⟨bindings, listed, _, held⟩ := bindings_of_new made
  obtain ⟨bindings', listedWhole, _, heldWhole⟩ := bindings_of_new madeWhole
  obtain rfl : bindings = bindings' :=
    List.map_injective_iff.mpr (fun _ _ => Sum.inr.inj) (listed.symm.trans listedWhole)
  have bound_eq (production : Option String) :
      h.replacements.bound? production = g.replacements.bound? production := by
    apply Option.ext
    intro callback
    rw [held, heldWhole]
  have registry_eq : whole.registry = b₂.registry := by
    obtain ⟨_, rfl, _⟩ := Builder.build_ok builtWhole
    rfl
  have resolved := resolved_of_new made
  have resolvedWhole := resolved_of_new madeWhole
  obtain ⟨_, _, _, _, rfl⟩ := new_eq_ok made
  obtain ⟨_, _, _, _, rfl⟩ := new_eq_ok madeWhole
  exact {
    child := Grammar.Encloses.child
    body := fun _ found => .inr ⟨_, _, found, Rule.mem_walk_self _⟩
    body_eq := by
      intro name known
      obtain ⟨body, found⟩ := Option.isSome_iff_exists.mp known
      exact (includes.body?_of_build builtWhole found).trans found.symm
    find_eq := by
      intro name _
      simp only [plan, Replacements.find?_eq, bound_eq]
    consult_eq := by
      rintro set (⟨_, same, _⟩ | standing)
      · cases same
      obtain ⟨c, stands, _⟩ := Builder.checked_of_build built rfl standing
      obtain ⟨full, named, rfl⟩ := Registry.ofSet_eq_ok.mp stands
      obtain ⟨full', namedToo, points⟩ := respells set standing full named
      have standsToo : whole.registry.ofSet set = .ok (full'.remove set.points) := by
        rw [registry_eq]
        exact Registry.ofSet_eq_ok.mpr ⟨full', namedToo, rfl⟩
      have same : (full'.remove set.points).codepoints = (full.remove set.points).codepoints := by
        simp only [CharacterClass.remove, points]
      have asked : (ask (.codepoint (.ofClass (full'.remove set.points))) : Expand σ κ Datum) =
          ask (.codepoint (.ofClass (full.remove set.points))) := by
        rcases alike with reads | agrees
        · exact ask_of_readsPoints reads same
        · rw [agrees set standing, named] at namedToo
          rw [Except.ok.inj namedToo]
      obtain ⟨name, body, found, visited⟩ := standing
      have foundToo := includes.body?_of_build builtWhole found
      simp only [consult, resolved.classOf_eq found visited stands,
        resolvedWhole.classOf_eq foundToo visited standsToo, lift_ok_bind, asked,
        memberOf_of_codepoints same]
    maxDepth_eq := rfl
    maxSize_eq := rfl }

/-- From a production of the included grammar the engines never come to another one. -/
theorem coincide_included {σ : Type} [DecisionSource σ] (built : b.build = .ok grammar)
    (share : g.plan.Share σ (fun name => grammar.defines name = true) grammar.Encloses h.plan)
    (fuel : Nat) (rule : Rule) (parent : Option NodeId) (enclosed : grammar.Encloses rule) :
    Coincide (σ := σ) (fun name => grammar.defines name = true) (expand g.plan fuel rule parent)
      (expand h.plan fuel rule parent) := by
  apply share.coincide_expand ?_ fuel parent enclosed
  rintro name (⟨other, same, defined⟩ | standing)
  · cases same
    exact defined
  · exact Builder.checked_of_build built rfl standing

theorem ended_included {σ : Type} [DecisionSource σ] (built : b.build = .ok grammar)
    (includes : b₂.Includes grammar) (builtWhole : b₂.build = .ok whole)
    (respells : b₂.registry.Respells grammar)
    (alike : ReadsPoints σ ∨ b₂.registry.Agrees grammar)
    (made : new grammar entries default config = .ok g)
    (madeWhole : new whole entries default config = .ok h) {start start' : Option String}
    {name : String} (found : g.startOf start = .ok name) (foundWhole : h.startOf start' = .ok name)
    (call : Call) (source : σ) (user : κ) :
    (h.runWithin call start' source user).outcome =
        (g.runWithin call start source user).outcome ∧
      (h.runWithin call start' source user).final =
        (g.runWithin call start source user).final := by
  have share := share_of_includes built includes builtWhole respells alike made madeWhole
  have defined : grammar.defines name = true := by
    rw [← grammar_of_new made]
    exact defines_of_startOf found
  have amid : Amid (fun name => grammar.defines name = true)
      (call.begin source user : Expansion σ κ) :=
    { live := nofun
      innermost := nofun }
  apply ended_congr found foundWhole
  exact (coincide_included built share call.ceiling (.nonTerminal name) none
    (.inl ⟨name, rfl, defined⟩) _ amid).1

/-- Including a grammar keeps its meaning.  The whole grammar, however it goes on, makes a generator
with the same bindings; every production of the included grammar is a start of it; and from there
it does what the generator of the included grammar does, with the same outcome, tree, text and state
of the source, and puts the same questions.  The source may be any, unless a class has another name
now: then it has to go by the code points that it is given. -/
theorem runs_included (built : b.build = .ok grammar)
    (included : b₀.includeGrammar grammar = (.ok (), b₁)) (goesOn : grammar.GoesOn b₁ b₂)
    (builtWhole : b₂.build = .ok whole) (respells : b₀.registry.Respells grammar)
    (made : new grammar entries default config = .ok g) :
    ∃ h, new whole entries default config = .ok h ∧
      (∀ name, grammar.defines name = true → name ≠ "" →
        g.startOf (some name) = .ok name ∧ h.startOf (some name) = .ok name) ∧
      ∀ {σ : Type} [DecisionSource σ], ReadsPoints σ ∨ b₀.registry.Agrees grammar →
        ∀ (call : Call) (start start' : Option String) (name : String) (source : σ) (user : κ),
          g.startOf start = .ok name → h.startOf start' = .ok name →
          let asked (g : Generator κ) (start : Option String) :=
            let told := g.runWithin call start ({ inner := source } : Transcript σ) user
            told.final.source.spelled
          (h.runWithin call start' source user).outcome =
              (g.runWithin call start source user).outcome ∧
            (h.runWithin call start' source user).final =
              (g.runWithin call start source user).final ∧
            asked h start' = asked g start := by
  obtain ⟨includes, registry_eq⟩ := Builder.includes_of_includeGrammar included goesOn
  rw [← registry_eq] at respells
  obtain ⟨h, madeWhole⟩ := new_of_includes includes builtWhole made
  have same := grammar_of_new made
  have sameWhole := grammar_of_new madeWhole
  refine ⟨h, madeWhole, ?_, ?_⟩
  · intro name defined named
    obtain ⟨body, found⟩ := Option.isSome_iff_exists.mp defined
    have definedWhole : whole.defines name = true :=
      Option.isSome_iff_exists.mpr ⟨body, includes.body?_of_build builtWhole found⟩
    simp [startOf, same, sameWhole, defined, definedWhole]
  · intro σ _ alike call start start' name source user found foundWhole asked
    rw [← registry_eq] at alike
    obtain ⟨outcome, final⟩ := ended_included built includes builtWhole respells alike made
      madeWhole found foundWhole call source user
    have alikeMinutes := alike.imp_left Minutes.readsPoints
    obtain ⟨_, minutes⟩ := ended_included built includes builtWhole respells alikeMinutes made
      madeWhole found foundWhole call { inner := source } user
    refine ⟨outcome, final, ?_⟩
    simp only [asked, spelled_runWithin, minutes]

/-- A book of sentences.  Its registry has another name for the class of letters. -/
def shelf (pending : List (String × List Rule)) : Builder where
  start := "book"
  name := "book"
  registry := ⟨[("AB", ⟨"Letter", [97, 98]⟩)], false⟩
  pending

def shelving : Builder := shelf [("book", [.optional (.nonTerminal "s")])]

/-- The book with the sentences, a title and one more rule. -/
def shelved : Builder :=
  shelf (("book", [.optional (.nonTerminal "s"), .nonTerminal "title"]) ::
    lettering.pending ++ [("title", [.nonTerminal "t"])])

theorem shelving_included :
    ∃ b, shelving.includeGrammar lettered.grammar = (.ok (), b) ∧
      lettered.grammar.GoesOn b shelved := by
  have titled : (shelf (("book", [.optional (.nonTerminal "s")]) :: lettering.pending)).production
      "title" [.nonTerminal "t"] = .ok (shelf (("book", [.optional (.nonTerminal "s")]) ::
        lettering.pending ++ [("title", [.nonTerminal "t"])])) := rfl
  have extended : (shelf (("book", [.optional (.nonTerminal "s")]) ::
      lettering.pending ++ [("title", [.nonTerminal "t"])])).production
        "book" [.nonTerminal "title"] = .ok shelved := rfl
  exact ⟨_, rfl, .production (.production (.refl _) rfl titled) rfl extended⟩

theorem shelved_built : ∃ whole, shelved.build = .ok whole := by
  simp [Builder.build, shelved, shelf, lettering, Builder.bodies, Builder.bodyOf, Rule.walk,
    Rule.walkFrom, Rule.children, Builder.checkRule, Builder.defines, Builder.rulesOf?,
    List.lookup_cons]
  exact ⟨_, rfl⟩

/-- The book has the letters of a grammar that takes the last one only. -/
theorem shelf_respells {grammar : Grammar} (letters : grammar.registry = lettering.registry)
    (only : ∀ set, .characters set ∈ rulesOf grammar → set = lastLetter)
    (pending : List (String × List Rule)) : (shelf pending).registry.Respells grammar := by
  rintro set ⟨name, body, found, visited⟩ c resolved
  obtain rfl := only set (mem_rulesOf found visited)
  rw [letters] at resolved
  obtain rfl : ⟨"AB", [97, 98]⟩ = c := Except.ok.inj resolved
  exact ⟨⟨"Letter", [97, 98]⟩, rfl, rfl⟩

theorem shelving_respells : shelving.registry.Respells lettered.grammar := by
  refine shelf_respells rfl (fun set listed => ?_) _
  simpa [rulesOf, lettered, lettering, Builder.bodies, Builder.bodyOf, Rule.walk, Rule.walkFrom,
    Rule.children] using listed

/-- Scripts do not look at the name of a class. -/
theorem script_readsPoints : ReadsPoints Script := by
  intro c c' script same
  have offers : Script.offered (.ofClass c') = Script.offered (.ofClass c) := by
    funext decision
    simp only [Script.offered, Candidates.contains, Candidates.size, CharacterClass.size,
      CharacterClass.contains_of_codepoints same, same]
  simp only [DecisionSource.ask, Script.ask, offers]

theorem shelved_runs_included :
    let letter : Script := { queue := [⟨.codepoint, .int 98, none⟩] }
    let other : Script := { queue := [.skip] }
    ∃ whole h, shelved.build = .ok whole ∧ new whole [] (some forgiving) {} = .ok h ∧
      (h.runWithin (.first 20) (some "s") letter ()).text.toOption = some "b!" ∧
      (h.runWithin (.first 20) (some "s") other ()).text.toOption = some "?!" := by
  intro letter other
  obtain ⟨b, included, goesOn⟩ := shelving_included
  obtain ⟨whole, built⟩ := shelved_built
  obtain ⟨h, made, starts, runs⟩ :=
    runs_included lettering_built included goesOn built shelving_respells lettered_made
  obtain ⟨started, startedWhole⟩ := starts "s" rfl (by decide)
  have same (script : Script) : (h.runWithin (.first 20) (some "s") script ()).text =
      (lettered.runWithin (.first 20) (some "s") script ()).text := by
    obtain ⟨outcome, final, _⟩ := runs (.inl script_readsPoints) (.first 20) (some "s") (some "s")
      "s" script () started startedWhole
    rw [Run.text, Run.text, outcome, final]
  refine ⟨whole, h, built, made, ?_, ?_⟩
  · rw [same]
    decide +kernel
  · rw [same]
    decide +kernel

/-- A source that takes the first member of the class with its name and knows no other. -/
structure Namesake where
  name : String

instance : DecisionSource Namesake where
  name _ := "namesake"
  shown _ := .ok "Namesake()"
  ask q source :=
    match q with
    | .codepoint (.ofClass c) =>
      if c.name = source.name then (.ok (.int (c.codepoints.headD 0)), source)
      else (.error .emptyChoice, source)
    | _ => (.error .emptyChoice, source)

/-- A grammar whose start has an empty name. -/
def unnamed : Builder where
  start := ""
  name := ""
  registry := lettering.registry
  pending := [("", [.literal "y"]), ("t", [.characters lastLetter])]

/-- A book with the rules of that grammar. -/
def unnamedBook : Builder := shelf (("book", [.literal "x"]) :: unnamed.pending)

/-- The generator of what is built, with the letters of the class in the registry. -/
def unbound (b : Builder) (letters : String) : Generator Unit where
  grammar := { name := b.name, start := b.start, productions := b.bodies, registry := b.registry }
  replacements := {}
  config := {}
  classes := [(lastLetter, ⟨letters, [98]⟩)]

theorem unnamed_made :
    unnamed.build = .ok (unbound unnamed "AB").grammar ∧
      new (unbound unnamed "AB").grammar [] none {} = .ok (unbound unnamed "AB") := by
  constructor
  · simp [Builder.build, unbound, unnamed, lettering, Builder.bodies, Builder.bodyOf, Rule.walk,
      Rule.walkFrom, Rule.children, Builder.checkRule]
    rfl
  · simp [new, rulesOf, unbound, unnamed, lettering, Builder.bodies, Builder.bodyOf, Rule.walk,
      Rule.walkFrom, Rule.children, resolveSets]
    rfl

theorem unnamedBook_made :
    unnamedBook.build = .ok (unbound unnamedBook "Letter").grammar ∧
      new (unbound unnamedBook "Letter").grammar [] none {} =
        .ok (unbound unnamedBook "Letter") := by
  constructor
  · simp [Builder.build, unbound, unnamedBook, shelf, unnamed, Builder.bodies, Builder.bodyOf,
      Rule.walk, Rule.walkFrom, Rule.children, Builder.checkRule]
    rfl
  · simp [new, rulesOf, unbound, unnamedBook, shelf, unnamed, Builder.bodies, Builder.bodyOf,
      Rule.walk, Rule.walkFrom, Rule.children, resolveSets]
    rfl

theorem unnamed_respells : unnamedBook.registry.Respells (unbound unnamed "AB").grammar := by
  refine shelf_respells rfl (fun set listed => ?_) _
  simpa [rulesOf, unbound, unnamed, Builder.bodies, Builder.bodyOf, Rule.walk, Rule.walkFrom,
    Rule.children] using listed

/-- An empty start stands for the start of the grammar itself, and a source may go by the name that
a class has in a registry.  So runs from one production may differ. -/
theorem unnamed_runs_differ :
    let grammar := (unbound unnamed "AB").grammar
    let g := unbound unnamed "AB"
    let h := unbound unnamedBook "Letter"
    unnamed.build = .ok grammar ∧
      (shelf [("book", [.literal "x"])]).includeGrammar grammar = (.ok (), unnamedBook) ∧
      unnamedBook.build = .ok h.grammar ∧ unnamedBook.registry.Respells grammar ∧
      new grammar [] none {} = .ok g ∧ new h.grammar [] none {} = .ok h ∧
      (g.runWithin (.first 20) (some "") ({} : Script) ()).text.toOption = some "y" ∧
      (h.runWithin (.first 20) (some "") ({} : Script) ()).text.toOption = some "x" ∧
      (g.runWithin (.first 20) (some "t") (Namesake.mk "AB") ()).text.toOption = some "b" ∧
      (h.runWithin (.first 20) (some "t") (Namesake.mk "AB") ()).text.toOption = none :=
  ⟨unnamed_made.1, rfl, unnamedBook_made.1, unnamed_respells, unnamed_made.2, unnamedBook_made.2,
    by decide +kernel, by decide +kernel, by decide +kernel, by decide +kernel⟩

end Generator

end SentenceGen
