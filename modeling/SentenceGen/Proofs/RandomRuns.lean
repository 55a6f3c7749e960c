import Mathlib.Algebra.Group.Nat.Defs
import SentenceGen.Proofs.Companions
import SentenceGen.Proofs.RandomDraws

/-!
# Random runs

Whatever is drawn, the random source answers within bounds, unless the draws for a question never
come to an end.  The audit of a run keeps every question with its answer and the source before and
after it.
-/

namespace SentenceGen

/-! ### Audits -/

/-- A question with its answer. -/
structure Inquiry (ρ : Type) where
  question : Question
  /-- The source as it was asked. -/
  source : RandomSource ρ
  result : Except Fault Datum
  /-- What there is left to draw from. -/
  left : ρ

namespace Inquiry

variable {ρ : Type} [Random.BitSource ρ]

def Endless (i : Inquiry ρ) : Prop := RandomSource.Endless i.question i.source

/-- The question makes sense, and unless the draws for it never end it is answered within its bounds
with no more draws than it may take. -/
structure Sound (i : Inquiry ρ) : Prop where
  sensible : i.question.Sensible
  answered : ¬i.Endless → ∃ answer, i.result = .ok answer ∧ i.question.Admits answer
  spent : ¬i.Endless → i.question.Spends i.source.state i.left

end Inquiry

/-- A random source that keeps what it was asked. -/
structure Audit (ρ : Type) where
  inner : RandomSource ρ
  log : List (Inquiry ρ) := []

namespace Audit

variable {ρ : Type} [Random.BitSource ρ]

/-- The inquiry that a question makes. -/
def inquiry (q : Question) (a : Audit ρ) : Inquiry ρ where
  question := q
  source := a.inner
  result := (DecisionSource.ask q a.inner).1
  left := (DecisionSource.ask q a.inner).2.state

instance : DecisionSource (Audit ρ) where
  name a := DecisionSource.name a.inner
  shown a := DecisionSource.shown a.inner
  ask q a :=
    let (result, inner) := DecisionSource.ask q a.inner
    (result, { inner, log := a.log ++ [a.inquiry q] })

theorem companions :
    Companions (fun (a : Audit ρ) (s : RandomSource ρ) => s = a.inner) fun _ _ => False :=
  .of_inner fun _ _ => rfl

/-- The draws for the last question never end. -/
def Lost (a : Audit ρ) : Prop := ∃ i ∈ a.log.getLast?, i.Endless

theorem sound_inquiry {q : Question} (sensible : q.Sensible) (a : Audit ρ) :
    (a.inquiry q).Sound where
  sensible := sensible
  answered ends := (RandomSource.ask_ok sensible ends).1
  spent ends := (RandomSource.ask_ok sensible ends).2

theorem reliable : Reliable (fun a : Audit ρ => ∀ i ∈ a.log, i.Sound) Lost := by
  intro q a sensible fine
  have sound := a.sound_inquiry sensible
  constructor
  · intro i logged
    rcases List.mem_append.mp logged with before | last
    · exact fine i before
    · obtain rfl := List.mem_singleton.mp last
      exact sound
  · by_cases endless : (a.inquiry q).Endless
    · exact .inr ⟨a.inquiry q, List.getLast?_concat, endless⟩
    · exact .inl (sound.answered endless)

end Audit

namespace Generator

variable {κ : Type} {b : Builder} {grammar : Grammar} {config : Config} {g : Generator κ}

/-- An audit changes nothing else about a run. -/
theorem runWithin_audit {ρ : Type} [Random.BitSource ρ] (g : Generator κ) (call : Call)
    (start : Option String) (source : RandomSource ρ) (user : κ) :
    let audited := g.runWithin call start ({ inner := source } : Audit ρ) user
    (g.runWithin call start source user).outcome = audited.outcome ∧
      (g.runWithin call start source user).final =
        audited.final.withSource audited.final.source.inner := by
  intro audited
  have agree : source = ({ inner := source } : Audit ρ).inner := rfl
  have beside := g.runWithin_beside Audit.companions False False.elim call start agree user
  rcases beside with ⟨_, rfl, same⟩ | ⟨_, lost, _⟩
  · exact Prod.mk.inj same
  · exact lost.elim

/-- Random decisions are always valid.  In a run of a checked grammar without replacements every
question makes sense, and unless the draws for it never end the random source answers it within its
bounds and draws no more fractions for a repetition than there is room between the bounds.  So a run
completes, or a cutoff ends it, or the draws for its last question never end.  Settings that pass
their check make a source for such a run, if their seed is one. -/
theorem random_run_valid (built : b.build = .ok grammar)
    (proper : ∀ rule ∈ rulesOf grammar, rule.Proper) (made : new grammar [] none config = .ok g)
    {start : Option String}
    (defined : ∀ name, start = some name → name = "" ∨ grammar.defines name = true) :
    (∀ {ρ : Type} [Random.BitSource ρ] (call : Call) (source : RandomSource ρ) (user : κ),
      let audited := g.runWithin call start ({ inner := source } : Audit ρ) user
      (g.runWithin call start source user).outcome = audited.outcome ∧
        (g.runWithin call start source user).final =
          audited.final.withSource audited.final.source.inner ∧
        (∀ i ∈ audited.final.source.log, i.Sound) ∧
        ∀ fault, (g.runWithin call start source user).outcome = .error fault →
          fault.OfCutoff ∨ ∃ i ∈ audited.final.source.log.getLast?, i.Endless) ∧
    (config.decisions.check = .ok () → ∀ sowing call user,
      (config.decisions.seed.hashable = true →
        ∃ source, RandomSource.ofSettings sowing config.decisions = .ok source ∧
          g.runFresh sowing call start user = .ok (g.runWithin call start source user)) ∧
      (config.decisions.seed.hashable = false →
        g.runFresh sowing call start user = .error .unsupportedSeed)) := by
  obtain ⟨name, found, _⟩ := startOf_of_build built made defined
  constructor
  · intro ρ _ call source user audited
    obtain ⟨outcome_eq, final_eq⟩ := g.runWithin_audit call start source user
    have fresh : ∀ i ∈ ({ inner := source } : Audit ρ).log, i.Sound :=
      fun _ logged => (List.not_mem_nil logged).elim
    have regular := regular_of_build built proper made
    obtain ⟨sound, ends⟩ := run_of_reliable Audit.reliable regular found call fresh user
    rw [outcome_eq]
    exact ⟨rfl, final_eq, sound, ends⟩
  · intro accepted sowing call user
    have same : g.config = config := by
      obtain ⟨_, _, _, _, rfl⟩ := new_eq_ok made
      rfl
    constructor
    · intro hashable
      have seeded : ∃ source, RandomSource.ofSettings sowing config.decisions = .ok source := by
        rw [RandomSource.ofSettings, accepted, hashable]
        exact ⟨_, rfl⟩
      obtain ⟨source, seeded⟩ := seeded
      refine ⟨source, seeded, ?_⟩
      rw [runFresh, found, freshSource, same, seeded]
      rfl
    · intro refused
      rw [runFresh, found, freshSource, same, RandomSource.ofSettings, accepted, refused]
      rfl

end Generator

/-! ### Runs on a tape -/

/-- A random source that tries so many times and then gives up. -/
structure Hasty (ρ : Type) where
  source : RandomSource ρ
  tries : Nat

namespace Hasty

variable {ρ : Type} [Random.BitSource ρ]

instance : DecisionSource (Hasty ρ) where
  name h := DecisionSource.name h.source
  shown h := DecisionSource.shown h.source
  ask q h :=
    match h.source.drawWithin h.tries q with
    | some (answer, state) => (answer, { h with source := { h.source with state } })
    | none => (.error (.raised .runtime []), h)

theorem companions :
    Companions (fun (s : RandomSource ρ) (h : Hasty ρ) => s = h.source)
      fun _ fault => fault = .raised .runtime [] where
  asked := by
    rintro _ h q rfl
    simp only [DecisionSource.ask]
    rcases drawn : h.source.drawWithin h.tries q with _ | ⟨answer, state⟩
    · exact .inr ⟨_, rfl, rfl⟩
    · rw [RandomSource.draw_of_within drawn]
      exact .inl ⟨rfl, rfl⟩
  stays _ lost := lost
  ordinary := by
    rintro _ _ rfl
    decide

end Hasty

namespace Generator

/-- Where a hasty source does not give up, the run from the source itself is the same. -/
theorem text_of_hasty {κ ρ : Type} [Random.BitSource ρ] (g : Generator κ)
    (propagate : g.replacements.Propagate) (call : Call) (start : Option String) (h : Hasty ρ)
    (user : κ) {text : String}
    (done : (g.runWithin call start h user).text.toOption = some text) :
    (g.runWithin call start h.source user).text = .ok text := by
  have agree : h.source = h.source := rfl
  rcases g.runWithin_beside Hasty.companions True (fun _ => propagate) call start agree user with
    ⟨_, _, same⟩ | ⟨fault, _, failed⟩
  · obtain ⟨outcome_eq, final_eq⟩ := Prod.mk.inj same
    rw [Run.text, outcome_eq, final_eq] at done
    rw [Run.text]
    cases ended : (g.runWithin call start h.source user).outcome with
    | error fault =>
      rw [ended] at done
      cases done
    | ok _ =>
      rw [ended] at done
      exact congrArg Except.ok (Option.some.inj done)
  · have failed : (g.runWithin call start h user).outcome = .error fault := failed trivial
    rw [Run.text, failed] at done
    cases done

/-- What is on a tape is drawn number by number and fraction by fraction. -/
structure Tape where
  numbers : List Nat
  fractions : List Float

instance : Random.BitSource Tape where
  bits k tape := (tape.numbers.headD 0 % 2 ^ k, { tape with numbers := tape.numbers.tail })
  fraction tape := (tape.fractions.headD 1, { tape with fractions := tape.fractions.tail })

/-- Up to three letters and a mark. -/
def rolling : Builder where
  start := "s"
  name := "s"
  registry := lettering.registry
  pending :=
    [("s", [.sequence [.repetition (.nonTerminal "t") (.between 1 3),
      .alternative [.literal ".", .literal "!", .literal "?"]]]),
      ("t", [.characters ⟨"AB", [], ⟨by simp, by simp⟩⟩])]

def rolled : Generator Unit where
  grammar :=
    { name := "s", start := "s", productions := rolling.bodies, registry := rolling.registry }
  replacements := {}
  config := {}
  classes := [(⟨"AB", [], ⟨by simp, by simp⟩⟩, ⟨"AB", [97, 98]⟩)]

theorem rolling_built : rolling.build = .ok rolled.grammar := by
  simp [Builder.build, rolling, Builder.bodies, Builder.bodyOf, Rule.walk, Rule.walkFrom,
    Rule.children, Builder.checkRule, Builder.defines, Builder.rulesOf?, List.lookup_cons]
  rfl

theorem rolled_made (config : Config) :
    new rolled.grammar [] none config = .ok { rolled with config } := by
  simp [new, rulesOf, rolled, rolling, Builder.bodies, Builder.bodyOf, Rule.walk, Rule.walkFrom,
    Rule.children, resolveSets]
  rfl

theorem rolled_proper : ∀ rule ∈ rulesOf rolled.grammar, rule.Proper := by
  simp [rulesOf, rolled, rolling, Builder.bodies, Builder.bodyOf, Rule.walk, Rule.walkFrom,
    Rule.children, Rule.Proper, Rule.branches]
  exact ⟨rfl, ⟨1, rfl⟩, .inr ⟨3, rfl⟩⟩

/-- The default settings pass their check with any seed. -/
theorem check_seeded (seed : Datum) : ({ seed } : DecisionSettings).check = .ok () := by
  have unseeded : ({} : DecisionSettings).check.isOk = true := by decide +kernel
  have same : ({ seed } : DecisionSettings).check = ({} : DecisionSettings).check := rfl
  rw [same]
  cases checked : ({} : DecisionSettings).check with
  | error fault =>
    rw [checked] at unseeded
    cases unseeded
  | ok _ => rfl

/-- The first fraction is below the chance, the second one is not.  The first and the third number
are too large, and so are drawn in vain. -/
def taped : RandomSource Tape where
  state := ⟨[3, 1, 3, 0, 2], [0.25, 0.75]⟩

theorem rolled_run_valid :
    let audited := rolled.runWithin (.first 20) none ({ inner := taped } : Audit Tape) ()
    (rolled.runWithin (.first 20) none taped ()).text = .ok "ba?" ∧
      (∀ i ∈ audited.final.source.log, i.Sound) ∧
      ∃ source, RandomSource.ofSettings (fun _ => 7) {} = .ok source ∧
        rolled.runFresh (fun _ => 7) (.first 20) none () =
          .ok (rolled.runWithin (.first 20) none source ()) := by
  intro audited
  have defined (name : String) (given : (none : Option String) = some name) :
      name = "" ∨ rolled.grammar.defines name = true := by
    cases given
  have admitted : new rolled.grammar [] none {} = .ok rolled := rolled_made {}
  obtain ⟨valid, made⟩ := random_run_valid rolling_built rolled_proper admitted defined
  have done : (rolled.runWithin (.first 20) none (Hasty.mk taped 3) ()).text.toOption =
      some "ba?" := by
    decide +kernel
  obtain ⟨_, _, sound, _⟩ := valid (.first 20) taped ()
  have same := rolled.text_of_hasty nofun (.first 20) none ⟨taped, 3⟩ () done
  refine ⟨same, sound, ?_⟩
  exact (made (check_seeded .null) (fun _ => 7) (.first 20) ()).1 rfl

/-- Settings may have a list as a seed, which is refused only when a source is made of it. -/
theorem unsown_run_refused :
    let settings : DecisionSettings := { seed := .list [] }
    let unsown : Generator Unit := { rolled with config := { decisions := settings } }
    settings.check = .ok () ∧ new rolled.grammar [] none { decisions := settings } = .ok unsown ∧
      ∀ sowing, unsown.runFresh sowing (.first 20) none () = .error .unsupportedSeed := by
  intro settings unsown
  have checked : settings.check = .ok () := check_seeded (.list [])
  refine ⟨checked, rolled_made _, fun sowing => ?_⟩
  have found : unsown.startOf none = .ok "s" := rfl
  have refused : unsown.freshSource sowing = .error .unsupportedSeed := by
    rw [freshSource, RandomSource.ofSettings, checked]
    rfl
  rw [runFresh, found, refused]
  rfl

end Generator

end SentenceGen
