import SentenceGen.Decision.Recording
import SentenceGen.Proofs.Companions
import SentenceGen.Proofs.Resolution

/-!
# Recorded runs beside plain ones

A recording turns every answer into a decision before the engine judges the answer.  That succeeds
for answers of every type but one: a text that is no single character, given for a code point.  Up
to the first such answer the recorded run is the plain one; with it the recorded run fails, whatever
the engine would have said.
-/

namespace SentenceGen

namespace Recording

/-- The text that was given for a code point, unless it is a single character. -/
def stray? : Question × Except Fault Datum → Option String
  | (.codepoint _, .ok (.str text)) => if text.length = 1 then none else some text
  | _ => none

theorem codepoint?_str (text : String) : (Datum.str text).codepoint?.isSome ↔ text.length = 1 := by
  rw [← String.length_toList, Datum.codepoint?]
  rcases text.toList with _ | ⟨c, _ | ⟨d, rest⟩⟩ <;> simp

theorem decisionOf_eq_error {q : Question} {answer : Datum} {fault : Fault} :
    decisionOf q answer = .error fault ↔
      ∃ text ∈ stray? (q, .ok answer), fault = .codepointNotSingle text := by
  cases q with
  | alternative | repetition | optional => simp [decisionOf, stray?]
  | codepoint candidates =>
    cases answer with
    | str text =>
      have single := codepoint?_str text
      by_cases one : text.length = 1
      · obtain ⟨c, found⟩ := Option.isSome_iff_exists.mp (single.mpr one)
        simp [decisionOf, stray?, Decision.codepoint, found, one]
      · have missing : (Datum.str text).codepoint? = none := by
          simpa [Option.not_isSome_iff_eq_none] using mt single.mp one
        simp [decisionOf, stray?, Decision.codepoint, missing, one, eq_comm]
    | _ => simp [decisionOf, stray?, Decision.codepoint]

variable {σ : Type} [DecisionSource σ]

theorem ask_of_error {q : Question} {r : Recording σ} {fault : Fault} {inner : σ}
    (asked : DecisionSource.ask q r.inner = (.error fault, inner)) :
    DecisionSource.ask q r = (.error fault, { r with inner }) := by
  change ask q r = _
  rw [ask, asked]

theorem ask_of_ok {q : Question} {r : Recording σ} {answer : Datum} {inner : σ}
    (asked : DecisionSource.ask q r.inner = (.ok answer, inner)) :
    DecisionSource.ask q r =
      match decisionOf q answer with
      | .error fault => (.error fault, { r with inner })
      | .ok d => (.ok answer, { inner, decisions := r.decisions.push d }) := by
  change ask q r = _
  unfold ask
  cases decided : decisionOf q answer <;> simp only [asked, decided]

end Recording

namespace Transcript

variable {σ : Type}

/-- The answers that a recording cannot write down, in order. -/
def strays (t : Transcript σ) : List String := t.log.filterMap Recording.stray?

variable [DecisionSource σ]

theorem strays_ask (q : Question) (t : Transcript σ) :
    (DecisionSource.ask q t).2.strays =
      t.strays ++ (Recording.stray? (q, (DecisionSource.ask q t.inner).1)).toList := by
  simp only [ask_eq, strays, List.filterMap_append]
  congr 1

/-- A recording goes with the transcript of its source until an answer cannot be written down. -/
theorem companions_recording :
    Companions (fun (t : Transcript σ) (r : Recording σ) => r.inner = t.inner ∧ t.strays = [])
      fun t fault => ∃ text ∈ t.strays.head?, fault = .codepointNotSingle text where
  asked := by
    rintro t r q ⟨same, clean⟩
    have strays := strays_ask q t
    rw [clean, List.nil_append] at strays
    rcases asked : DecisionSource.ask q t.inner with ⟨fault | answer, inner⟩
    · rw [asked] at strays
      rw [← same] at asked
      rw [Recording.ask_of_error asked, ask_eq, ← same, asked]
      refine .inl ⟨rfl, rfl, ?_⟩
      rw [ask_eq, ← same, asked] at strays
      rw [strays]
      cases q <;> rfl
    · rw [asked] at strays
      rw [← same] at asked
      rw [Recording.ask_of_ok asked]
      cases recorded : Recording.decisionOf q answer with
      | error fault =>
        obtain ⟨text, stray, rfl⟩ := Recording.decisionOf_eq_error.mp recorded
        refine .inr ⟨_, rfl, text, ?_, rfl⟩
        rw [strays, Option.mem_def.mp stray]
        rfl
      | ok d =>
        have fine : Recording.stray? (q, .ok answer) = none := by
          rw [Option.eq_none_iff_forall_not_mem]
          intro text stray
          have refused := Recording.decisionOf_eq_error.mpr ⟨text, stray, rfl⟩
          rw [recorded] at refused
          cases refused
        rw [fine] at strays
        refine .inl ⟨?_, ?_, strays⟩
        · rw [ask_eq, ← same, asked]
        · rw [ask_eq, ← same, asked]
  stays := by
    rintro t _ q ⟨text, first, rfl⟩
    refine ⟨text, ?_, rfl⟩
    rw [strays_ask, List.head?_append, Option.mem_def.mp first]
    rfl
  ordinary := by
    rintro t _ ⟨text, _, rfl⟩
    exact nofun

end Transcript

namespace Generator

variable {σ κ : Type} [DecisionSource σ]

/-- A run is the same with its source recorded, what the source is left with included, unless an
answer for a code point is a text that is no single character.  If callbacks pass faults on, such
an answer makes the recorded run fail with a fault of the recording. -/
theorem runWithin_recording (g : Generator κ) (call : Call) (start : Option String) (source : σ)
    (user : κ) :
    let plain := g.runWithin call start source user
    let told := g.runWithin call start ({ inner := source } : Transcript σ) user
    let recorded := g.runWithin call start ({ inner := source } : Recording σ) user
    (told.outcome = plain.outcome ∧ told.final.source.inner = plain.final.source) ∧
      (told.final.source.strays = [] →
        recorded.outcome = plain.outcome ∧ recorded.tree = plain.tree ∧
          recorded.text = plain.text ∧ recorded.final.source.inner = plain.final.source) ∧
      (g.replacements.Propagate → ∀ text ∈ told.final.source.strays.head?,
        recorded.outcome = .error (.codepointNotSingle text)) := by
  intro plain told recorded
  have agree :
      ({ inner := source } : Recording σ).inner = ({ inner := source } : Transcript σ).inner ∧
      ({ inner := source } : Transcript σ).strays = [] := ⟨rfl, rfl⟩
  have beside := g.runWithin_beside Transcript.companions_recording g.replacements.Propagate id
    call start agree user
  obtain ⟨outcome_eq, final_eq⟩ := g.runWithin_transcript call start source user
  have source_eq : told.final.source.inner = plain.final.source := by
    rw [show plain.final = _ from final_eq]
    rfl
  refine ⟨⟨outcome_eq.symm, source_eq⟩, fun clean => ?_, fun propagate text first => ?_⟩
  · rcases beside with ⟨r, ⟨same, _⟩, alike⟩ | ⟨_, ⟨text, stray, _⟩, _⟩
    · obtain ⟨outcome, final⟩ := Prod.mk.inj alike
      have outcome : recorded.outcome = plain.outcome := outcome.trans outcome_eq.symm
      have final : recorded.final = told.final.withSource r := final
      have plain_final : plain.final = told.final.withSource _ := final_eq
      refine ⟨outcome, ?_, ?_, ?_⟩
      · rw [Run.tree, Run.tree, outcome, final, plain_final]
        rfl
      · rw [Run.text, Run.text, outcome, final, plain_final]
        rfl
      · rw [final, ← source_eq]
        exact same
    · rw [show told.final.source.strays = [] from clean] at stray
      cases stray
  · rcases beside with ⟨_, ⟨_, clean⟩, _⟩ | ⟨_, ⟨other, stray, rfl⟩, failed⟩
    · rw [show told.final.source.strays = [] from clean] at first
      cases first
    · obtain rfl : other = text := Option.some.inj (stray.symm.trans first)
      exact failed propagate

/-- One letter b, and no other. -/
def spelled : Generator Unit where
  grammar :=
    { name := "s", start := "s", registry := ⟨[("AB", ⟨"AB", [97, 98]⟩)], false⟩
      productions := [("s", .characters lastLetter)] }
  replacements := {}
  config := {}
  classes := [(lastLetter, ⟨"AB", [98]⟩)]

theorem spelled_runWithin_recording :
    let named (letter : Datum) : Recording Steady := { inner := ⟨letter⟩ }
    (spelled.runWithin (.first 20) none (named (.int 98)) ()).text =
        (spelled.runWithin (.first 20) none (⟨.int 98⟩ : Steady) ()).text ∧
      (spelled.runWithin (.first 20) none (⟨.int 98⟩ : Steady) ()).text.toOption = some "b" ∧
      (spelled.runWithin (.first 20) none (named (.str "ab")) ()).outcome =
        .error (.codepointNotSingle "ab") := by
  have propagate : spelled.replacements.Propagate := by
    intro name callback bound
    cases bound
  obtain ⟨_, same, _⟩ := spelled.runWithin_recording (.first 20) none (⟨.int 98⟩ : Steady) ()
  obtain ⟨_, _, fails⟩ := spelled.runWithin_recording (.first 20) none (⟨.str "ab"⟩ : Steady) ()
  exact ⟨(same (by decide +kernel)).2.2.1, by decide +kernel,
    fails propagate "ab" (by decide +kernel)⟩

/-- The engine's own fault is hidden by that of the recording. -/
theorem spelled_recording_masked :
    let source : Steady := ⟨.str "ab"⟩
    (faultOf (spelled.runWithin (.first 20) none source ()).outcome).map Fault.kind =
        some .invalidDecision ∧
      (faultOf (spelled.runWithin (.first 20) none
          ({ inner := source } : Recording Steady) ()).outcome).map Fault.kind = some .value := by
  decide +kernel

end Generator

end SentenceGen
