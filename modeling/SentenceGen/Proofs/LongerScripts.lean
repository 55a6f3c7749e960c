import SentenceGen.Proofs.Dialogues
import SentenceGen.Proofs.Projections
import SentenceGen.Proofs.Replay
import SentenceGen.Proofs.Turns

/-!
# Longer scripts

Entries that are added at the end of a script are not seen before the others are used up.  So a run
that completes does the same with a longer script, and a run that exhausts its script does the same
up to the question for which there was no entry.
-/

namespace SentenceGen

namespace Script

/-- The script with more entries at the end of its queue. -/
def extend (s : Script) (more : List Decision) : Script := { s with queue := s.queue ++ more }

theorem remaining_extend (s : Script) (more : List Decision) :
    (s.extend more).remaining = s.remaining + more.length := by
  simp only [remaining, extend, List.length_append]
  omega

/-! ### Making a longer script -/

theorem addAll_append (first second : List (Datum ⊕ Decision)) (s : Script) :
    addAll (first ++ second) s = (addAll first s).bind (addAll second) := by
  induction first generalizing s with
  | nil => rfl
  | cons entry rest ih =>
    cases entry with
    | inl stray => rfl
    | inr d =>
      rw [List.cons_append, addAll, addAll]
      cases s.add d with
      | error fault => rfl
      | ok added => exact ih added

/-- Entries that are kept for no site may be added to every script. -/
theorem ofDecisions_append {entries more : List Decision} {script : Script}
    (accepted : ofDecisions entries = .ok script) (unkeyed : ∀ d ∈ more, d.site = none) :
    ofDecisions (entries ++ more) = .ok (script.extend more) := by
  rw [ofDecisions, ofEntries] at accepted ⊢
  rw [List.map_append, addAll_append, accepted, Except.bind, addAll_of_unkeyed unkeyed]
  rfl

/-! ### One question -/

/-- The first entry is the same in a longer script, unless there is none. -/
theorem next_extend (s : Script) (kind : DecisionKind) (more : List Decision) :
    (s.extend more).next kind = ((s.next kind).1, (s.next kind).2.extend more) ∨
      ∃ fault, (s.next kind).1 = .error fault ∧ fault.kind = .scriptExhausted := by
  cases queue : s.queue with
  | nil => exact .inr ⟨_, by rw [next_of_nil queue], rfl⟩
  | cons d rest =>
    have longer : (s.extend more).queue = d :: (rest ++ more) := by rw [extend, queue]; rfl
    left
    by_cases same : d.kind = kind
    · rw [next_of_kind longer same, next_of_kind queue same]
      rfl
    · rw [next_of_other longer same, next_of_other queue same]
      rfl

theorem takeReserved_extend (s : Script) (site : Datum) (more : List Decision) :
    (s.extend more).takeReserved site =
      (s.takeReserved site).map (·.map fun taken => (taken.1, taken.2.extend more)) := by
  have reserved : (s.extend more).reserved = s.reserved := rfl
  by_cases hashable : site.hashable = true
  · rw [takeReserved_of_hashable hashable, takeReserved_of_hashable hashable, reserved]
    cases s.reserved.find? (·.1.same site) <;> rfl
  · have unhashable : site.hashable = false := Bool.eq_false_iff.mpr hashable
    by_cases none_kept : s.reserved = []
    · rw [takeReserved_of_nil none_kept, takeReserved_of_nil (reserved.trans none_kept)]
      rfl
    · rw [takeReserved_of_unhashable unhashable none_kept,
        takeReserved_of_unhashable unhashable (reserved ▸ none_kept)]
      rfl

/-- A question does the same to a longer script, unless there is no entry left for it. -/
theorem ask_extend (s : Script) (q : Question) (more : List Decision) :
    (s.extend more).ask q = ((s.ask q).1, (s.ask q).2.extend more) ∨
      ∃ fault, (s.ask q).1 = .error fault ∧ fault.kind = .scriptExhausted := by
  have next := next_extend s q.kind more
  cases q with
  | alternative | optional | codepoint =>
    rw [ask_of_free (.of_site? rfl), ask_of_free (.of_site? rfl)]
    rcases next with same | ⟨fault, failed, kind⟩
    · rw [same]
      exact .inl rfl
    · rw [failed]
      exact .inr ⟨fault, rfl, kind⟩
  | repetition bounds site =>
    rw [ask, ask, takeReserved_extend]
    rcases s.takeReserved site.index with fault | _ | ⟨d, taken⟩
    · exact .inl rfl
    · rcases next with same | ⟨fault, failed, kind⟩
      · change (s.extend more).next .repetition = _ at same
        simp only [Except.map, Option.map_none, same]
        exact .inl rfl
      · change (s.next .repetition).1 = _ at failed
        simp only [failed]
        exact .inr ⟨fault, rfl, kind⟩
    · exact .inl rfl

end Script

/-- The same transcript of a longer script. -/
def Transcript.extend (told : Transcript Script) (more : List Decision) : Transcript Script :=
  { told with inner := told.inner.extend more }

theorem Transcript.ask_extend (told : Transcript Script) (q : Question) (more : List Decision) :
    DecisionSource.ask q (told.extend more) =
        ((DecisionSource.ask q told).1, (DecisionSource.ask q told).2.extend more) ∨
      ∃ fault, (DecisionSource.ask q told).1 = .error fault ∧ fault.kind = .scriptExhausted := by
  rcases told.inner.ask_extend q more with same | exhausted
  · have same : DecisionSource.ask q (told.extend more).inner = _ := same
    rw [Transcript.ask_eq, Transcript.ask_eq, same]
    exact .inl rfl
  · exact .inr exhausted

/-! ### Dialogues -/

namespace Dialogue

variable {σ κ ρ α S : Type}

/-- Every answer is written down, and stays. -/
theorem log_run [DecisionSource σ] (d : Dialogue ρ) (told : Transcript σ) :
    told.log <+: (d.run told).2.log := by
  induction d generalizing told with
  | ends result => exact List.prefix_rfl
  | asks q next ih =>
    exact (List.prefix_append told.log [(q, _)]).trans (ih _ (DecisionSource.ask q told).2)

/-- The first log ends with a question that failed, and the second one is the same as far as that
question. -/
def GoesOn (fault : Fault) (log log' : List (Question × Except Fault Datum)) : Prop :=
  ∃ before q answer, log = before ++ [(q, .error fault)] ∧ before ++ [(q, answer)] <+: log'

/-- A dialogue with a longer script is the same, or goes on where the script had no entry left. -/
theorem run_extend {d : Dialogue (Except Fault α × S)} (propagates : d.Propagates)
    (told : Transcript Script) (more : List Decision) :
    d.run (told.extend more) = ((d.run told).1, (d.run told).2.extend more) ∨
      ∃ fault, fault.kind = .scriptExhausted ∧ (d.run told).1.1 = .error fault ∧
        GoesOn fault (d.run told).2.log (d.run (told.extend more)).2.log := by
  induction d generalizing told with
  | ends result => exact .inl rfl
  | asks q next ih =>
    rcases told.ask_extend q more with same | ⟨fault, failed, kind⟩
    · rw [run_asks, run_asks, same]
      exact ih _ (propagates.2 _) _
    · obtain ⟨left, last⟩ := propagates.1 fault
      have ran : (asks q next).run told =
          ((.error fault, left), (DecisionSource.ask q told).2) := by
        rw [run_asks, failed, last]
        rfl
      have logged : (DecisionSource.ask q told).2.log = told.log ++ [(q, .error fault)] := by
        rw [← failed]
        rfl
      refine .inr ⟨fault, kind, by rw [ran], told.log, q,
        (DecisionSource.ask q (told.extend more)).1, ?_, ?_⟩
      · rw [ran]
        exact logged
      · rw [run_asks]
        exact log_run _ (DecisionSource.ask q (told.extend more)).2

end Dialogue

namespace Generator

variable {σ τ κ : Type}

/-- The questions of a run and their answers. -/
def exchanges [DecisionSource σ] (g : Generator κ) (call : Call) (start : Option String)
    (source : σ) (user : κ) : List (Question × Except Fault Datum) :=
  (g.runWithin call start ({ inner := source } : Transcript σ) user).final.source.log

theorem told_extend (g : Generator κ) (propagate : g.replacements.Propagate) (call : Call)
    (start : Option String) (user : κ) (told : Transcript Script) (more : List Decision) :
    let r := g.runWithin call start told user
    let longer := g.runWithin call start (told.extend more) user
    (longer.outcome = r.outcome ∧
        longer.final = r.final.withSource (r.final.source.extend more)) ∨
      ∃ fault, fault.kind = .scriptExhausted ∧ r.outcome = .error fault ∧
        Dialogue.GoesOn fault r.final.source.log longer.final.source.log := by
  intro r longer
  obtain ⟨name, d, propagates, ran⟩ := g.runWithin_dialogue (σ := Transcript Script) call start
    user
  have outcome_eq : r.outcome = (settle name (d.ended told)).1 := congrArg Prod.fst (ran told)
  have final_eq : r.final = (settle name (d.ended told)).2 := congrArg Prod.snd (ran told)
  have outcome_eq' : longer.outcome = (settle name (d.ended (told.extend more))).1 :=
    congrArg Prod.fst (ran (told.extend more))
  have final_eq' : longer.final = (settle name (d.ended (told.extend more))).2 :=
    congrArg Prod.snd (ran (told.extend more))
  have source_eq : r.final.source = (d.run told).2 :=
    (congrArg Expansion.source final_eq).trans (settle_source ..)
  have source_eq' : longer.final.source = (d.run (told.extend more)).2 :=
    (congrArg Expansion.source final_eq').trans (settle_source ..)
  rcases Dialogue.run_extend (propagates propagate) told more with
    same | ⟨fault, kind, failed, goesOn⟩
  · have ended_eq : d.ended (told.extend more) =
        ((d.ended told).1, (d.ended told).2.withSource ((d.run told).2.extend more)) := by
      rw [Dialogue.ended, same]
      rfl
    rw [ended_eq, settle_withSource] at outcome_eq' final_eq'
    refine .inl ⟨outcome_eq'.trans outcome_eq.symm, ?_⟩
    rw [source_eq, final_eq', final_eq]
  · have ordinary : fault.kind ≠ .recursion := by
      rw [kind]
      decide
    have ended_eq : (d.ended told).1 = .error fault := failed
    rw [settle_of_error ended_eq ordinary] at outcome_eq
    rw [← source_eq, ← source_eq'] at goesOn
    exact .inr ⟨fault, kind, outcome_eq, goesOn⟩

/-- With a longer script a run is the same but for the entries that are left, or it goes on where
the script was exhausted. -/
theorem runWithin_extend (g : Generator κ) (propagate : g.replacements.Propagate) (call : Call)
    (start : Option String) (user : κ) (script : Script) (more : List Decision) :
    let r := g.runWithin call start script user
    let longer := g.runWithin call start (script.extend more) user
    (longer.outcome = r.outcome ∧
        longer.final = r.final.withSource (r.final.source.extend more) ∧
        g.exchanges call start (script.extend more) user =
          g.exchanges call start script user) ∨
      ∃ fault, fault.kind = .scriptExhausted ∧ r.outcome = .error fault ∧
        Dialogue.GoesOn fault (g.exchanges call start script user)
          (g.exchanges call start (script.extend more) user) := by
  intro r longer
  obtain ⟨outcome_eq, final_eq⟩ := g.runWithin_transcript call start script user
  obtain ⟨outcome_eq', final_eq'⟩ := g.runWithin_transcript call start (script.extend more) user
  rcases g.told_extend propagate call start user { inner := script } more with
    ⟨outcome, final⟩ | ⟨fault, kind, failed, goesOn⟩
  · change longer.final = _ at final_eq'
    change r.final = _ at final_eq
    change (g.runWithin call start ({ inner := script.extend more } : Transcript Script)
      user).final = _ at final
    refine .inl ⟨outcome_eq'.trans (outcome.trans outcome_eq.symm), ?_, ?_⟩
    · rw [final_eq', final_eq, final]
      rfl
    · exact congrArg (·.source.log) final
  · exact .inr ⟨fault, kind, outcome_eq.trans failed, goesOn⟩

section

variable (g : Generator κ) (propagate : g.replacements.Propagate) (call : Call)
  (start : Option String) (user : κ)
include propagate

theorem runWithin_extend_ok {script : Script}
    (completed : (g.runWithin call start script user).outcome = .ok ())
    (more : List Decision) :
    let r := g.runWithin call start script user
    let longer := g.runWithin call start (script.extend more) user
    longer.outcome = .ok () ∧ longer.tree = r.tree ∧ longer.text = r.text ∧
      longer.final.source.remaining = r.final.source.remaining + more.length := by
  intro r longer
  rcases g.runWithin_extend propagate call start user script more with
    ⟨outcome, final, _⟩ | ⟨fault, _, failed, _⟩
  · refine ⟨outcome.trans completed, ?_, ?_, ?_⟩
    · rw [Run.tree, Run.tree, outcome, final]
      rfl
    · rw [Run.text, Run.text, outcome, final]
      rfl
    · rw [show longer.final = _ from final]
      exact Script.remaining_extend ..
  · cases completed.symm.trans failed

/-- Where entries at the end are used, the script without them is exhausted. -/
theorem runWithin_of_extend_used {script : Script} {more : List Decision}
    (used_up : (g.runWithin call start (script.extend more) user).final.source.remaining = 0)
    (some_more : more ≠ []) : ∃ fault,
      (g.runWithin call start script user).outcome = .error fault ∧
        fault.kind = .scriptExhausted := by
  rcases g.runWithin_extend propagate call start user script more with
    ⟨_, final, _⟩ | ⟨fault, kind, failed, _⟩
  · have left := Script.remaining_extend (g.runWithin call start script user).final.source more
    have none_left : (Script.extend _ more).remaining = 0 := final ▸ used_up
    have added : more.length ≠ 0 := fun none => some_more (List.eq_nil_of_length_eq_zero none)
    omega
  · exact ⟨fault, failed, kind⟩

theorem exchanges_extend {script : Script} {fault : Fault}
    (failed : (g.runWithin call start script user).outcome = .error fault)
    (more : List Decision) :
    g.exchanges call start (script.extend more) user =
        g.exchanges call start script user ∨
      Dialogue.GoesOn fault (g.exchanges call start script user)
        (g.exchanges call start (script.extend more) user) := by
  rcases g.runWithin_extend propagate call start user script more with
    ⟨_, _, same⟩ | ⟨raised, _, failed', goesOn⟩
  · exact .inl same
  · obtain rfl := Except.error.inj (failed.symm.trans failed')
    exact .inr goesOn

/-- What a run does depends only on the entries that it uses, if its callbacks pass faults on.  A
run that completes does the same with a longer script, and leaves what was added.  If it used up
the whole script, every shorter script is exhausted.  A run that exhausts its script asks the same
and gets the same answers with a longer script, up to the question for which no entry was left. -/
theorem runWithin_used_part {entries : List Decision} {script : Script}
    (accepted : Script.ofDecisions entries = .ok script) :
    let r := g.runWithin call start script user
    (∀ more, (∀ d ∈ more, d.site = none) → ∃ longer,
      Script.ofDecisions (entries ++ more) = .ok longer ∧
      let r' := g.runWithin call start longer user
      (r.outcome = .ok () → r'.outcome = .ok () ∧ r'.tree = r.tree ∧ r'.text = r.text ∧
        r'.final.source.remaining = r.final.source.remaining + more.length) ∧
      ∀ fault, r.outcome = .error fault → fault.kind = .scriptExhausted →
        g.exchanges call start longer user = g.exchanges call start script user ∨
          Dialogue.GoesOn fault (g.exchanges call start script user)
            (g.exchanges call start longer user)) ∧
    ((∀ d ∈ entries, d.site = none) → r.outcome = .ok () → r.final.source.remaining = 0 →
      ∀ fewer, fewer <+: entries → fewer ≠ entries → ∃ shorter fault,
        Script.ofDecisions fewer = .ok shorter ∧
        (g.runWithin call start shorter user).outcome = .error fault ∧
        fault.kind = .scriptExhausted) := by
  intro r
  refine ⟨fun more unkeyed => ⟨_, Script.ofDecisions_append accepted unkeyed, ?_, ?_⟩, ?_⟩
  · intro completed
    exact g.runWithin_extend_ok propagate call start user completed more
  · intro fault failed _
    exact g.exchanges_extend propagate call start user failed more
  · rintro unkeyed _ used_up fewer ⟨more, rfl⟩ proper
    rw [List.forall_mem_append] at unkeyed
    have shorter := Script.ofDecisions_of_unkeyed unkeyed.1
    have longer := Script.ofDecisions_append shorter unkeyed.2
    obtain rfl := Except.ok.inj (accepted.symm.trans longer)
    have some_more : more ≠ [] := by
      rintro rfl
      exact proper (List.append_nil fewer).symm
    obtain ⟨fault, failed, kind⟩ :=
      g.runWithin_of_extend_used propagate call start user used_up some_more
    exact ⟨_, fault, shorter, failed, kind⟩

end

theorem consulting_propagate : consulting.replacements.Propagate := by
  intro name callback bound target
  obtain rfl := Option.some.inj bound
  refine ⟨fun fault => rfl, fun answer => ?_⟩
  cases answer with
  | error fault => trivial
  | ok marks =>
    refine ⟨fun fault => rfl, fun expanded => ?_⟩
    cases expanded with
    | error fault => trivial
    | ok _ =>
      have marking (marked : Bool) : ((if marked then Action.write target (.str "!") else pure () :
          Action Unit Unit).run).Propagates := by
        cases marked with
        | false => trivial
        | true => exact ⟨fun fault => rfl, fun written => by cases written <;> trivial⟩
      exact marking marks.truthy

theorem consulting_used_part :
    let whole : List Decision := [.take, .repeats (.int 1), .skip, .repeats (.int 0)]
    (∃ longer, Script.ofDecisions (whole ++ [.skip]) = .ok longer ∧
      (consulting.runWithin (.first 20) none longer ()).text.toOption = some "aa!" ∧
      (consulting.runWithin (.first 20) none longer ()).final.source.remaining = 1) ∧
    ∃ shorter longer fault, Script.ofDecisions (whole.take 2) = .ok shorter ∧
      Script.ofDecisions (whole.take 2 ++ whole.drop 2) = .ok longer ∧
      (consulting.runWithin (.first 20) none shorter ()).outcome = .error fault ∧
      fault.kind = .scriptExhausted ∧
      Dialogue.GoesOn fault (consulting.exchanges (.first 20) none shorter ())
        (consulting.exchanges (.first 20) none longer ()) := by
  intro whole
  have accepted : Script.ofDecisions whole = .ok { queue := whole } := rfl
  obtain ⟨extended, truncated⟩ :=
    consulting.runWithin_used_part consulting_propagate (.first 20) none () accepted
  have completed :
      (consulting.runWithin (.first 20) none ({ queue := whole } : Script) ()).outcome = .ok () :=
    Run.completed (by decide +kernel)
  constructor
  · obtain ⟨longer, accepted, same, _⟩ := extended [.skip] (by decide +kernel)
    obtain ⟨_, _, text, remaining⟩ := same completed
    refine ⟨longer, accepted, ?_, ?_⟩
    · rw [text]
      decide +kernel
    · rw [remaining]
      decide +kernel
  · obtain ⟨shorter, fault, shorter_eq, failed, kind⟩ := truncated (by decide +kernel) completed
      (by decide +kernel) (whole.take 2) (List.take_prefix ..) (by simp [whole])
    obtain ⟨extended, _⟩ := consulting.runWithin_used_part consulting_propagate (.first 20) none ()
      shorter_eq
    obtain ⟨longer, longer_eq, _, parted⟩ := extended (whole.drop 2) (by decide +kernel)
    refine ⟨shorter, longer, fault, shorter_eq, longer_eq, failed, kind, ?_⟩
    refine (parted fault failed kind).resolve_left fun same => ?_
    have lengths := congrArg List.length same
    cases shorter_eq
    cases longer_eq
    revert lengths
    decide +kernel

end Generator

end SentenceGen
