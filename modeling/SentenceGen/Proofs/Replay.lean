import SentenceGen.Proofs.Watching

/-!
# Replay of a recorded run

A run whose log tells of no fault is repeated from what its source recorded, unless a callback was
given a code point that it had not offered: a recording writes that down, and its script refuses to
give it again.  The two runs are followed from their end back to their start: what the script has
still to give is what the recording has still to write down, and that is known only once the
recorded run is over.
-/

namespace SentenceGen

namespace Recording

variable {σ : Type} [DecisionSource σ]

theorem ask_ok {q : Question} {r r' : Recording σ} {answer : Datum}
    (asked : DecisionSource.ask q r = (.ok answer, r')) :
    ∃ d, decisionOf q answer = .ok d ∧ r'.decisions = r.decisions.push d := by
  change ask q r = _ at asked
  unfold ask at asked
  split at asked
  next => cases asked
  next given inner _ =>
    split at asked
    next => cases asked
    next d recorded =>
      cases asked
      exact ⟨d, recorded, rfl⟩

/-- What is recorded of an answer makes a script answer the same again, as the engine takes it. -/
theorem decisionOf_ok {q : Question} {answer : Datum} {d : Decision}
    (recorded : decisionOf q answer = .ok d) (repeatable : q.Repeatable answer) :
    d.kind = q.kind ∧ d.site = none ∧ q.settled d.value = q.settled answer ∧
      Script.Accepted q d.value := by
  cases q with
  | alternative count | repetition bounds site =>
    cases recorded
    exact ⟨rfl, rfl, rfl, trivial⟩
  | optional =>
    cases recorded
    simp only [Question.settled]
    cases answer.truthy <;> exact ⟨rfl, rfl, rfl, trivial⟩
  | codepoint candidates =>
    obtain ⟨int, offered⟩ := repeatable
    cases answer with
    | bool b =>
      cases recorded
      exact ⟨rfl, rfl, rfl, offered⟩
    | int n =>
      cases recorded
      exact ⟨rfl, rfl, rfl, offered⟩
    | _ => cases int

end Recording

/-- The source of a run is the source of the watched run. -/
theorem retells_self {σ : Type} [DecisionSource σ] :
    Retells True fun (_ : List Reply) (x₁ x₂ : σ) => x₂ = x₁ where
  noted same := ⟨same, .inl trivial⟩
  asked _ asked same := ⟨_, _, rfl, same ▸ asked, .inl rfl⟩

/-- The script gives, in order, the decisions that are still to be recorded. -/
structure Recording.Gives {σ : Type} (all : List Decision) (log : List Reply) (r : Recording σ)
    (s : Script) : Prop where
  fine : ∀ reply ∈ log, reply.Fine ∧ reply.Offered
  entries : r.decisions.toList ++ s.queue = all
  unkeyed : ∀ d ∈ s.queue, d.site = none
  reserved_eq : s.reserved = []
  consumed_eq : s.consumed = r.decisions.size

theorem retells_recording {σ : Type} [DecisionSource σ] (all : List Decision) :
    Retells False (Recording.Gives (σ := σ) all) where
  noted := by
    intro log reply r s gives
    have fine := gives.fine
    rw [List.forall_mem_append, List.forall_mem_singleton] at fine
    exact ⟨{ gives with fine := fine.1 }, .inr fine.2⟩
  asked := by
    rintro log q _ r r' s' (⟨⟨⟩⟩ | ⟨answer, rfl, repeatable⟩) asked gives
    obtain ⟨d, recorded, decisions⟩ := Recording.ask_ok asked
    obtain ⟨kind, unkeyed, settled, accepted⟩ := Recording.decisionOf_ok recorded repeatable
    let s : Script := { queue := d :: s'.queue, consumed := r.decisions.size }
    refine ⟨s, .ok (q.settled answer), ?_, ?_, .inr ⟨not_false, rfl⟩⟩
    · refine ⟨gives.fine, ?_, List.forall_mem_cons.mpr ⟨unkeyed, gives.unkeyed⟩, rfl, rfl⟩
      rw [← gives.entries, decisions]
      simp [s]
    · have consumed := gives.consumed_eq
      rw [decisions, Array.size_push] at consumed
      have answered := Script.ask_of_queue (s := s) rfl rfl kind accepted
      rw [settled] at answered
      refine answered.trans ?_
      obtain ⟨queue, reserved, count⟩ := s'
      obtain rfl : reserved = [] := gives.reserved_eq
      obtain rfl : count = r.decisions.size + 1 := consumed
      rfl

/-- A completed expansion without faults inside is repeated from the recorded decisions. -/
theorem Expand.exec_recorded {σ κ : Type} [DecisionSource σ] (plan : Plan κ) {fuel : Nat}
    {rule : Rule} {call : Nat} {inner : σ} {user : κ}
    {last : Expansion (Recording σ) (κ × List Reply)}
    (ran : (expand plan.watched fuel rule none).exec
      { call, source := { inner }, user := (user, []) } = (.ok (), last))
    (fine : ∀ reply ∈ last.user.2, reply.Fine ∧ reply.Offered) :
    (∀ d ∈ last.source.decisions.toList, d.site = none) ∧
      (expand plan fuel rule none).exec
        { call, source := ({ queue := last.source.decisions.toList } : Script), user } =
          (.ok (), last.retold { consumed := last.source.decisions.size : Script }) := by
  have ends : InStep (Recording.Gives last.source.decisions.toList) last
      (last.retold { consumed := last.source.decisions.size : Script }) :=
    ⟨_, ⟨fine, List.append_nil _, List.forall_mem_nil _, rfl, rfl⟩, rfl⟩
  obtain ⟨_, ⟨script, gives, rfl⟩, again⟩ :=
    retraces_expand (retells_recording _) plan fuel rule none ran (.inr ⟨(), rfl⟩) ends
  obtain ⟨queue, reserved, consumed⟩ := script
  obtain rfl : queue = last.source.decisions.toList := gives.entries
  obtain rfl : reserved = [] := gives.reserved_eq
  obtain rfl : consumed = 0 := gives.consumed_eq
  exact ⟨gives.unkeyed, again⟩

namespace Generator

open Expand

variable {σ κ : Type} [DecisionSource σ]

theorem derive_watched (g : Generator κ) (call : Call) (start : String) (source : σ) (user : κ)
    (log : List Reply) :
    g.derive call start source user =
      let (outcome, final) := g.watched.derive call start source (user, log)
      (outcome, final.retold final.source) := by
  rcases ran : (expand g.plan.watched call.ceiling (.nonTerminal start) none).exec
    (call.begin source (user, log)) with ⟨outcome, last⟩
  have ends : InStep (fun _ (x₁ x₂ : σ) => x₂ = x₁) last (last.retold last.source) :=
    ⟨last.source, rfl, rfl⟩
  obtain ⟨_, ⟨x, same, rfl⟩, again⟩ :=
    retraces_expand retells_self g.plan call.ceiling _ none ran (.inl trivial) ends
  rw [show x = source from same] at again
  have ranWatched : (expand g.watched.plan call.ceiling (.nonTerminal start) none).run.run
    (call.begin source (user, log)) = (outcome, last) := ran
  have ranPlain : (expand g.plan call.ceiling (.nonTerminal start) none).run.run
    (call.begin source user) = (outcome, last.retold last.source) := again
  simp only [derive, ranWatched, ranPlain]
  cases outcome <;> rfl

/-- Watching the callbacks of a run changes nothing but the log. -/
theorem runWithin_watched (g : Generator κ) (call : Call) (start : Option String) (source : σ)
    (user : κ) (log : List Reply) :
    g.runWithin call start source user =
      let r := g.watched.runWithin call start source (user, log)
      { outcome := r.outcome, final := r.final.retold r.final.source, log := r.log } := by
  have found : g.watched.startOf start = g.startOf start := rfl
  simp only [runWithin, found]
  cases g.startOf start with
  | error fault => rfl
  | ok name =>
    simp only [derive_watched g call name source user log]
    rcases g.watched.derive call name source (user, log) with ⟨_ | _, final⟩ <;> rfl

/-- If nothing failed inside a recorded run, not even where a callback caught it, and the callbacks
were answered by values of the types that the source owes them, and by no code point that they had
not offered, then the script of the recording gives the same tree and the same text and is used up.
-/
theorem replay_exact (g : Generator κ) (call : Call) (start : Option String) (inner : σ)
    (user : κ)
    (completed : (g.runWithin call start ({ inner } : Recording σ) user).outcome = .ok ())
    (fine : ∀ reply ∈ (g.watched.runWithin call start ({ inner } : Recording σ)
      (user, [])).final.user.2, reply.Fine)
    (offered : ∀ reply ∈ (g.watched.runWithin call start ({ inner } : Recording σ)
      (user, [])).final.user.2, reply.Offered) :
    let recorded := g.runWithin call start ({ inner } : Recording σ) user
    ∃ script t, recorded.final.source.replay = .ok script ∧ recorded.tree = .ok t ∧
      (g.runWithin call start script user).tree = .ok t ∧
      (g.runWithin call start script user).text = recorded.text ∧
      (g.runWithin call start script user).final.source.remaining = 0 := by
  intro recorded
  let watched := g.watched.runWithin call start ({ inner } : Recording σ) (user, [])
  have projected : recorded =
      { watched with final := watched.final.retold watched.final.source } :=
    runWithin_watched g call start _ user []
  have outcome : watched.outcome = .ok () := (congrArg Run.outcome projected).symm.trans completed
  obtain ⟨name, found, derived⟩ := runWithin_ok outcome
  obtain ⟨last, ran, final⟩ := derive_ok derived
  have log : watched.final.user.2 = last.user.2 := by rw [final]
  obtain ⟨unkeyed, again⟩ := exec_recorded g.plan ran fun reply told =>
    ⟨fine reply (log ▸ told), offered reply (log ▸ told)⟩
  have foundPlain : g.startOf start = .ok name := found
  obtain ⟨ended, left⟩ := runWithin_of_expand foundPlain again
  have final_eq : recorded.final =
      ({ last with tree := last.tree.freeze } : Expansion _ _).retold last.source := by
    rw [projected, final]
  refine ⟨{ queue := last.source.decisions.toList }, last.tree.freeze, ?_, ?_, ?_, ?_, ?_⟩
  · rw [final_eq]
    exact Script.ofDecisions_of_unkeyed unkeyed
  · rw [Run.tree, completed, final_eq]
    rfl
  · rw [Run.tree, ended, left]
    rfl
  · rw [Run.text, Run.text, ended, left, completed, final_eq]
    rfl
  · rw [left]
    rfl

/-- Asks for itself whether it marks the end of a production. -/
def consulting : Generator Unit where
  grammar := .nesting
  replacements.default := some fun own => do
    let marks ← Action.ask .optional
    Action.expandDefault own
    if marks.truthy then Action.write own (.str "!")
  config := {}
  classes := []

theorem consulting_replay_exact :
    let script : Script := { queue := [.take, .repeats (.int 1), .skip, .repeats (.int 0)] }
    ∃ again t, (consulting.runWithin (.first 20) none
        ({ inner := script } : Recording Script) ()).final.source.replay = .ok again ∧
      (consulting.runWithin (.first 20) none again ()).tree = .ok t ∧ t.render 0 = "aa!" := by
  intro script
  let recorded := consulting.runWithin (.first 20) none ({ inner := script } : Recording Script) ()
  have completed : recorded.outcome = .ok () := Run.completed (by decide +kernel)
  obtain ⟨again, t, made, tree, same, _⟩ :=
    replay_exact consulting (.first 20) none script () completed (by decide +kernel)
      (by decide +kernel)
  refine ⟨again, t, made, same, ?_⟩
  have rendered : recorded.tree.toOption.map (Tree.render · 0) = some "aa!" := by decide +kernel
  rw [show recorded.tree = .ok t from tree] at rendered
  exact Option.some.inj rendered

/-- A source that gives the same answer to every question. -/
structure Steady where
  answer : Datum

instance : DecisionSource Steady where
  name _ := "steady"
  shown _ := .ok "Steady()"
  ask _ s := (.ok s.answer, s)

/-- Asks for a letter a, and takes whatever it is given. -/
def requesting : Generator Unit where
  grammar := .nesting
  replacements.default := some fun _ => do
    let _ ← Action.ask (.codepoint (.listed [.int 97]))
  config := {}
  classes := []

theorem requesting_replay_refused :
    let source : Recording Steady := { inner := ⟨.int 98⟩ }
    let recorded := requesting.runWithin (.first 20) none source ()
    recorded.outcome = .ok () ∧
      (∀ reply ∈ (requesting.watched.runWithin (.first 20) none source ((), [])).final.user.2,
        reply.Fine) ∧
      ∃ again, recorded.final.source.replay = .ok again ∧
        (faultOf (requesting.runWithin (.first 20) none again ()).outcome).map Fault.kind =
          some .invalidDecision := by
  intro source recorded
  have completed : recorded.outcome = .ok () := Run.completed (by decide +kernel)
  have refused : recorded.final.source.replay.toOption.bind (fun again =>
      (faultOf (requesting.runWithin (.first 20) none again ()).outcome).map Fault.kind) =
        some .invalidDecision := by decide +kernel
  refine ⟨completed, by decide +kernel, ?_⟩
  cases made : recorded.final.source.replay with
  | error fault =>
    rw [made] at refused
    cases refused
  | ok again =>
    rw [made] at refused
    exact ⟨again, rfl, refused⟩

end Generator

end SentenceGen
