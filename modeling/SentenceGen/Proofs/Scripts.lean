import SentenceGen.Decision.Recording
import SentenceGen.Proofs.Steps

/-!
# Answers of a script

A script without reserved entries is a queue: whatever is asked, it answers with the value of its
first entry, if that is of the right kind, and drops the entry.
-/

namespace SentenceGen

namespace Decision

/-- The entry with the truth of an optional answer for its value. -/
def normal (d : Decision) : Decision :=
  match d.kind with
  | .optional => if d.value.truthy then .take else .skip
  | _ => d

theorem normal_eq_of_unkeyed {d : Decision} (unkeyed : d.site = none) :
    d.normal = ⟨d.kind, d.normal.value, none⟩ := by
  obtain ⟨kind, value, site⟩ := d
  obtain rfl : site = none := unkeyed
  cases kind with
  | optional =>
    simp only [normal]
    cases value.truthy <;> rfl
  | _ => rfl

end Decision

theorem Label.eq_of_decision? {label : Label} {d : Decision} (h : label.decision? = some d) :
    d = ⟨d.kind, d.value, none⟩ := by
  obtain ⟨kind, name, text, value⟩ := label
  cases kind <;> cases h
  case optional => cases value.truthy <;> rfl
  all_goals rfl

theorem Question.normal_value {q : Question} {d : Decision} (kind : d.kind = q.kind) :
    d.normal.value = q.settled d.value := by
  cases q with
  | optional =>
    simp only [Decision.normal, kind, Question.kind, Question.settled]
    cases d.value.truthy <;> rfl
  | _ => simp only [Decision.normal, kind, Question.kind, Question.settled]

theorem Candidates.contains_of_mem {c : CharacterClass} {codepoint : Nat}
    (member : codepoint ∈ c) : (ofClass c).contains (.int codepoint) = .ok true := by
  simp [contains, CharacterClass.contains, CharacterClass.hasInt_natCast, member]

namespace Script

structure Queued (s : Script) (entries : List Decision) : Prop where
  queue_eq : s.queue = entries
  reserved_eq : s.reserved = []

theorem Queued.remaining_eq {s : Script} {entries : List Decision} (h : s.Queued entries) :
    s.remaining = entries.length := by
  simp [remaining, h.queue_eq, h.reserved_eq]

theorem addAll_of_unkeyed {entries : List Decision} (unkeyed : ∀ d ∈ entries, d.site = none)
    (s : Script) :
    addAll (entries.map .inr) s = .ok { s with queue := s.queue ++ entries } := by
  induction entries generalizing s with
  | nil => simp [addAll]
  | cons d rest ih =>
    rw [List.forall_mem_cons] at unkeyed
    rw [List.map_cons, addAll, add, unkeyed.1]
    simpa [Bind.bind, Except.bind] using ih unkeyed.2 { s with queue := s.queue ++ [d] }

theorem ofDecisions_of_unkeyed {entries : List Decision}
    (unkeyed : ∀ d ∈ entries, d.site = none) : ofDecisions entries = .ok { queue := entries } := by
  rw [ofDecisions, ofEntries, addAll_of_unkeyed unkeyed]
  rfl

/-- Whether a question accepts a value: one about code points only what is on offer. -/
def Accepted (q : Question) (value : Datum) : Prop :=
  match q with
  | .codepoint candidates => candidates.contains value = .ok true
  | _ => True

theorem takeReserved_of_nil {s : Script} (reserved : s.reserved = []) (site : Datum) :
    s.takeReserved site = .ok none := by
  simp [takeReserved, reserved]
  rfl

theorem ask_of_queue {s : Script} {q : Question} {d : Decision} {rest : List Decision}
    (queue : s.queue = d :: rest) (reserved : s.reserved = []) (kind : d.kind = q.kind)
    (accepted : Accepted q d.value) :
    s.ask q = (.ok (q.settled d.value), { s with queue := rest, consumed := s.consumed + 1 }) := by
  have next : s.next q.kind =
      (.ok d, { s with queue := rest, consumed := s.consumed + 1 }) := by
    rw [Script.next, queue]
    simp [kind]
  cases q with
  | alternative count => rw [ask, show s.next .alternative = _ from next]; rfl
  | repetition bounds site =>
    rw [ask, takeReserved_of_nil reserved, show s.next .repetition = _ from next]
    rfl
  | optional => rw [ask, show s.next .optional = _ from next]; rfl
  | codepoint candidates =>
    rw [ask, show s.next .codepoint = _ from next]
    have contained : candidates.contains d.value = .ok true := accepted
    simp [Except.bind, offered, contained, Bind.bind, Question.settled, pure, Except.pure]

theorem ask_of_queued {s : Script} {q : Question} {d : Decision} {rest : List Decision}
    (queued : s.Queued (d :: rest)) (kind : d.kind = q.kind) (accepted : Accepted q d.value) :
    ∃ s', s.ask q = (.ok (q.settled d.value), s') ∧ s'.Queued rest :=
  ⟨_, ask_of_queue queued.queue_eq queued.reserved_eq kind accepted, rfl, queued.reserved_eq⟩

theorem next_ok {s s' : Script} {kind : DecisionKind} {d : Decision}
    (h : s.next kind = (.ok d, s')) : d.kind = kind ∧
      s.queue = d :: s'.queue ∧ s'.reserved = s.reserved := by
  unfold Script.next at h
  split at h
  next => cases h
  next first rest queue =>
    split at h
    next same =>
      cases h
      exact ⟨same, queue, rfl⟩
    next =>
      split at h <;> cases h

/-- What a queue answers is what its first entry says. -/
theorem ask_ok {s s' : Script} {q : Question} {answer : Datum} {entries : List Decision}
    (queued : s.Queued entries) (asked : s.ask q = (.ok answer, s')) :
    ∃ d rest, entries = d :: rest ∧ d.kind = q.kind ∧ q.settled answer = d.normal.value ∧
      s'.Queued rest := by
  suffices popped : ∃ d, s.next q.kind = (.ok d, s') ∧ q.settled answer = q.settled d.value by
    obtain ⟨d, next, settled⟩ := popped
    obtain ⟨kind, queue, reserved⟩ := next_ok next
    refine ⟨d, s'.queue, ?_, kind, ?_, rfl, ?_⟩
    · rw [← queue, queued.queue_eq]
    · rw [settled, Question.normal_value kind]
    · rw [reserved, queued.reserved_eq]
  have map_ok {f : Decision → Datum} {outcome : Except Fault Decision × Script}
      (h : (outcome.1.map f, outcome.2) = (.ok answer, s')) :
      ∃ d, outcome = (.ok d, s') ∧ f d = answer := by
    obtain ⟨_ | d, left⟩ := outcome
    · cases h
    · cases h
      exact ⟨d, rfl, rfl⟩
  cases q with
  | alternative count =>
    obtain ⟨d, next, rfl⟩ := map_ok asked
    exact ⟨d, next, rfl⟩
  | repetition bounds site =>
    rw [ask, takeReserved_of_nil queued.reserved_eq] at asked
    obtain ⟨d, next, rfl⟩ := map_ok asked
    exact ⟨d, next, rfl⟩
  | optional =>
    obtain ⟨d, next, rfl⟩ := map_ok asked
    exact ⟨d, next, rfl⟩
  | codepoint candidates =>
    rw [ask] at asked
    rcases next : s.next .codepoint with ⟨_ | d, left⟩
    · rw [next] at asked
      cases asked
    · rw [next] at asked
      obtain ⟨chosen, same⟩ := Prod.mk.inj asked
      obtain rfl : left = s' := same
      refine ⟨d, next, ?_⟩
      simp only [Except.bind, offered, Bind.bind] at chosen
      split at chosen
      next => cases chosen
      next on _ =>
        split at chosen
        next => cases chosen; rfl
        next => split at chosen <;> cases chosen

end Script

end SentenceGen
