import Mathlib.Data.List.Induction
import SentenceGen.Proofs.KeyedScripts

/-!
# What a question does to a script

Whatever the sites are that entries are kept for, a question takes the entry that is kept for it, or
else the first entry of the queue; if that is of another kind, or there is none, the question is
refused and the script stays as it was.  So what a script holds after some questions can be told
from the questions.
-/

namespace SentenceGen

theorem Datum.hashable_of_same {a b : Datum} (hashable : a.hashable = true)
    (same : a.same b = true) : b.hashable = true := by
  cases b with
  | list | map =>
    cases a <;> simp [Datum.hashable, Datum.same, Datum.isUndefined, Datum.equal,
      Datum.scalarEqual, Datum.magnitude?, Datum.int?] at hashable same
  | _ => rfl

theorem Datum.hashable_of_int? {d : Datum} (integral : d.int?.isSome = true) :
    d.hashable = true := by
  cases d with
  | list | map => cases integral
  | _ => rfl

theorem Datum.IsSet.sublist {keys fewer : List Datum} (isSet : Datum.IsSet keys)
    (sublist : fewer.Sublist keys) : Datum.IsSet fewer where
  hashable key member := isSet.hashable key (sublist.subset member)
  distinct := isSet.distinct.sublist sublist

/-- Of the members of a set, a question is about one at most. -/
theorem Datum.IsSet.unique {keys : List Datum} (isSet : Datum.IsSet keys) (q : Question) :
    keys.Pairwise fun a b => q.isAbout a = true → q.isAbout b = true → False := by
  refine isSet.distinct.imp_of_mem ?_
  intro a b memberA memberB other aboutA aboutB
  obtain ⟨site, given, sameA⟩ := Question.isAbout_iff.mp aboutA
  obtain ⟨_, givenToo, sameB⟩ := Question.isAbout_iff.mp aboutB
  obtain rfl := Option.some.inj (given.symm.trans givenToo)
  have hashable := Datum.hashable_of_same (isSet.hashable a memberA) sameA
  rw [Datum.same_eq_identity (isSet.hashable _ ‹_›) hashable, decide_eq_true_eq] at sameA sameB
  rw [Datum.same_eq_identity (isSet.hashable a memberA) (isSet.hashable b memberB),
    decide_eq_false_iff_not] at other
  exact other (sameA.trans sameB.symm)

namespace Question

/-- What an entry of the right kind answers. -/
def reply (q : Question) (d : Decision) : Except Fault Datum :=
  match q with
  | .codepoint candidates => Script.offered candidates d
  | _ => .ok (q.settled d.value)

theorem reply_of_isAbout {q : Question} {key : Datum} (about : q.isAbout key = true)
    (d : Decision) : q.reply d = .ok d.value := by
  cases q with
  | repetition bounds site => rfl
  | _ => cases about

theorem kind_of_isAbout {q : Question} {key : Datum} (about : q.isAbout key = true) :
    q.kind = .repetition := by
  cases q with
  | repetition bounds site => rfl
  | _ => cases about

end Question

namespace Script

/-- Nothing is kept for the question, and it can be looked up whether something is. -/
structure Free (s : Script) (q : Question) : Prop where
  none_kept : ∀ entry ∈ s.reserved, q.isAbout entry.1 = false
  looked_up : ∀ site ∈ q.site?, site.index.hashable = true ∨ s.reserved = []

theorem Free.of_site? {s : Script} {q : Question} (no_site : q.site? = none) : s.Free q where
  none_kept entry _ := by rw [Question.isAbout, no_site]; rfl
  looked_up site given := by rw [no_site] at given; cases given

/-! ### One question -/

theorem next_of_nil {s : Script} (queue : s.queue = []) (kind : DecisionKind) :
    s.next kind = (.error (.scriptExhausted (.str kind.name) (.int s.consumed)), s) := by
  rw [next, queue]

theorem next_of_kind {s : Script} {kind : DecisionKind} {d : Decision} {rest : List Decision}
    (queue : s.queue = d :: rest) (same : d.kind = kind) :
    s.next kind = (.ok d, { s with queue := rest, consumed := s.consumed + 1 }) := by
  rw [next, queue]
  exact if_pos same

theorem next_of_other {s : Script} {kind : DecisionKind} {d : Decision} {rest : List Decision}
    (queue : s.queue = d :: rest) (other : d.kind ≠ kind) :
    s.next kind = (.error (match d.label with
      | .ok label => .scriptMismatch (.str kind.name) (.str label) (.int s.consumed)
      | .error fault => fault), s) := by
  rw [next, queue]
  simp only [if_neg other]
  cases d.label <;> rfl

theorem takeReserved_of_free {s : Script} {bounds : Bounds} {site : RepetitionSite}
    (free : s.Free (.repetition bounds site)) : s.takeReserved site.index = .ok none := by
  rcases free.looked_up site rfl with hashable | none_kept
  · have missing : s.reserved.find? (·.1.same site.index) = none := by
      refine List.find?_eq_none.mpr fun entry member => ?_
      exact Bool.eq_false_iff.mp (free.none_kept entry member)
    rw [takeReserved_of_hashable hashable, missing]
    rfl
  · exact takeReserved_of_nil none_kept _

theorem ask_of_free {s : Script} {q : Question} (free : s.Free q) :
    s.ask q = ((s.next q.kind).1.bind q.reply, (s.next q.kind).2) := by
  have map_eq (answer : Except Fault Decision) (f : Decision → Datum) :
      answer.map f = answer.bind fun d => .ok (f d) := by cases answer <;> rfl
  cases q with
  | alternative | optional =>
    rw [ask]
    exact Prod.ext (map_eq _ _) rfl
  | codepoint candidates => rfl
  | repetition bounds site =>
    rw [ask, takeReserved_of_free free]
    exact Prod.ext (map_eq _ _) rfl

theorem ask_of_kind {s : Script} {q : Question} {d : Decision} {rest : List Decision}
    (free : s.Free q) (queue : s.queue = d :: rest) (kind : d.kind = q.kind) :
    s.ask q = (q.reply d, { s with queue := rest, consumed := s.consumed + 1 }) := by
  rw [ask_of_free free, next_of_kind queue kind]
  rfl

theorem ask_of_unhashable {s : Script} {q : Question} {site : RepetitionSite}
    (asked : q.site? = some site) (unhashable : site.index.hashable = false)
    (some_kept : s.reserved ≠ []) :
    s.ask q = (.error (.unhashable site.index.kind), s) := by
  cases q with
  | repetition bounds _ =>
    obtain rfl := Option.some.inj asked
    rw [ask, takeReserved_of_unhashable unhashable some_kept]
  | _ => cases asked

/-- Nothing is kept for a site that cannot be looked up. -/
theorem none_about_of_unhashable {reserved : List (Datum × Decision)}
    (isSet : Datum.IsSet (reserved.map (·.1))) {q : Question} {site : RepetitionSite}
    (asked : q.site? = some site) (unhashable : site.index.hashable = false) :
    ∀ entry ∈ reserved, q.isAbout entry.1 = false := by
  intro entry member
  rw [Bool.eq_false_iff]
  intro about
  obtain ⟨_, given, same⟩ := Question.isAbout_iff.mp about
  obtain rfl := Option.some.inj (asked.symm.trans given)
  have hashable := Datum.hashable_of_same (isSet.hashable _ (List.mem_map_of_mem member)) same
  rw [unhashable] at hashable
  cases hashable

/-- What a question does to a script. -/
inductive Turn (s : Script) (q : Question) : Except Fault Datum → Script → Prop where
  | kept {entry : Datum × Decision} (member : entry ∈ s.reserved)
      (about : q.isAbout entry.1 = true) :
      Turn s q (q.reply entry.2)
        { s with reserved := s.reserved.eraseP fun entry => q.isAbout entry.1
                 consumed := s.consumed + 1 }
  | queued {d : Decision} {rest : List Decision} (free : s.Free q) (queue : s.queue = d :: rest)
      (kind : d.kind = q.kind) :
      Turn s q (q.reply d) { s with queue := rest, consumed := s.consumed + 1 }
  | exhausted (free : s.Free q) (queue : s.queue = []) :
      Turn s q (.error (.scriptExhausted (.str q.kind.name) (.int s.consumed))) s
  | mismatched {d : Decision} {rest : List Decision} {label : String} (free : s.Free q)
      (queue : s.queue = d :: rest) (other : d.kind ≠ q.kind) (labelled : d.label = .ok label) :
      Turn s q (.error (.scriptMismatch (.str q.kind.name) (.str label) (.int s.consumed))) s
  | unlabelled {d : Decision} {rest : List Decision} {fault : Fault} (free : s.Free q)
      (queue : s.queue = d :: rest) (other : d.kind ≠ q.kind) (failed : d.label = .error fault) :
      Turn s q (.error fault) s
  | unhashable {site : RepetitionSite} (asked : q.site? = some site)
      (unhashable : site.index.hashable = false) (some_kept : s.reserved ≠ []) :
      Turn s q (.error (.unhashable site.index.kind)) s

theorem turn_of_free {s : Script} {q : Question} (free : s.Free q) :
    Turn s q (s.ask q).1 (s.ask q).2 := by
  cases queue : s.queue with
  | nil =>
    rw [ask_of_free free, next_of_nil queue]
    exact .exhausted free queue
  | cons d rest =>
    by_cases kind : d.kind = q.kind
    · rw [ask_of_kind free queue kind]
      exact .queued free queue kind
    · rw [ask_of_free free, next_of_other queue kind]
      cases labelled : d.label with
      | ok label => exact .mismatched free queue kind labelled
      | error fault => exact .unlabelled free queue kind labelled

theorem turn (s : Script) (q : Question) : Turn s q (s.ask q).1 (s.ask q).2 := by
  cases q with
  | repetition bounds site =>
    by_cases hashable : site.index.hashable = true
    · cases found : s.reserved.find? (·.1.same site.index) with
      | none =>
        refine turn_of_free ⟨fun entry member => ?_, fun _ same => .inl ?_⟩
        · exact Bool.eq_false_iff.mpr (List.find?_eq_none.mp found entry member)
        · obtain rfl := Option.some.inj same
          exact hashable
      | some entry =>
        have about : entry.1.same site.index = true :=
          List.find?_some (p := fun entry : Datum × Decision => entry.1.same site.index) found
        rw [ask, takeReserved_of_hashable hashable, found]
        exact .kept (q := .repetition bounds site) (List.mem_of_find?_eq_some found) about
    · have unhashable : site.index.hashable = false := Bool.eq_false_iff.mpr hashable
      by_cases none_kept : s.reserved = []
      · exact turn_of_free ⟨by simp [none_kept], fun _ _ => .inr none_kept⟩
      · rw [ask_of_unhashable (q := .repetition bounds site) rfl unhashable none_kept]
        exact .unhashable rfl unhashable none_kept
  | _ => exact turn_of_free (.of_site? rfl)

/-! ### Accepted scripts -/

theorem unkept_cons_of_none {d : Decision} (given : d.site = none) (rest : List Decision) :
    unkept (d :: rest) = d :: unkept rest := by
  simp [unkept, given]

theorem unkept_cons_of_some {d : Decision} {site : Datum} (given : d.site = some site)
    (rest : List Decision) : unkept (d :: rest) = unkept rest := by
  simp [unkept, given]

theorem add_ok {s s' : Script} {d : Decision} {site : Datum} (given : d.site = some site)
    (added : s.add d = .ok s') :
    d.kind = .repetition ∧ site.hashable = true ∧
      (∀ entry ∈ s.reserved, entry.1.same site = false) ∧
      s' = { s with reserved := s.reserved ++ [(site, d)] } := by
  rw [add, given] at added
  by_cases repetition : d.kind = .repetition
  · by_cases hashable : site.hashable = true
    · by_cases taken : (s.reserved.any (·.1.same site)) = true
      · simp [repetition, Datum.requireHashable, hashable, taken, Bind.bind, Except.bind] at added
      · simp [repetition, Datum.requireHashable, hashable, taken, Bind.bind, Except.bind, pure,
          Except.pure] at added
        refine ⟨repetition, hashable, fun entry member => ?_, added.symm⟩
        exact Bool.eq_false_iff.mpr fun same => taken (List.any_eq_true.mpr ⟨entry, member, same⟩)
    · simp [repetition, Datum.requireHashable, hashable, Bind.bind, Except.bind] at added
  · simp only [ne_eq, repetition, not_false_eq_true, if_true] at added
    cases labelled : d.label <;> simp [labelled, Bind.bind, Except.bind] at added

theorem addAll_ok {entries : List Decision} {s s' : Script}
    (isSet : Datum.IsSet (s.reserved.map (·.1)))
    (accepted : addAll (entries.map .inr) s = .ok s') :
    (∀ entry ∈ kept entries, entry.2.kind = .repetition) ∧
      Datum.IsSet ((s.reserved ++ kept entries).map (·.1)) ∧
      s' = { s with queue := s.queue ++ unkept entries
                    reserved := s.reserved ++ kept entries } := by
  induction entries generalizing s with
  | nil =>
    cases accepted
    simpa [kept, unkept] using isSet
  | cons d rest ih =>
    rw [List.map_cons, addAll] at accepted
    cases added : s.add d with
    | error fault =>
      rw [added] at accepted
      cases accepted
    | ok more =>
      rw [added] at accepted
      have accepted : addAll (rest.map .inr) more = .ok s' := accepted
      cases given : d.site with
      | none =>
        have queuedNow : s.add d = .ok { s with queue := s.queue ++ [d] } := by rw [add, given]
        obtain rfl := Except.ok.inj (queuedNow.symm.trans added)
        obtain ⟨repetitions, sets, rfl⟩ := ih (s := { s with queue := s.queue ++ [d] }) isSet
          accepted
        rw [kept_cons_of_none given, unkept_cons_of_none given]
        exact ⟨repetitions, sets, by simp⟩
      | some site =>
        obtain ⟨repetition, hashable, free, rfl⟩ := add_ok given added
        have isSetToo : Datum.IsSet ((s.reserved ++ [(site, d)]).map (·.1)) := by
          constructor
          · simpa [or_imp, forall_and, hashable] using isSet.hashable
          · rw [List.map_append, List.pairwise_append]
            refine ⟨isSet.distinct, List.pairwise_singleton .., ?_⟩
            simpa using fun key entry member => free (key, entry) member
        obtain ⟨repetitions, sets, rfl⟩ := ih isSetToo accepted
        rw [kept_cons_of_some given, unkept_cons_of_some given]
        refine ⟨List.forall_mem_cons.mpr ⟨repetition, repetitions⟩, ?_, by simp⟩
        simpa using sets

/-- A script that is accepted holds all its entries, and what is kept is kept for different
sites. -/
theorem ofDecisions_ok {entries : List Decision} {s : Script}
    (accepted : ofDecisions entries = .ok s) :
    (∀ entry ∈ kept entries, entry.2.kind = .repetition) ∧
      Datum.IsSet ((kept entries).map (·.1)) ∧
      s = { queue := unkept entries, reserved := kept entries } :=
  addAll_ok (s := {}) Datum.isSet_nil accepted

theorem unkept_append (front back : List Decision) :
    unkept (front ++ back) = unkept front ++ unkept back :=
  List.filter_append ..

theorem kept_append (front back : List Decision) :
    kept (front ++ back) = kept front ++ kept back :=
  List.filterMap_append

theorem length_unkept_add_kept (entries : List Decision) :
    (unkept entries).length + (kept entries).length = entries.length := by
  induction entries with
  | nil => rfl
  | cons d rest ih =>
    cases given : d.site with
    | none =>
      rw [kept_cons_of_none given, unkept_cons_of_none given, List.length_cons, List.length_cons]
      omega
    | some site =>
      rw [kept_cons_of_some given, unkept_cons_of_some given, List.length_cons, List.length_cons]
      omega

/-! ### Any number of questions -/

/-- The script after some questions, whatever became of them. -/
def after (questions : List Question) (s : Script) : Script :=
  questions.foldl (fun s q => (s.ask q).2) s

theorem after_concat (questions : List Question) (q : Question) (s : Script) :
    s.after (questions ++ [q]) = ((s.after questions).ask q).2 :=
  List.foldl_concat ..

/-- What a script holds after some questions: nothing that is kept for one of them, and the end of
its queue. -/
structure Spent (entries : List Decision) (questions : List Question) (s : Script) : Prop where
  reserved_eq : s.reserved =
    (kept entries).filter fun entry => !questions.any (·.isAbout entry.1)
  queue_eq : ∃ used, unkept entries = used ++ s.queue ∧
    s.consumed + s.reserved.length = used.length + (kept entries).length

namespace Spent

variable {entries : List Decision} {questions : List Question} {s : Script}

theorem reserved_sublist (h : Spent entries questions s) :
    (s.reserved).Sublist (kept entries) := by
  rw [h.reserved_eq]
  exact List.filter_sublist

theorem isSet (h : Spent entries questions s) (isSet : Datum.IsSet ((kept entries).map (·.1))) :
    Datum.IsSet (s.reserved.map (·.1)) :=
  isSet.sublist (h.reserved_sublist.map _)

theorem mem_of_queue (h : Spent entries questions s) {d : Decision} (member : d ∈ s.queue) :
    d ∈ entries ∧ d.site = none := by
  obtain ⟨used, split, _⟩ := h.queue_eq
  have listed : d ∈ unkept entries := split ▸ List.mem_append_right used member
  exact (List.mem_filter.mp listed).imp_right Option.isNone_iff_eq_none.mp

theorem unasked (h : Spent entries questions s) {q : Question}
    (none_kept : ∀ entry ∈ s.reserved, q.isAbout entry.1 = false) :
    s.reserved =
      (kept entries).filter fun entry => !(questions ++ [q]).any (·.isAbout entry.1) := by
  rw [h.reserved_eq]
  refine List.filter_congr fun entry member => ?_
  by_cases asked : (questions.any (·.isAbout entry.1)) = true
  · simp [asked]
  · have still : entry ∈ s.reserved := by
      rw [h.reserved_eq]
      exact List.mem_filter.mpr ⟨member, by simp [asked]⟩
    simp [asked, none_kept entry still]

theorem ask (h : Spent entries questions s) (isSet : Datum.IsSet ((kept entries).map (·.1)))
    (q : Question) : Spent entries (questions ++ [q]) (s.ask q).2 := by
  have isSetNow := h.isSet isSet
  have taken := turn s q
  obtain ⟨used, split, balance⟩ := h.queue_eq
  generalize (s.ask q).1 = answer at taken
  generalize (s.ask q).2 = s' at taken ⊢
  have refused (free : s.Free q) : Spent entries (questions ++ [q]) s :=
    ⟨h.unasked free.none_kept, used, split, balance⟩
  cases taken with
  | kept member about =>
    have unique := List.pairwise_map.mp (isSetNow.unique q)
    have shorter := List.length_eraseP_of_mem (p := fun entry => q.isAbout entry.1) member about
    have some_kept := List.length_pos_of_mem member
    refine ⟨?_, used, split, ?_⟩
    · change s.reserved.eraseP _ = _
      rw [eraseP_eq_filter unique, h.reserved_eq, List.filter_filter]
      refine List.filter_congr fun entry _ => ?_
      simp [Bool.and_comm]
    · simp only [shorter]
      omega
  | queued free queue kind =>
    rename_i d rest
    refine ⟨h.unasked free.none_kept, used ++ [d], ?_, ?_⟩
    · rw [split, queue, List.append_assoc]
      rfl
    · simp only [List.length_append, List.length_singleton]
      omega
  | exhausted free => exact refused free
  | mismatched free => exact refused free
  | unlabelled free => exact refused free
  | unhashable asked unhashable =>
    exact ⟨h.unasked (none_about_of_unhashable isSetNow asked unhashable), used, split, balance⟩

end Spent

theorem spent {entries : List Decision} {script : Script}
    (accepted : ofDecisions entries = .ok script) (questions : List Question) :
    Spent entries questions (script.after questions) := by
  obtain ⟨_, isSet, rfl⟩ := ofDecisions_ok accepted
  induction questions using List.reverseRecOn with
  | nil => exact ⟨by simp [after], [], rfl, by simp [after]⟩
  | append_singleton earlier q ih =>
    rw [after_concat]
    exact ih.ask isSet q

end Script

end SentenceGen
