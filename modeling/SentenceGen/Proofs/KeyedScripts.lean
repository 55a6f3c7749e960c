import Mathlib.Data.List.Nodup
import Mathlib.Data.List.Perm.Basic
import SentenceGen.Proofs.Scripts
import SentenceGen.Proofs.Sites

/-!
# Scripts with entries kept for sites

Entries that are kept for a site lie beside the queue.  If the sites are integers no two entries are
kept for the same question, so it does not matter in which order they lie there.  Each is used by
the first question about its site, and all other questions use the queue.
-/

namespace SentenceGen

theorem Datum.hashable_of_same_int {k : Int} {d : Datum} (same : (Datum.int k).same d = true) :
    d.hashable = true := by
  cases d with
  | list | map => simp [Datum.same, Datum.isUndefined, Datum.equal, Datum.scalarEqual,
      Datum.magnitude?, Datum.int?] at same
  | _ => rfl

/-- A datum is the same as one integer at most. -/
theorem Datum.int_unique {a b : Int} {d : Datum} (ha : (Datum.int a).same d = true)
    (hb : (Datum.int b).same d = true) : a = b := by
  have hashable := Datum.hashable_of_same_int ha
  rw [Datum.same_eq_identity rfl hashable, decide_eq_true_eq] at ha hb
  have same := ha.trans hb.symm
  simpa [Datum.identity, Datum.magnitude?, Datum.int?, Decimal.Magnitude.ofInt] using same

/-- The question is about the repetition of that number. -/
def Question.isAbout (q : Question) (key : Datum) : Bool :=
  q.site?.any fun site => key.same site.index

theorem Question.isAbout_iff {q : Question} {key : Datum} :
    q.isAbout key = true ↔ ∃ site, q.site? = some site ∧ key.same site.index = true := by
  rw [isAbout]
  cases q.site? <;> simp

namespace Script

/-- Entries kept for integers, no two for the same one. -/
structure Keyed (reserved : List (Datum × Decision)) : Prop where
  integer : ∀ entry ∈ reserved, ∃ k : Int, entry.1 = .int k
  distinct : (reserved.map (·.1)).Nodup

theorem Keyed.key_eq {reserved : List (Datum × Decision)} (h : Keyed reserved) {q : Question}
    {a b : Datum × Decision} (ha : a ∈ reserved) (hb : b ∈ reserved)
    (aboutA : q.isAbout a.1 = true) (aboutB : q.isAbout b.1 = true) : a.1 = b.1 := by
  obtain ⟨m, keyA⟩ := h.integer a ha
  obtain ⟨n, keyB⟩ := h.integer b hb
  cases q with
  | repetition bounds site =>
    rw [keyA] at aboutA
    rw [keyB] at aboutB
    rw [keyA, keyB, Datum.int_unique aboutA aboutB]
  | _ => cases aboutA

theorem Keyed.eq_of_isAbout {reserved : List (Datum × Decision)} (h : Keyed reserved)
    {q : Question} {a b : Datum × Decision} (ha : a ∈ reserved) (hb : b ∈ reserved)
    (aboutA : q.isAbout a.1 = true) (aboutB : q.isAbout b.1 = true) : a = b :=
  List.inj_on_of_nodup_map h.distinct ha hb (h.key_eq ha hb aboutA aboutB)

theorem Keyed.unique {reserved : List (Datum × Decision)} (h : Keyed reserved) (q : Question) :
    reserved.Pairwise fun a b => q.isAbout a.1 = true → q.isAbout b.1 = true → False := by
  refine (List.pairwise_map.mp h.distinct).imp_of_mem ?_
  intro a b memberA memberB other aboutA aboutB
  exact other (h.key_eq memberA memberB aboutA aboutB)

theorem Keyed.perm {reserved moved : List (Datum × Decision)} (h : Keyed reserved)
    (perm : reserved.Perm moved) : Keyed moved where
  integer entry member := h.integer entry (perm.mem_iff.mpr member)
  distinct := (perm.map _).nodup_iff.mp h.distinct

theorem Keyed.sublist {reserved fewer : List (Datum × Decision)} (h : Keyed reserved)
    (sublist : fewer.Sublist reserved) : Keyed fewer where
  integer entry member := h.integer entry (sublist.subset member)
  distinct := h.distinct.sublist (sublist.map _)

/-- Of entries that satisfy a condition no two at a time, the order does not matter. -/
theorem find?_eq_of_perm {α : Type} {p : α → Bool} {xs ys : List α} (perm : xs.Perm ys)
    (unique : xs.Pairwise fun a b => p a = true → p b = true → False) :
    xs.find? p = ys.find? p := by
  induction perm with
  | nil => rfl
  | cons x _ ih =>
    rw [List.find?_cons, List.find?_cons, ih (List.pairwise_cons.mp unique).2]
  | swap x y xs =>
    have first := (List.pairwise_cons.mp unique).1 x (List.mem_cons_self ..)
    rw [List.find?_cons, List.find?_cons, List.find?_cons, List.find?_cons]
    cases hx : p x <;> cases hy : p y <;> simp_all
  | trans first _ ih ih' =>
    have symmetric {a b : α} (h : p a = true → p b = true → False) :
        p b = true → p a = true → False := fun hb ha => h ha hb
    exact (ih unique).trans (ih' ((first.pairwise_iff symmetric).mp unique))

theorem eraseP_eq_filter {α : Type} {p : α → Bool} {xs : List α}
    (unique : xs.Pairwise fun a b => p a = true → p b = true → False) :
    xs.eraseP p = xs.filter fun a => !p a := by
  induction xs with
  | nil => rfl
  | cons x xs ih =>
    obtain ⟨first, others⟩ := List.pairwise_cons.mp unique
    cases found : p x with
    | true =>
      have rest : ∀ a ∈ xs, (!p a) = true := fun a member => by
        simpa using first a member found
      rw [List.eraseP_cons_of_pos found, List.filter_cons_of_neg (by simp [found]),
        List.filter_eq_self.mpr rest]
    | false =>
      rw [List.eraseP_cons_of_neg (by simp [found]), List.filter_cons_of_pos (by simp [found]),
        ih others]

/-! ### One question -/

/-- How a question is answered: by the entry that is kept for it, if there is one, or by the first
entry of the queue, if that is of the right kind.  A question that fails leaves what is kept. -/
inductive Answers (s : Script) (q : Question) : Except Fault Datum → Script → Prop where
  | kept {entry : Datum × Decision} (member : entry ∈ s.reserved)
      (about : q.isAbout entry.1 = true) :
      Answers s q (.ok entry.2.value)
        { s with reserved := s.reserved.eraseP fun entry => q.isAbout entry.1
                 consumed := s.consumed + 1 }
  | queued {d : Decision} {rest : List Decision}
      (free : ∀ entry ∈ s.reserved, q.isAbout entry.1 = false) (queue : s.queue = d :: rest)
      (kind : d.kind = q.kind) :
      Answers s q (.ok (q.settled d.value)) { s with queue := rest, consumed := s.consumed + 1 }
  | failed {fault : Fault} {s' : Script}
      (free : ∀ entry ∈ s.reserved, q.isAbout entry.1 = false)
      (reserved : s'.reserved = s.reserved) : Answers s q (.error fault) s'

theorem next_cases (s : Script) (kind : DecisionKind) :
    (∃ d rest, s.queue = d :: rest ∧ d.kind = kind ∧
        s.next kind = (.ok d, { s with queue := rest, consumed := s.consumed + 1 })) ∨
      ∃ fault, s.next kind = (.error fault, s) := by
  unfold next
  split
  next => exact .inr ⟨_, rfl⟩
  next d rest queue =>
    by_cases same : d.kind = kind
    · rw [if_pos same]
      exact .inl ⟨d, rest, queue, same, rfl⟩
    · rw [if_neg same]
      cases d.label with
      | ok label => exact .inr ⟨_, rfl⟩
      | error fault => exact .inr ⟨_, rfl⟩

/-- Questions that use the queue and give the value of the entry, if they accept it. -/
theorem answers_next {s : Script} {q : Question} (judge : Decision → Except Fault Datum)
    (free : ∀ entry ∈ s.reserved, q.isAbout entry.1 = false)
    (judged : ∀ d, d.kind = q.kind →
      judge d = .ok (q.settled d.value) ∨ ∃ fault, judge d = .error fault) :
    Answers s q ((s.next q.kind).1.bind judge) (s.next q.kind).2 := by
  rcases next_cases s q.kind with ⟨d, rest, queue, kind, used⟩ | ⟨fault, failed⟩
  · rw [used, Except.bind]
    rcases judged d kind with accepted | ⟨fault, refused⟩
    · rw [accepted]
      exact .queued free queue kind
    · rw [refused]
      exact .failed free rfl
  · rw [failed]
    exact .failed free rfl

theorem offered_cases (candidates : Candidates) (d : Decision) :
    offered candidates d = .ok d.value ∨ ∃ fault, offered candidates d = .error fault := by
  simp only [offered, Bind.bind, Except.bind]
  cases candidates.contains d.value with
  | error fault => exact .inr ⟨fault, rfl⟩
  | ok on =>
    cases on with
    | true => exact .inl rfl
    | false => cases d.label <;> exact .inr ⟨_, rfl⟩

theorem takeReserved_of_hashable {s : Script} {site : Datum} (hashable : site.hashable = true) :
    s.takeReserved site = .ok ((s.reserved.find? (·.1.same site)).map fun entry =>
      (entry.2, { s with
        reserved := s.reserved.eraseP (·.1.same site), consumed := s.consumed + 1 })) := by
  have checked : site.requireHashable = .ok () := by rw [Datum.requireHashable, if_pos hashable]
  simp only [takeReserved, checked]
  cases s.reserved.isEmpty <;> cases s.reserved.find? (·.1.same site) <;> rfl

theorem takeReserved_of_unhashable {s : Script} {site : Datum} (unhashable : site.hashable = false)
    (some_kept : s.reserved ≠ []) :
    s.takeReserved site = .error (.unhashable site.kind) := by
  simp [takeReserved, some_kept, Datum.requireHashable, unhashable, Bind.bind, Except.bind]

theorem isAbout_of_unhashable {reserved : List (Datum × Decision)} (keyed : Keyed reserved)
    (bounds : Bounds) {site : RepetitionSite} (unhashable : site.index.hashable = false) :
    ∀ entry ∈ reserved, (Question.repetition bounds site).isAbout entry.1 = false := by
  intro entry member
  obtain ⟨k, key_eq⟩ := keyed.integer entry member
  rw [key_eq, Bool.eq_false_iff]
  intro about
  rw [Datum.hashable_of_same_int about] at unhashable
  cases unhashable

theorem ask_spec {s : Script} (keyed : Keyed s.reserved) (q : Question) :
    Answers s q (s.ask q).1 (s.ask q).2 := by
  have map_eq (answer : Except Fault Decision) (f : Decision → Datum) :
      answer.map f = answer.bind fun d => .ok (f d) := by cases answer <;> rfl
  cases q with
  | alternative count =>
    have answers := answers_next (s := s) (q := .alternative count) (fun d => .ok d.value)
      (fun _ _ => rfl) fun _ _ => .inl rfl
    rw [← map_eq] at answers
    exact answers
  | optional =>
    have answers := answers_next (s := s) (q := .optional)
      (fun d => .ok (.bool d.value.truthy)) (fun _ _ => rfl) fun _ _ => .inl rfl
    rw [← map_eq] at answers
    exact answers
  | codepoint candidates =>
    exact answers_next (q := .codepoint candidates) (offered candidates) (fun _ _ => rfl) fun d _ =>
      offered_cases candidates d
  | repetition bounds site =>
    have queued (free : ∀ entry ∈ s.reserved,
        (Question.repetition bounds site).isAbout entry.1 = false)
        (none_kept : s.takeReserved site.index = .ok none) :
        Answers s (.repetition bounds site) (s.ask (.repetition bounds site)).1
          (s.ask (.repetition bounds site)).2 := by
      have answers := answers_next (s := s) (q := .repetition bounds site) (fun d => .ok d.value)
        free fun _ _ => .inl rfl
      rw [← map_eq] at answers
      rw [ask, none_kept]
      exact answers
    by_cases hashable : site.index.hashable = true
    · have taken := takeReserved_of_hashable (s := s) hashable
      cases found : s.reserved.find? (·.1.same site.index) with
      | none =>
        rw [found] at taken
        refine queued ?_ taken
        intro entry member
        exact Bool.eq_false_iff.mpr (List.find?_eq_none.mp found entry member)
      | some entry =>
        rw [found] at taken
        have about : entry.1.same site.index = true :=
          List.find?_some (p := fun entry : Datum × Decision => entry.1.same site.index) found
        rw [ask, taken]
        exact .kept (List.mem_of_find?_eq_some found) about
    · have unhashable : site.index.hashable = false := Bool.eq_false_iff.mpr hashable
      have free := isAbout_of_unhashable keyed bounds unhashable
      by_cases none_kept : s.reserved = []
      · exact queued free (takeReserved_of_nil none_kept _)
      · rw [ask, takeReserved_of_unhashable unhashable none_kept]
        exact .failed free rfl

/-! ### Making a script -/

/-- The entries that are kept for a site, each with the site. -/
def kept (entries : List Decision) : List (Datum × Decision) :=
  entries.filterMap fun d => d.site.map (·, d)

/-- The entries that are used in order. -/
def unkept (entries : List Decision) : List Decision := entries.filter (·.site.isNone)

theorem kept_cons_of_none {d : Decision} (unkept : d.site = none) (rest : List Decision) :
    kept (d :: rest) = kept rest := by
  simp [kept, unkept]

theorem kept_cons_of_some {d : Decision} {site : Datum} (given : d.site = some site)
    (rest : List Decision) : kept (d :: rest) = (site, d) :: kept rest := by
  simp [kept, given]

theorem mem_kept {entries : List Decision} {site : Datum} {d : Decision} :
    (site, d) ∈ kept entries ↔ d ∈ entries ∧ d.site = some site := by
  simp only [kept, List.mem_filterMap, Option.map_eq_some_iff, Prod.mk.injEq]
  constructor
  · rintro ⟨_, member, _, given, rfl, rfl⟩
    exact ⟨member, given⟩
  · rintro ⟨member, given⟩
    exact ⟨d, member, site, given, rfl, rfl⟩

theorem any_kept (entries : List Decision) (q : Question) :
    ((kept entries).any fun entry => q.isAbout entry.1) =
      entries.any fun d => d.site.any q.isAbout := by
  induction entries with
  | nil => rfl
  | cons d rest ih =>
    cases given : d.site with
    | none => rw [kept_cons_of_none given, List.any_cons, given, ih]; rfl
    | some site => rw [kept_cons_of_some given, List.any_cons, List.any_cons, given, ih]; rfl

theorem Keyed.any_same {reserved : List (Datum × Decision)} (h : Keyed reserved) (k : Int) :
    (reserved.any fun entry => entry.1.same (.int k)) = true ↔ .int k ∈ reserved.map (·.1) := by
  rw [List.any_eq_true, List.mem_map]
  constructor
  · rintro ⟨entry, member, same⟩
    obtain ⟨m, key_eq⟩ := h.integer entry member
    rw [key_eq, Datum.same_int, decide_eq_true_eq] at same
    exact ⟨entry, member, by rw [key_eq, same]⟩
  · rintro ⟨entry, member, key_eq⟩
    exact ⟨entry, member, by rw [key_eq, Datum.same_int, decide_eq_true rfl]⟩

/-- An entry with an integer site is kept if it is for a repetition and no other one is kept for the
same site. -/
theorem add_kept {s : Script} {d : Decision} {k : Int} (keyed : Keyed s.reserved)
    (given : d.site = some (.int k)) :
    (d.kind = .repetition ∧ .int k ∉ s.reserved.map (·.1)) ∧
        s.add d = .ok { s with reserved := s.reserved ++ [(.int k, d)] } ∨
      ¬ (d.kind = .repetition ∧ .int k ∉ s.reserved.map (·.1)) ∧
        ∃ fault, s.add d = .error fault := by
  by_cases repetition : d.kind = .repetition
  · have hashable : (Datum.int k).requireHashable = .ok () := rfl
    by_cases taken : .int k ∈ s.reserved.map (·.1)
    · have any := (keyed.any_same k).mpr taken
      refine .inr ⟨fun ⟨_, free⟩ => free taken, (Fault.siteScriptedTwice (.int k)).told, ?_⟩
      simp only [add, given, repetition, hashable, any]
      rfl
    · have any : (s.reserved.any fun entry => entry.1.same (.int k)) = false :=
        Bool.eq_false_iff.mpr fun any => taken ((keyed.any_same k).mp any)
      refine .inl ⟨⟨repetition, taken⟩, ?_⟩
      simp only [add, given, repetition, hashable, any]
      rfl
  · refine .inr ⟨fun ⟨kind, _⟩ => repetition kind, ?_⟩
    rw [add, given]
    simp only [ne_eq, repetition, not_false_eq_true, if_true]
    cases d.label <;> exact ⟨_, rfl⟩

theorem Keyed.snoc {reserved : List (Datum × Decision)} (h : Keyed reserved) {k : Int}
    {d : Decision} (free : .int k ∉ reserved.map (·.1)) : Keyed (reserved ++ [(.int k, d)]) where
  integer entry member := by
    rcases List.mem_append.mp member with before | last
    · exact h.integer entry before
    · exact ⟨k, by rw [List.mem_singleton.mp last]⟩
  distinct := by
    rw [List.map_append, List.nodup_append]
    refine ⟨h.distinct, List.pairwise_singleton .., ?_⟩
    intro key member last isLast same
    rw [same, List.mem_singleton.mp isLast] at member
    exact free member

theorem addAll_eq_ok {entries : List Decision} {s s' : Script}
    (integer : ∀ entry ∈ kept entries, ∃ k : Int, entry.1 = .int k) (keyed : Keyed s.reserved) :
    addAll (entries.map .inr) s = .ok s' ↔
      ((∀ entry ∈ kept entries, entry.2.kind = .repetition) ∧ Keyed (s.reserved ++ kept entries)) ∧
        s' = { s with queue := s.queue ++ unkept entries
                      reserved := s.reserved ++ kept entries } := by
  induction entries generalizing s with
  | nil => simp [addAll, kept, unkept, keyed, eq_comm]
  | cons d rest ih =>
    rw [List.map_cons, addAll]
    cases given : d.site with
    | none =>
      have added : s.add d = .ok { s with queue := s.queue ++ [d] } := by rw [add, given]
      have more : unkept (d :: rest) = d :: unkept rest := by simp [unkept, given]
      rw [kept_cons_of_none given] at integer ⊢
      rw [added, more]
      have further := ih (s := { s with queue := s.queue ++ [d] }) integer keyed
      simpa [Bind.bind, Except.bind] using further
    | some site =>
      rw [kept_cons_of_some given] at integer ⊢
      obtain ⟨k, rfl⟩ : ∃ k : Int, site = .int k := integer _ (List.mem_cons_self ..)
      have less : unkept (d :: rest) = unkept rest := by simp [unkept, given]
      rw [less]
      rcases add_kept keyed given with ⟨⟨repetition, free⟩, added⟩ | ⟨unfit, fault, refused⟩
      · have further := ih (s := { s with reserved := s.reserved ++ [(.int k, d)] })
          (fun entry member => integer entry (List.mem_cons_of_mem _ member)) (keyed.snoc free)
        rw [added]
        simpa [Bind.bind, Except.bind, repetition] using further
      · rw [refused]
        constructor
        · rintro ⟨⟩
        · rintro ⟨⟨repetitions, all⟩, _⟩
          refine absurd ⟨repetitions _ (List.mem_cons_self ..), ?_⟩ unfit
          have distinct := all.distinct
          rw [List.map_append, List.nodup_append] at distinct
          intro member
          exact distinct.2.2 _ member _ (List.mem_cons_self ..) rfl

theorem ofDecisions_eq_ok {entries : List Decision} {s : Script}
    (integer : ∀ entry ∈ kept entries, ∃ k : Int, entry.1 = .int k) :
    ofDecisions entries = .ok s ↔
      ((∀ entry ∈ kept entries, entry.2.kind = .repetition) ∧ Keyed (kept entries)) ∧
        s = { queue := unkept entries, reserved := kept entries } := by
  have none_yet : Keyed ({} : Script).reserved := ⟨nofun, List.nodup_nil⟩
  rw [ofDecisions, ofEntries, addAll_eq_ok integer none_yet]
  rfl

/-! ### A whole transcript -/

/-- The entry was used for a question that was asked. -/
def Used (d : Decision) (asked : Question × Except Fault Datum) : Prop :=
  d.kind = asked.1.kind ∧ asked.2 = .ok (asked.1.settled d.value)

/-- What became of the entries of a script: the first question about a site used what was kept for
it, and all other questions used the queue, in order. -/
structure Serves (entries : List Decision) (t : Transcript Script) : Prop where
  reserved_eq : t.inner.reserved =
    (kept entries).filter fun entry => !t.log.any fun asked => asked.1.isAbout entry.1
  kept_eq : ∀ entry ∈ kept entries,
    ∀ asked ∈ t.log.find? fun asked => asked.1.isAbout entry.1, asked.2 = .ok entry.2.value
  queue_eq : t.Served →
    (∀ entry ∈ kept entries, (t.log.filter fun asked => asked.1.isAbout entry.1).length ≤ 1) →
    ∃ used, unkept entries = used ++ t.inner.queue ∧ List.Forall₂ Used used
      (t.log.filter fun asked => !(kept entries).any fun entry => asked.1.isAbout entry.1)

namespace Serves

variable {entries : List Decision} {t : Transcript Script}

theorem mem_reserved (h : Serves entries t) {entry : Datum × Decision} :
    entry ∈ t.inner.reserved ↔
      entry ∈ kept entries ∧ ∀ asked ∈ t.log, asked.1.isAbout entry.1 = false := by
  rw [h.reserved_eq, List.mem_filter, Bool.not_eq_true', List.any_eq_false]
  simp only [Bool.not_eq_true]

theorem start {s : Script} (queue : s.queue = unkept entries)
    (reserved : s.reserved = kept entries) : Serves entries { inner := s } where
  reserved_eq := by simp [reserved]
  kept_eq := by simp
  queue_eq _ _ := ⟨[], by simp [queue], .nil⟩

/-- What is kept and not asked about is what the question did not use. -/
theorem filter_snoc (keyed : List (Datum × Decision)) (log : List (Question × Except Fault Datum))
    (asked : Question × Except Fault Datum) :
    (keyed.filter fun entry => !(log ++ [asked]).any fun asked => asked.1.isAbout entry.1) =
      (keyed.filter fun entry => !log.any fun asked => asked.1.isAbout entry.1).filter
        fun entry => !asked.1.isAbout entry.1 := by
  rw [List.filter_filter]
  apply List.filter_congr
  intro entry _
  simp [Bool.and_comm]

theorem reserved_of_free (h : Serves entries t) {q : Question} (answer : Except Fault Datum)
    (free : ∀ entry ∈ t.inner.reserved, q.isAbout entry.1 = false) :
    t.inner.reserved = (kept entries).filter fun entry =>
      !(t.log ++ [(q, answer)]).any fun asked => asked.1.isAbout entry.1 := by
  have unused : ∀ entry ∈ t.inner.reserved, (!q.isAbout entry.1) = true := fun entry member => by
    simp [free entry member]
  rw [filter_snoc, ← h.reserved_eq, List.filter_eq_self.mpr unused]

/-- The first question about a site is answered by what is kept for it, if the last one is. -/
theorem kept_snoc (h : Serves entries t) {q : Question} {answer : Except Fault Datum}
    (last : ∀ entry ∈ t.inner.reserved, q.isAbout entry.1 = true →
      answer = .ok entry.2.value) :
    ∀ entry ∈ kept entries,
      ∀ asked ∈ (t.log ++ [(q, answer)]).find? fun asked => asked.1.isAbout entry.1,
        asked.2 = .ok entry.2.value := by
  intro entry member asked found
  cases before : t.log.find? fun asked => asked.1.isAbout entry.1 with
  | some first =>
    rw [List.find?_append, before, Option.some_or] at found
    exact h.kept_eq entry member asked (before.trans found)
  | none =>
    have still : entry ∈ t.inner.reserved := by
      refine h.mem_reserved.mpr ⟨member, fun asked member => ?_⟩
      exact Bool.eq_false_iff.mpr (List.find?_eq_none.mp before asked member)
    rw [List.find?_append, before, Option.none_or, List.find?_singleton] at found
    split at found
    next about =>
      cases found
      exact last entry still about
    next => cases found

/-- If no site is asked about twice, a question that finds nothing kept is about nothing that ever
was. -/
theorem unkept_of_free (h : Serves entries t) {q : Question} {answer : Except Fault Datum}
    (free : ∀ entry ∈ t.inner.reserved, q.isAbout entry.1 = false)
    (once : ∀ entry ∈ kept entries,
      ((t.log ++ [(q, answer)]).filter fun asked => asked.1.isAbout entry.1).length ≤ 1) :
    ((kept entries).any fun entry => q.isAbout entry.1) = false := by
  rw [List.any_eq_false]
  intro entry member about
  have before : ∃ asked ∈ t.log, asked.1.isAbout entry.1 = true := by
    by_contra never
    have still := h.mem_reserved.mpr ⟨member, fun asked earlier =>
      Bool.eq_false_iff.mpr fun about => never ⟨asked, earlier, about⟩⟩
    rw [free entry still] at about
    cases about
  obtain ⟨asked, earlier, aboutToo⟩ := before
  have listed : asked ∈ t.log.filter fun asked => asked.1.isAbout entry.1 :=
    List.mem_filter.mpr ⟨earlier, aboutToo⟩
  have counted := List.length_pos_of_mem listed
  have twice := once entry member
  simp only [List.filter_append, List.length_append, List.filter_cons, about, if_true,
    List.filter_nil, List.length_cons, List.length_nil] at twice
  omega

theorem served_of_snoc {q : Question} {answer : Except Fault Datum} {inner : Script}
    (served : ({ inner, log := t.log ++ [(q, answer)] } : Transcript Script).Served) :
    t.Served ∧ ∃ value, answer = .ok value := by
  constructor
  · exact fun asked member => served asked (List.mem_append_left _ member)
  · exact served (q, answer) (List.mem_append_right _ (List.mem_singleton_self _))

theorem ask (keyed : Keyed (kept entries)) (h : Serves entries t) (q : Question) :
    Serves entries (DecisionSource.ask q t).2 := by
  have reserved : Keyed t.inner.reserved := by
    rw [h.reserved_eq]
    exact keyed.sublist List.filter_sublist
  have answers : Answers t.inner q (DecisionSource.ask q t.inner).1
      (DecisionSource.ask q t.inner).2 := ask_spec reserved q
  have shorter {answer : Except Fault Datum} (once : ∀ entry ∈ kept entries,
      ((t.log ++ [(q, answer)]).filter fun asked => asked.1.isAbout entry.1).length ≤ 1) :
      ∀ entry ∈ kept entries,
        (t.log.filter fun asked => asked.1.isAbout entry.1).length ≤ 1 := by
    intro entry member
    have counted := once entry member
    rw [List.filter_append, List.length_append] at counted
    omega
  rw [Transcript.ask_eq]
  revert answers
  generalize DecisionSource.ask q t.inner = asked
  obtain ⟨answer, inner⟩ := asked
  intro answers
  cases answers with
  | @kept entry member about =>
    refine ⟨?_, h.kept_snoc fun other memberOther aboutOther => ?_, fun served once => ?_⟩
    · rw [filter_snoc, ← h.reserved_eq]
      exact eraseP_eq_filter (reserved.unique q)
    · rw [reserved.eq_of_isAbout member memberOther about aboutOther]
    · obtain ⟨used, split, uses⟩ := h.queue_eq (served_of_snoc served).1 (shorter once)
      have skipped : ((Script.kept entries).any fun entry => q.isAbout entry.1) = true :=
        List.any_eq_true.mpr ⟨entry, (h.mem_reserved.mp member).1, about⟩
      refine ⟨used, split, ?_⟩
      rw [List.filter_append, List.filter_cons_of_neg (by simp [skipped]), List.filter_nil,
        List.append_nil]
      exact uses
  | @queued d rest free queue kind =>
    refine ⟨h.reserved_of_free _ free, h.kept_snoc fun other memberOther aboutOther => ?_,
      fun served once => ?_⟩
    · rw [free other memberOther] at aboutOther
      cases aboutOther
    · obtain ⟨used, split, uses⟩ := h.queue_eq (served_of_snoc served).1 (shorter once)
      have unkept := h.unkept_of_free free once
      refine ⟨used ++ [d], ?_, ?_⟩
      · rw [split, queue, List.append_assoc]
        rfl
      · rw [List.filter_append, List.filter_cons_of_pos (by simp [unkept]), List.filter_nil]
        exact List.rel_append uses (.cons ⟨kind, rfl⟩ .nil)
  | failed free same =>
    refine ⟨?_, h.kept_snoc fun entry member about => ?_, fun served => ?_⟩
    · exact same.trans (h.reserved_of_free _ free)
    · rw [free entry member] at about
      cases about
    · obtain ⟨_, _, ⟨⟩⟩ := served_of_snoc served

end Serves

/-! ### Moving what is kept -/

/-- The same script, what is kept lying in another order. -/
structure Moved (s s' : Script) : Prop where
  keyed : Keyed s.reserved
  queue_eq : s'.queue = s.queue
  consumed_eq : s'.consumed = s.consumed
  reserved : s.reserved.Perm s'.reserved

/-- Entries may be put in another order: what is kept is then kept all the same, and the queue is
the old one when the order among the other entries is. -/
theorem Moved.of_perm {entries moved : List Decision} {script : Script}
    (integer : ∀ entry ∈ kept entries, ∃ k : Int, entry.1 = .int k)
    (scripted : ofDecisions entries = .ok script) (perm : moved.Perm entries)
    (same : unkept moved = unkept entries) :
    ∃ script', ofDecisions moved = .ok script' ∧ Moved script script' := by
  obtain ⟨⟨repetitions, keyed⟩, rfl⟩ := (ofDecisions_eq_ok integer).mp scripted
  have permKept : (kept entries).Perm (kept moved) := perm.symm.filterMap _
  have integer' : ∀ entry ∈ kept moved, ∃ k : Int, entry.1 = .int k :=
    fun entry member => integer entry (permKept.mem_iff.mpr member)
  have repetitions' : ∀ entry ∈ kept moved, entry.2.kind = .repetition :=
    fun entry member => repetitions entry (permKept.mem_iff.mpr member)
  exact ⟨_, (ofDecisions_eq_ok integer').mpr ⟨⟨repetitions', keyed.perm permKept⟩, rfl⟩,
    keyed, same, rfl, permKept⟩

theorem Moved.next {s s' : Script} (h : Moved s s') (kind : DecisionKind) :
    (s'.next kind).1 = (s.next kind).1 ∧ Moved (s.next kind).2 (s'.next kind).2 := by
  rw [Script.next, Script.next, h.queue_eq, h.consumed_eq]
  cases s.queue with
  | nil => exact ⟨rfl, h⟩
  | cons d rest =>
    by_cases same : d.kind = kind
    · simp only [if_pos same, true_and]
      exact ⟨h.keyed, rfl, rfl, h.reserved⟩
    · simp only [if_neg same]
      cases d.label with
      | ok label => exact ⟨rfl, h⟩
      | error fault => exact ⟨rfl, h⟩

/-- What is kept for a site is found in either order. -/
theorem Moved.takeReserved {s s' : Script} (h : Moved s s') (bounds : Bounds)
    (site : RepetitionSite) :
    (∃ fault, s.takeReserved site.index = .error fault ∧
        s'.takeReserved site.index = .error fault) ∨
      (s.takeReserved site.index = .ok none ∧ s'.takeReserved site.index = .ok none) ∨
      ∃ d t t', s.takeReserved site.index = .ok (some (d, t)) ∧
        s'.takeReserved site.index = .ok (some (d, t')) ∧ Moved t t' := by
  have unique := h.keyed.unique (.repetition bounds site)
  by_cases hashable : site.index.hashable = true
  · have found_eq : s.reserved.find? (·.1.same site.index) =
        s'.reserved.find? (·.1.same site.index) := find?_eq_of_perm h.reserved unique
    rw [takeReserved_of_hashable hashable, takeReserved_of_hashable hashable, ← found_eq]
    cases s.reserved.find? (·.1.same site.index) with
    | none => exact .inr (.inl ⟨rfl, rfl⟩)
    | some entry =>
      refine .inr (.inr ⟨entry.2, _, _, rfl, rfl, h.keyed.sublist List.eraseP_sublist,
        h.queue_eq, congrArg (· + 1) h.consumed_eq, h.reserved.eraseP _ unique⟩)
  · have unhashable : site.index.hashable = false := Bool.eq_false_iff.mpr hashable
    by_cases none_kept : s.reserved = []
    · have none_kept' : s'.reserved = [] := by
        have perm := h.reserved
        rw [none_kept] at perm
        exact perm.nil_eq.symm
      exact .inr (.inl ⟨takeReserved_of_nil none_kept _, takeReserved_of_nil none_kept' _⟩)
    · have some_kept : s'.reserved ≠ [] := by
        intro empty
        have perm := h.reserved
        rw [empty] at perm
        exact none_kept perm.eq_nil
      exact .inl ⟨_, takeReserved_of_unhashable unhashable none_kept,
        takeReserved_of_unhashable unhashable some_kept⟩

theorem companions_moved : Companions Moved fun (_ : Script) _ => False where
  asked := by
    intro s s' q h
    left
    change (s'.ask q).1 = (s.ask q).1 ∧ Moved (s.ask q).2 (s'.ask q).2
    cases q with
    | alternative count =>
      have next := h.next .alternative
      exact ⟨congrArg (Except.map Decision.value) next.1, next.2⟩
    | optional =>
      have next := h.next .optional
      exact ⟨congrArg (Except.map fun d : Decision => Datum.bool d.value.truthy) next.1, next.2⟩
    | codepoint candidates =>
      have next := h.next .codepoint
      exact ⟨congrArg (Except.bind · (offered candidates)) next.1, next.2⟩
    | repetition bounds site =>
      rw [ask, ask]
      rcases h.takeReserved bounds site with
        ⟨fault, failed, failed'⟩ | ⟨none_kept, none_kept'⟩ | ⟨d, t, t', taken, taken', moved⟩
      · rw [failed, failed']
        exact ⟨rfl, h⟩
      · have next := h.next .repetition
        rw [none_kept, none_kept']
        exact ⟨congrArg (Except.map Decision.value) next.1, next.2⟩
      · rw [taken, taken']
        exact ⟨rfl, moved⟩
  stays _ lost := lost
  ordinary lost := lost.elim

end Script

end SentenceGen
