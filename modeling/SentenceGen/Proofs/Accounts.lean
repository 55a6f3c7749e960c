import Mathlib.Data.List.ReduceOption
import SentenceGen.Proofs.Turns

/-!
# What becomes of the entries of a script

An account tells of every question which entry it used up, by the place of the entry in the script.
The script holds the entries that were not used, so none is lost and none comes back.  What is kept
for a site goes to the first question about it, and everything else goes in order.
-/

namespace SentenceGen

namespace Script

/-- The script holds these entries, which are given with their places. -/
structure Holds (left : List (Decision × Nat)) (s : Script) : Prop where
  queue_eq : s.queue = unkept (left.map (·.1))
  reserved_eq : s.reserved = kept (left.map (·.1))

/-- Entries at different places; those that are kept are repetitions for different sites. -/
structure Orderly (left : List (Decision × Nat)) : Prop where
  places : (left.map (·.2)).Nodup
  repetitions : ∀ entry ∈ kept (left.map (·.1)), entry.2.kind = .repetition
  isSet : Datum.IsSet ((kept (left.map (·.1))).map (·.1))

theorem Orderly.sublist {left fewer : List (Decision × Nat)} (h : Orderly left)
    (sublist : fewer.Sublist left) : Orderly fewer where
  places := h.places.sublist (sublist.map _)
  repetitions entry member := h.repetitions entry (((sublist.map _).filterMap _).subset member)
  isSet := h.isSet.sublist (((sublist.map _).filterMap _).map _)

/-- The places of the entries that are used in order. -/
def unkeptPlaces (left : List (Decision × Nat)) : List Nat :=
  (left.filter (·.1.site.isNone)).map (·.2)

/-- What one question uses up of the entries that are left: the entry at a place, or nothing. -/
structure Spends (left : List (Decision × Nat)) (s : Script) (q : Question) (use : Option Nat) :
    Prop where
  /-- The script holds what else was left. -/
  holds : Holds (left.filter fun e => some e.2 ≠ use) (s.ask q).2
  consumed_eq : (s.ask q).2.consumed = s.consumed + use.toList.length
  /-- An entry that is kept for a site is used by the questions about it and by no others. -/
  kept_iff : ∀ e ∈ left, ∀ key ∈ e.1.site, use = some e.2 ↔ q.isAbout key = true
  /-- Of the other entries the first one is used. -/
  first : ∀ place ∈ use, place ∈ unkeptPlaces left → (unkeptPlaces left).head? = some place
  /-- What is used is of the right kind and makes the answer. -/
  replied : ∀ place ∈ use, ∃ d, (d, place) ∈ left ∧ d.kind = q.kind ∧ (s.ask q).1 = q.reply d
  /-- A question that uses nothing fails and leaves the script as it was. -/
  refused : use = none → (s.ask q).2 = s ∧ ∃ fault, (s.ask q).1 = .error fault
  /-- A question that nothing is kept for uses nothing if the queue is empty or begins with another
  kind of entry. -/
  unavailable : s.Free q → (∀ d ∈ s.queue.head?, d.kind ≠ q.kind) → use = none
  /-- Otherwise it uses the first entry of the queue, even if the answer is then refused. -/
  taken : s.Free q → ∀ d ∈ s.queue.head?, d.kind = q.kind → ∃ place, use = some place ∧
    (d, place) ∈ left

/-- What some questions used up of the entries that were left before them: for each question the
place of an entry, or nothing. -/
structure Account (left : List (Decision × Nat)) (s : Script) (questions : List Question)
    (uses : List (Option Nat)) : Prop where
  length_eq : uses.length = questions.length
  /-- At every moment the script holds what was not used before. -/
  holds (n : Nat) :
    Holds (left.filter fun e => some e.2 ∉ uses.take n) (s.after (questions.take n))
  consumed_eq (n : Nat) :
    (s.after (questions.take n)).consumed = s.consumed + (uses.take n).reduceOption.length
  each (n : Nat) (q : Question) : questions[n]? = some q → ∃ use, uses[n]? = some use ∧
    Spends (left.filter fun e => some e.2 ∉ uses.take n) (s.after (questions.take n)) q use
  /-- No entry is used twice. -/
  once : uses.reduceOption.Nodup
  /-- The entries that are kept for no site are used in order, and none is passed over. -/
  in_order : (uses.reduceOption.filter (· ∈ unkeptPlaces left)) <+: unkeptPlaces left
  /-- An entry that is kept for a site is used by the first question about it. -/
  kept_first : ∀ e ∈ left, ∀ key ∈ e.1.site,
    uses.findIdx? (· == some e.2) = questions.findIdx? (·.isAbout key)

/-! ### One question -/

section

variable {front back left : List (Decision × Nat)} {d : Decision} {place : Nat} {s : Script}
  {q : Question}

theorem unkeptPlaces_append (front back : List (Decision × Nat)) :
    unkeptPlaces (front ++ back) = unkeptPlaces front ++ unkeptPlaces back := by
  simp only [unkeptPlaces, List.filter_append, List.map_append]

theorem places_of_middle (places : ((front ++ (d, place) :: back).map (·.2)).Nodup) :
    place ∉ (front ++ back).map (·.2) := by
  rw [List.map_append, List.map_cons, List.nodup_middle, List.nodup_cons, ← List.map_append]
    at places
  exact places.1

theorem filter_place (places : ((front ++ (d, place) :: back).map (·.2)).Nodup) :
    (front ++ (d, place) :: back).filter (fun e => some e.2 ≠ some place) = front ++ back := by
  have others : ∀ e ∈ front ++ back, e.2 ≠ place := by
    rintro e member rfl
    exact places_of_middle places (List.mem_map_of_mem member)
  rw [List.forall_mem_append] at others
  simp only [ne_eq, Option.some.injEq, List.filter_append, List.filter_cons, not_true_eq_false,
    decide_false, Bool.false_eq_true, if_false]
  rw [List.filter_eq_self.mpr (by simpa using others.1),
    List.filter_eq_self.mpr (by simpa using others.2)]

/-- What is kept beside the entry for a question is kept for other questions. -/
theorem others_of_about {before behind : List (Datum × Decision)} {entry : Datum × Decision}
    (isSet : Datum.IsSet ((before ++ entry :: behind).map (·.1)))
    (about : q.isAbout entry.1 = true) :
    ∀ other ∈ before ++ behind, q.isAbout other.1 = false := by
  have unique := List.pairwise_map.mp (isSet.unique q)
  obtain ⟨_, later, across⟩ := List.pairwise_append.mp unique
  rw [List.forall_mem_append]
  constructor
  · intro other member
    rw [Bool.eq_false_iff]
    exact fun too => across other member entry (List.mem_cons_self ..) too about
  · intro other member
    rw [Bool.eq_false_iff]
    exact fun too => (List.pairwise_cons.mp later).1 other member about too

theorem Holds.mem_reserved (h : Holds left s) {e : Decision × Nat} (member : e ∈ left)
    {key : Datum} (given : e.1.site = some key) : (key, e.1) ∈ s.reserved := by
  rw [h.reserved_eq]
  exact mem_kept.mpr ⟨List.mem_map_of_mem member, given⟩

/-- A question that fails and leaves the script as it was spends nothing. -/
theorem Holds.spends_none (h : Holds left s) {fault : Fault}
    (none_kept : ∀ entry ∈ s.reserved, q.isAbout entry.1 = false)
    (other : s.Free q → ∀ d ∈ s.queue.head?, d.kind ≠ q.kind)
    (failed : (s.ask q).1 = .error fault) (same : (s.ask q).2 = s) : Spends left s q none where
  holds := by
    rw [same, List.filter_eq_self.mpr (by simp)]
    exact h
  consumed_eq := by rw [same]; rfl
  kept_iff e member key given := by
    simp [none_kept _ (h.mem_reserved member given)]
  first := nofun
  replied := nofun
  refused _ := ⟨same, fault, failed⟩
  unavailable _ _ := rfl
  taken free d first kind := absurd kind (other free d first)

/-- A question that is answered by one entry, and by the only one that is kept for it, if any is,
spends that entry. -/
theorem spends_some (places : ((front ++ (d, place) :: back).map (·.2)).Nodup)
    (holds : Holds (front ++ back) (s.ask q).2) (consumed : (s.ask q).2.consumed = s.consumed + 1)
    (itself : ∀ key ∈ d.site, q.isAbout key = true)
    (others : ∀ e ∈ front ++ back, ∀ key ∈ e.1.site, q.isAbout key = false)
    (first : d.site = none → unkeptPlaces front = [])
    (kind : d.kind = q.kind) (answer : (s.ask q).1 = q.reply d)
    (head : s.Free q → s.queue.head? = some d) :
    Spends (front ++ (d, place) :: back) s q (some place) where
  holds := by
    rw [filter_place places]
    exact holds
  consumed_eq := consumed
  kept_iff e member key given := by
    rcases List.mem_cons.mp (List.perm_middle.mem_iff.mp member) with rfl | other
    · simp [itself key given]
    · have elsewhere : place ≠ e.2 := by
        rintro rfl
        exact places_of_middle places (List.mem_map_of_mem (f := (·.2)) other)
      simp [elsewhere, others e other key given]
  first place' same member := by
    obtain rfl := Option.some.inj same
    cases given : d.site with
    | none =>
      have begins : unkeptPlaces ((d, place) :: back) = place :: unkeptPlaces back := by
        simp [unkeptPlaces, given]
      rw [unkeptPlaces_append, first given, List.nil_append, begins, List.head?_cons]
    | some key =>
      refine absurd ?_ (places_of_middle places)
      obtain ⟨e, listed, at_place⟩ := List.mem_map.mp member
      obtain ⟨within, is_unkept⟩ := List.mem_filter.mp listed
      rcases List.mem_cons.mp (List.perm_middle.mem_iff.mp within) with rfl | other
      · simp [given] at is_unkept
      · exact at_place ▸ List.mem_map_of_mem other
  replied place' same := by
    obtain rfl := Option.some.inj same
    exact ⟨d, by simp, kind, answer⟩
  refused := nofun
  unavailable free other := absurd kind (other d (head free))
  taken free d' same _ := by
    obtain rfl := Option.some.inj ((head free).symm.trans same)
    exact ⟨place, rfl, by simp⟩

/-- A question about a site for which an entry is kept spends that entry. -/
theorem Holds.spends_kept (h : Holds left s) (orderly : Orderly left)
    {entry : Datum × Decision} (member : entry ∈ s.reserved) (about : q.isAbout entry.1 = true)
    (answer : (s.ask q).1 = q.reply entry.2)
    (erased : (s.ask q).2 = { s with reserved := s.reserved.eraseP fun entry => q.isAbout entry.1
                                     consumed := s.consumed + 1 }) :
    ∃ use, Spends left s q use := by
  obtain ⟨key, d⟩ := entry
  have kind := orderly.repetitions _ (h.reserved_eq ▸ member)
  have isSet := orderly.isSet
  obtain ⟨listed, given⟩ := mem_kept.mp (h.reserved_eq ▸ member)
  obtain ⟨⟨d, place⟩, within, rfl⟩ := List.mem_map.mp listed
  change d.site = some key at given
  obtain ⟨front, back, rfl⟩ := List.append_of_mem within
  obtain ⟨queue, reserved⟩ := h
  rw [List.map_append, List.map_cons] at queue reserved isSet
  rw [kept_append, kept_cons_of_some given] at reserved isSet
  rw [unkept_append, unkept_cons_of_some given, ← unkept_append, ← List.map_append] at queue
  have others := others_of_about isSet about
  have before := (List.forall_mem_append.mp others).1
  rw [← kept_append, ← List.map_append] at others
  refine ⟨some place, spends_some orderly.places ⟨?_, ?_⟩ ?_ ?_ ?_ ?_ ?_ answer ?_⟩
  · rw [erased]
    exact queue
  · rw [erased, List.map_append, kept_append]
    change s.reserved.eraseP _ = _
    rw [reserved, List.eraseP_append_right _ fun other member =>
      Bool.eq_false_iff.mp (before other member)]
    exact congrArg _ (List.eraseP_cons_of_pos about)
  · rw [erased]
  · intro key' same
    obtain rfl := Option.some.inj (given.symm.trans same)
    exact about
  · intro e other key' same
    exact others _ (mem_kept.mpr ⟨List.mem_map_of_mem other, same⟩)
  · rw [given]
    nofun
  · rw [Question.kind_of_isAbout about]
    exact kind
  · intro free
    rw [free.none_kept _ member] at about
    cases about

/-- A question that nothing is kept for spends the first entry of the queue, if it is of the right
kind. -/
theorem Holds.spends_queued (h : Holds left s) (orderly : Orderly left) {rest : List Decision}
    (free : s.Free q) (queue : s.queue = d :: rest) (kind : d.kind = q.kind) :
    ∃ use, Spends left s q use := by
  have asked := ask_of_kind free queue kind
  -- The entries before the first one in the queue are all kept.
  obtain ⟨before, behind, split, all_kept, is_unkept, rest_eq⟩ :=
    List.filter_eq_cons_iff.mp (h.queue_eq.symm.trans queue)
  obtain ⟨front, _, rfl, rfl, later⟩ := List.map_eq_append_iff.mp split
  obtain ⟨⟨d, place⟩, back, rfl, rfl, rfl⟩ := List.map_eq_cons_iff.mp later
  have no_site : d.site = none := by simpa using is_unkept
  have reserved := h.reserved_eq
  rw [List.map_append, List.map_cons, kept_append, kept_cons_of_none no_site, ← kept_append,
    ← List.map_append] at reserved
  refine ⟨some place, spends_some orderly.places ⟨?_, ?_⟩ ?_ ?_ ?_ ?_ kind ?_ ?_⟩
  · rw [asked, List.map_append, unkept_append]
    have none_unkept : unkept (front.map (·.1)) = [] := List.filter_eq_nil_iff.mpr all_kept
    rw [none_unkept]
    exact rest_eq.symm
  · rw [asked]
    exact reserved
  · rw [asked]
  · rw [no_site]
    nofun
  · intro e other key given
    refine free.none_kept (key, e.1) ?_
    rw [reserved]
    exact mem_kept.mpr ⟨List.mem_map_of_mem other, given⟩
  · intro _
    rw [unkeptPlaces, List.filter_eq_nil_iff.mpr fun e member =>
      all_kept e.1 (List.mem_map_of_mem member)]
    rfl
  · rw [asked]
  · intro _
    rw [queue]
    rfl

/-- What a question does to the script that holds the entries that are left. -/
theorem Holds.spends (h : Holds left s) (orderly : Orderly left) (q : Question) :
    ∃ use, Spends left s q use := by
  have taken := turn s q
  generalize answer_eq : (s.ask q).1 = answer at taken
  generalize left_eq : (s.ask q).2 = s' at taken
  cases taken with
  | kept member about => exact h.spends_kept orderly member about answer_eq left_eq
  | queued free queue kind => exact h.spends_queued orderly free queue kind
  | exhausted free queue =>
    refine ⟨none, h.spends_none free.none_kept (fun _ d first => ?_) answer_eq left_eq⟩
    rw [queue] at first
    cases first
  | mismatched free queue other | unlabelled free queue other =>
    refine ⟨none, h.spends_none free.none_kept (fun _ d first => ?_) answer_eq left_eq⟩
    rw [queue] at first
    obtain rfl := Option.some.inj first
    exact other
  | unhashable asked unhashable some_kept =>
    have none_kept := none_about_of_unhashable (h.reserved_eq ▸ orderly.isSet) asked unhashable
    refine ⟨none, h.spends_none none_kept (fun free _ _ => ?_) answer_eq left_eq⟩
    rcases free.looked_up _ asked with hashable | empty
    · rw [unhashable] at hashable
      cases hashable
    · exact absurd empty some_kept

end

/-! ### Any number of questions -/

namespace Account

variable {left : List (Decision × Nat)} {s : Script} {q : Question} {use : Option Nat}
  {questions : List Question} {uses : List (Option Nat)}

theorem mem_of_use (h : Account left s questions uses) {place : Nat} (used : some place ∈ uses) :
    ∃ d, (d, place) ∈ left := by
  obtain ⟨n, here⟩ := List.mem_iff_getElem?.mp used
  have asked : n < questions.length := by
    rw [← h.length_eq]
    exact (List.getElem?_eq_some_iff.mp here).1
  obtain ⟨use, same, spends⟩ := h.each n _ (List.getElem?_eq_getElem asked)
  obtain rfl := Option.some.inj (same.symm.trans here)
  obtain ⟨d, member, _⟩ := spends.replied place rfl
  exact ⟨d, (List.mem_filter.mp member).1⟩

theorem unkeptPlaces_filter (left : List (Decision × Nat)) (use : Option Nat) :
    unkeptPlaces (left.filter fun e => some e.2 ≠ use) =
      (unkeptPlaces left).filter fun place => some place ≠ use := by
  simp only [unkeptPlaces, List.filter_map, List.filter_filter, Function.comp_def, Bool.and_comm]

theorem nil (h : Holds left s) : Account left s [] [] where
  length_eq := rfl
  holds n := by simpa [after] using h
  consumed_eq n := by simp [after]
  each n q := nofun
  once := List.nodup_nil
  in_order := List.nil_prefix
  kept_first e member key given := rfl

theorem filter_uses_cons (left : List (Decision × Nat)) (use : Option Nat)
    (uses : List (Option Nat)) : (left.filter fun e => some e.2 ∉ use :: uses) =
      (left.filter fun e => some e.2 ≠ use).filter fun e => some e.2 ∉ uses := by
  rw [List.filter_filter]
  exact List.filter_congr fun e _ => by simp [Bool.and_comm]

/-- The first use is not among the later ones. -/
theorem not_mem_later {place : Nat}
    (later : Account (left.filter fun e => some e.2 ≠ some place) s questions uses) :
    place ∉ uses.reduceOption := by
  intro again
  obtain ⟨d, member⟩ := later.mem_of_use (List.reduceOption_mem_iff.mp again)
  simp at member

theorem in_order_cons (orderly : Orderly left) (first : Spends left s q use) {s' : Script}
    (later : Account (left.filter fun e => some e.2 ≠ use) s' questions uses) :
    ((use :: uses).reduceOption.filter (· ∈ unkeptPlaces left)) <+: unkeptPlaces left := by
  have in_order := later.in_order
  rw [unkeptPlaces_filter] at in_order
  cases use with
  | none => simpa [List.reduceOption_cons_of_none] using in_order
  | some place =>
    have fresh := later.not_mem_later
    have same_uses : (uses.reduceOption.filter
          (· ∈ (unkeptPlaces left).filter fun p => some p ≠ some place)) =
        uses.reduceOption.filter (· ∈ unkeptPlaces left) := by
      refine List.filter_congr fun p member => ?_
      have other : p ≠ place := fun same => fresh (same ▸ member)
      simp [other]
    rw [same_uses] at in_order
    rw [List.reduceOption_cons_of_some]
    -- An entry in order is the first of those left, and one that is kept is not among them.
    by_cases listed : place ∈ unkeptPlaces left
    · obtain ⟨more, places_eq⟩ := List.head?_eq_some_iff.mp (first.first place rfl listed)
      have distinct : (unkeptPlaces left).Nodup :=
        orderly.places.sublist (List.filter_sublist.map _)
      rw [places_eq] at distinct
      have others : more.filter (fun p => some p ≠ some place) = more := by
        refine List.filter_eq_self.mpr fun p member => ?_
        have other : p ≠ place := fun same => (List.nodup_cons.mp distinct).1 (same ▸ member)
        simpa using other
      rw [List.filter_cons_of_pos (by simpa using listed)]
      rw [places_eq] at in_order ⊢
      rw [List.filter_cons_of_neg (by simp), others] at in_order
      exact (List.prefix_cons_inj place).mpr in_order
    · have others : (unkeptPlaces left).filter (fun p => some p ≠ some place) =
          unkeptPlaces left := by
        refine List.filter_eq_self.mpr fun p member => ?_
        have other : p ≠ place := fun same => listed (same ▸ member)
        simpa using other
      rw [List.filter_cons_of_neg (by simpa using listed)]
      rwa [others] at in_order

theorem cons (h : Holds left s) (orderly : Orderly left) (first : Spends left s q use)
    (later : Account (left.filter fun e => some e.2 ≠ use) (s.ask q).2 questions uses) :
    Account left s (q :: questions) (use :: uses) where
  length_eq := by rw [List.length_cons, List.length_cons, later.length_eq]
  holds n := by
    cases n with
    | zero => simpa [after] using h
    | succ n =>
      rw [List.take_succ_cons, filter_uses_cons]
      exact later.holds n
  consumed_eq n := by
    cases n with
    | zero => simp [after]
    | succ n =>
      have now := first.consumed_eq
      have then_eq := later.consumed_eq n
      rw [List.take_succ_cons, List.take_succ_cons]
      change ((s.ask q).2.after (questions.take n)).consumed = _
      cases use <;> simp at now ⊢ <;> omega
  each n q' asked := by
    cases n with
    | zero =>
      obtain rfl := Option.some.inj asked
      refine ⟨use, rfl, ?_⟩
      simpa [after] using first
    | succ n =>
      rw [List.take_succ_cons, filter_uses_cons]
      exact later.each n q' asked
  once := by
    cases use with
    | none =>
      rw [List.reduceOption_cons_of_none]
      exact later.once
    | some place =>
      rw [List.reduceOption_cons_of_some]
      exact List.nodup_cons.mpr ⟨later.not_mem_later, later.once⟩
  in_order := in_order_cons orderly first later
  kept_first e member key given := by
    have now := first.kept_iff e member key given
    rw [List.findIdx?_cons, List.findIdx?_cons]
    by_cases here : use = some e.2
    · simp [here, now.mp here]
    · have elsewhere := later.kept_first e
        (List.mem_filter.mpr ⟨member, by simpa using Ne.symm here⟩) key given
      simp [here, mt now.mpr here, elsewhere]

end Account

theorem Holds.account {left : List (Decision × Nat)} {s : Script} (h : Holds left s)
    (orderly : Orderly left) (questions : List Question) :
    ∃ uses, Account left s questions uses := by
  induction questions generalizing left s with
  | nil => exact ⟨[], .nil h⟩
  | cons q questions ih =>
    obtain ⟨use, first⟩ := h.spends orderly q
    obtain ⟨uses, later⟩ := ih first.holds (orderly.sublist List.filter_sublist)
    exact ⟨use :: uses, .cons h orderly first later⟩

/-- Every entry is accounted for: what is used and what is left make up the script. -/
theorem accounted {entries : List Decision} {script : Script}
    (accepted : ofDecisions entries = .ok script) (questions : List Question) :
    ∃ uses, Account entries.zipIdx script questions uses ∧ ∀ n,
      (script.after (questions.take n)).consumed = (uses.take n).reduceOption.length ∧
        (script.after (questions.take n)).consumed + (script.after (questions.take n)).remaining =
          entries.length := by
  have spent := spent accepted
  obtain ⟨repetitions, isSet, script_eq⟩ := ofDecisions_ok accepted
  have entries_eq : entries.zipIdx.map (·.1) = entries := List.zipIdx_map_fst ..
  have holds : Holds entries.zipIdx script := by
    constructor <;> rw [entries_eq, script_eq]
  have orderly : Orderly entries.zipIdx := by
    refine ⟨?_, ?_, ?_⟩
    · rw [List.zipIdx_map_snd]
      exact List.nodup_range'
    · rwa [entries_eq]
    · rwa [entries_eq]
  obtain ⟨uses, account⟩ := holds.account orderly questions
  refine ⟨uses, account, fun n => ⟨?_, ?_⟩⟩
  · have consumed := account.consumed_eq n
    rw [script_eq] at consumed ⊢
    rwa [Nat.zero_add] at consumed
  · obtain ⟨used, split, balance⟩ := (spent (questions.take n)).queue_eq
    have lengths := length_unkept_add_kept entries
    rw [split, List.length_append] at lengths
    rw [remaining]
    omega

/-- A branch, and a count for the repetition number 7. -/
def mixed : List Decision := [.pick (.int 0), .repeats (.int 2) (some (.int 7))]

/-- The repetition number 7 is reached first, then a branch is chosen. -/
def asked : List Question := [.repetition (.atLeast 0) ⟨.int 7, none⟩, .alternative (.int 2)]

theorem mixed_accounted : ∃ script uses, ofDecisions mixed = .ok script ∧
    Account mixed.zipIdx script asked uses ∧ uses.findIdx? (· == some 1) = some 0 ∧
      (script.after asked).consumed + (script.after asked).remaining = 2 := by
  have accepted : ofDecisions mixed = .ok ⟨[.pick (.int 0)], kept mixed, 0⟩ := rfl
  obtain ⟨uses, account, balance⟩ := accounted accepted asked
  refine ⟨_, uses, accepted, account, ?_, (balance 2).2⟩
  exact account.kept_first (.repeats (.int 2) (some (.int 7)), 1) (by simp [mixed]) (.int 7) rfl

end Script

end SentenceGen
