import SentenceGen.Proofs.Turns
import SentenceGen.Proofs.Wording

/-!
# Why a script fails a question

A question fails if no entry is left for it, if the next entry is of another kind, or if the code
point of the entry is not on offer.  The fault tells of the entry by its label and of its place by a
count.  A value that is no code point or has too many digits may have no label, and some cannot be
looked up at all; then there is another fault.  And the count is that of the entries that were used,
which is the place of the entry only if as many of the kept entries were used as stand before it.
-/

namespace SentenceGen

theorem bind_eq_error_iff {α β : Type} {first : Except Fault α} {next : α → Except Fault β}
    {fault : Fault} :
    first >>= next = .error fault ↔
      first = .error fault ∨ ∃ a, first = .ok a ∧ next a = .error fault := by
  cases first with
  | error other =>
    constructor
    · rintro ⟨⟩
      exact .inl rfl
    · rintro (⟨⟨⟩⟩ | ⟨_, made, _⟩)
      · rfl
      · cases made
  | ok a =>
    constructor
    · exact fun failed => .inr ⟨a, rfl, failed⟩
    · rintro (failed | ⟨_, ⟨⟩, failed⟩)
      · cases failed
      · exact failed

theorem Datum.kind_of_codepointLabel {d : Datum} {fault : Fault}
    (failed : d.codepointLabel = .error fault) : fault.kind = .type ∨ fault.kind = .value := by
  cases d <;> cases failed <;> simp [Fault.kind]

namespace Decision

/-- Why an entry cannot be put into words: its code point is none, or its value or its site has too
many digits. -/
inductive Unlabelled (d : Decision) : Fault → Prop where
  | codepoint {fault : Fault} (kind : d.kind = .codepoint)
      (failed : d.value.codepointLabel = .error fault) : Unlabelled d fault
  | value (kind : d.kind ≠ .codepoint) (failed : d.value.text = .error (.tooManyDigits none)) :
      Unlabelled d (.tooManyDigits none)
  | site {site : Datum} {words : String} (kind : d.kind ≠ .codepoint) (given : d.site = some site)
      (worded : d.value.text = .ok words) (failed : site.text = .error (.tooManyDigits none)) :
      Unlabelled d (.tooManyDigits none)

theorem label_of_other {d : Decision} (other : d.kind ≠ .codepoint) :
    d.label = (do
      let words ← d.value.text
      match d.site with
      | some site => return s!"{d.kind.name}({words}, on={← site.text})"
      | none => return s!"{d.kind.name}({words})") := by
  obtain ⟨kind, value, site⟩ := d
  cases kind with
  | codepoint => exact absurd rfl other
  | _ => cases site <;> rfl

theorem label_eq_error {d : Decision} {fault : Fault} :
    d.label = .error fault ↔ d.Unlabelled fault := by
  by_cases kind : d.kind = .codepoint
  · have labelled : d.label =
        d.value.codepointLabel >>= fun words => pure s!"codepoint({words})" := by
      rw [label, kind]
    rw [labelled, bind_eq_error_iff]
    constructor
    · rintro (failed | ⟨_, _, failed⟩)
      · exact .codepoint kind failed
      · cases failed
    · rintro (⟨_, failed⟩ | ⟨other, _⟩ | ⟨other, _, _, _⟩)
      · exact .inl failed
      · exact absurd kind other
      · exact absurd kind other
  · rw [label_of_other kind, bind_eq_error_iff]
    constructor
    · rintro (failed | ⟨words, worded, failed⟩)
      · obtain rfl := d.value.worded_text fault failed
        exact .value kind failed
      · cases given : d.site with
        | none =>
          rw [given] at failed
          cases failed
        | some site =>
          rw [given] at failed
          rcases bind_eq_error_iff.mp failed with failed | ⟨_, _, failed⟩
          · obtain rfl := site.worded_text fault failed
            exact .site kind given worded failed
          · cases failed
    · rintro (⟨same, _⟩ | ⟨_, failed⟩ | ⟨_, given, worded, failed⟩)
      · exact absurd same kind
      · exact .inl failed
      · refine .inr ⟨_, worded, ?_⟩
        rw [given]
        exact bind_eq_error_iff.mpr (.inl failed)

theorem Unlabelled.kind {d : Decision} {fault : Fault} (h : d.Unlabelled fault) :
    fault.kind = .type ∨ fault.kind = .value := by
  cases h with
  | codepoint _ failed => exact Datum.kind_of_codepointLabel failed
  | value | site => exact .inr rfl

/-- The value can be put into words: a code point by its number, any other value as it is. -/
def Nameable (d : Decision) : Prop :=
  if d.kind = .codepoint then d.value.int?.isSome = true else ∃ words, d.value.text = .ok words

theorem Nameable.not_unlabelled {d : Decision} (h : d.Nameable) (unkeyed : d.site = none)
    (fault : Fault) : ¬ d.Unlabelled fault := by
  unfold Nameable at h
  rintro (⟨kind, failed⟩ | ⟨kind, failed⟩ | ⟨_, given, _, _⟩)
  · rw [if_pos kind] at h
    obtain ⟨label, labelled⟩ := Datum.codepointLabel_ok h
    rw [labelled] at failed
    cases failed
  · rw [if_neg kind] at h
    obtain ⟨words, worded⟩ := h
    rw [worded] at failed
    cases failed
  · rw [unkeyed] at given
    cases given

end Decision

namespace Candidates

theorem contains_eq_error {candidates : Candidates} {value : Datum} {fault : Fault} :
    candidates.contains value = .error fault ↔
      (∃ c, candidates = .ofClass c) ∧ value.hashable = false ∧ fault = .unhashable value.kind := by
  cases candidates with
  | listed items => simp [contains]
  | ofClass c =>
    cases value <;> simp [contains, CharacterClass.contains, Datum.requireHashable,
      Datum.hashable, Bind.bind, Except.bind, pure, Except.pure, eq_comm]

end Candidates

namespace Script

theorem offered_eq_error {candidates : Candidates} {d : Decision} {fault : Fault} :
    offered candidates d = .error fault ↔
      candidates.contains d.value = .error fault ∨
        candidates.contains d.value = .ok false ∧
          ((∃ label, d.label = .ok label ∧ fault = .notOffered label candidates.size) ∨
            d.label = .error fault) := by
  simp only [offered, Bind.bind, Except.bind]
  cases candidates.contains d.value with
  | error other => simp
  | ok on =>
    cases on with
    | true => simp [pure, Except.pure]
    | false => cases d.label <;> simp [throw, throwThe, MonadExceptOf.throw, eq_comm]

/-- The faults that a question is meant to fail with, and when. -/
inductive Declined (s : Script) (q : Question) : Fault → Prop where
  | exhausted (free : s.Free q) (queue : s.queue = []) :
      Declined s q (.scriptExhausted (.str q.kind.name) (.int s.consumed))
  | mismatched {d : Decision} {rest : List Decision} {label : String} (free : s.Free q)
      (queue : s.queue = d :: rest) (other : d.kind ≠ q.kind) (labelled : d.label = .ok label) :
      Declined s q (.scriptMismatch (.str q.kind.name) (.str label) (.int s.consumed))
  | notOffered {d : Decision} {rest : List Decision} {label : String} {candidates : Candidates}
      (asked : q = .codepoint candidates) (queue : s.queue = d :: rest)
      (kind : d.kind = .codepoint) (off : candidates.contains d.value = .ok false)
      (labelled : d.label = .ok label) : Declined s q (.notOffered label candidates.size)

/-- The faults for a site or a value that is no key, and for an entry that has no label. -/
inductive Mishap (s : Script) (q : Question) : Fault → Prop where
  | site {site : RepetitionSite} (asked : q.site? = some site)
      (unhashable : site.index.hashable = false) (some_kept : s.reserved ≠ []) :
      Mishap s q (.unhashable site.index.kind)
  | value {d : Decision} {rest : List Decision} {c : CharacterClass}
      (asked : q = .codepoint (.ofClass c)) (queue : s.queue = d :: rest)
      (kind : d.kind = .codepoint) (unhashable : d.value.hashable = false) :
      Mishap s q (.unhashable d.value.kind)
  | label {d : Decision} {rest : List Decision} {fault : Fault} (free : s.Free q)
      (queue : s.queue = d :: rest)
      (reported : d.kind ≠ q.kind ∨ d.kind = .codepoint ∧
        ∃ candidates, q = .codepoint candidates ∧ candidates.contains d.value = .ok false)
      (unlabelled : d.Unlabelled fault) : Mishap s q fault

theorem Mishap.kind {s : Script} {q : Question} {fault : Fault} (mishap : Mishap s q fault) :
    fault.kind = .type ∨ fault.kind = .value := by
  cases mishap with
  | site | value => exact .inl rfl
  | label _ _ _ unlabelled => exact unlabelled.kind

theorem Declined.ask {s : Script} {q : Question} {fault : Fault} (declined : Declined s q fault) :
    (s.ask q).1 = .error fault := by
  cases declined with
  | exhausted free queue =>
    rw [ask_of_free free, next_of_nil queue]
    rfl
  | mismatched free queue other labelled =>
    rw [ask_of_free free, next_of_other queue other, labelled]
    rfl
  | notOffered asked queue kind off labelled =>
    subst asked
    rw [ask_of_kind (q := .codepoint _) (.of_site? rfl) queue kind]
    exact offered_eq_error.mpr (.inr ⟨off, .inl ⟨_, labelled, rfl⟩⟩)

theorem Mishap.ask {s : Script} {q : Question} {fault : Fault} (mishap : Mishap s q fault) :
    (s.ask q).1 = .error fault := by
  cases mishap with
  | site asked unhashable some_kept => rw [ask_of_unhashable asked unhashable some_kept]
  | value asked queue kind unhashable =>
    subst asked
    rw [ask_of_kind (q := .codepoint _) (.of_site? rfl) queue kind]
    exact offered_eq_error.mpr
      (.inl (Candidates.contains_eq_error.mpr ⟨⟨_, rfl⟩, unhashable, rfl⟩))
  | @label d rest fault free queue reported unlabelled =>
    have failed : d.label = .error fault := Decision.label_eq_error.mpr unlabelled
    rcases reported with other | ⟨kind, candidates, rfl, off⟩
    · rw [ask_of_free free, next_of_other queue other, failed]
      rfl
    · rw [ask_of_kind free queue kind]
      exact offered_eq_error.mpr (.inr ⟨off, .inr failed⟩)

/-- A question fails for a reason that it is meant to fail for, or by a mishap. -/
theorem ask_eq_error {s : Script} {q : Question} {fault : Fault} :
    (s.ask q).1 = .error fault ↔ Declined s q fault ∨ Mishap s q fault := by
  constructor
  · intro failed
    have taken := turn s q
    generalize (s.ask q).1 = answer at taken failed
    generalize (s.ask q).2 = s' at taken
    cases taken with
    | @kept entry member about =>
      rw [Question.reply_of_isAbout about] at failed
      cases failed
    | queued free queue kind =>
      cases q with
      | codepoint candidates =>
        rcases offered_eq_error.mp failed with
          refused | ⟨off, ⟨label, labelled, rfl⟩ | unlabelled⟩
        · obtain ⟨⟨c, rfl⟩, unhashable, rfl⟩ := Candidates.contains_eq_error.mp refused
          exact .inr (.value rfl queue kind unhashable)
        · exact .inl (.notOffered rfl queue kind off labelled)
        · exact .inr (.label free queue (.inr ⟨kind, candidates, rfl, off⟩)
            (Decision.label_eq_error.mp unlabelled))
      | _ => cases failed
    | exhausted free queue =>
      cases failed
      exact .inl (.exhausted free queue)
    | mismatched free queue other labelled =>
      cases failed
      exact .inl (.mismatched free queue other labelled)
    | unlabelled free queue other unlabelled =>
      cases failed
      exact .inr (.label free queue (.inl other) (Decision.label_eq_error.mp unlabelled))
    | unhashable asked unhashable some_kept =>
      cases failed
      exact .inr (.site asked unhashable some_kept)
  · rintro (declined | mishap)
    · exact declined.ask
    · exact mishap.ask

theorem not_mishap {entries : List Decision} {questions : List Question} {s : Script}
    (spent : Spent entries questions s)
    (nameable : ∀ d ∈ entries, d.site = none → d.Nameable) {q : Question}
    (hashable : ∀ site ∈ q.site?, site.index.hashable = true) (fault : Fault) :
    ¬ Mishap s q fault := by
  rintro (⟨asked, unhashable, _⟩ | ⟨_, queue, kind, unhashable⟩ | ⟨_, queue, _, unlabelled⟩)
  · rw [hashable _ asked] at unhashable
    cases unhashable
  · obtain ⟨member, unkeyed⟩ := spent.mem_of_queue (queue ▸ List.mem_cons_self ..)
    have integral := nameable _ member unkeyed
    rw [Decision.Nameable, if_pos kind] at integral
    rw [Datum.hashable_of_int? integral] at unhashable
    cases unhashable
  · obtain ⟨member, unkeyed⟩ := spent.mem_of_queue (queue ▸ List.mem_cons_self ..)
    exact (nameable _ member unkeyed).not_unlabelled unkeyed fault unlabelled

/-- Whatever was asked before, a question fails in one of the ways that it is meant to, or by a
mishap, which is never a fault of the same kinds.  There are none if the entries that are kept for
no site can be named, the code points by their numbers, and the question can be looked up. -/
theorem ask_eq_error_after {entries : List Decision} {script : Script}
    (accepted : ofDecisions entries = .ok script) (questions : List Question) (q : Question)
    (fault : Fault) :
    let s := script.after questions
    ((s.ask q).1 = .error fault ↔ Declined s q fault ∨ Mishap s q fault) ∧
      (Mishap s q fault → fault.kind = .type ∨ fault.kind = .value) ∧
      ((∀ d ∈ entries, d.site = none → d.Nameable) →
        (∀ site ∈ q.site?, site.index.hashable = true) → ¬ Mishap s q fault) := by
  intro s
  have spent := spent accepted questions
  exact ⟨ask_eq_error, Mishap.kind, fun nameable hashable =>
    not_mishap spent nameable hashable fault⟩

/-- A code point that was given by its letter. -/
def lettered : Decision := ⟨.codepoint, .str "A", none⟩

theorem lettered_ask_eq_error_after :
    (∃ script, ofDecisions [lettered] = .ok script ∧
      Mishap script (.alternative (.int 2)) (.noHexadecimal "str")) ∧
    ∃ script, ofDecisions [.pick (.int 0)] = .ok script ∧
      Declined script .optional
        (.scriptMismatch (.str "optional") (.str "alternative(0)") (.int 0)) := by
  constructor
  · have accepted : ofDecisions [lettered] = .ok ⟨[lettered], [], 0⟩ := rfl
    obtain ⟨fails, _⟩ := ask_eq_error_after accepted [] (.alternative (.int 2))
      (.noHexadecimal "str")
    exact ⟨_, accepted, (fails.mp rfl).resolve_left nofun⟩
  · have accepted : ofDecisions [.pick (.int 0)] = .ok ⟨[.pick (.int 0)], [], 0⟩ := rfl
    obtain ⟨fails, _, never⟩ := ask_eq_error_after accepted [] .optional
      (.scriptMismatch (.str "optional") (.str "alternative(0)") (.int 0))
    refine ⟨_, accepted, (fails.mp rfl).resolve_right (never ?_ nofun)⟩
    intro d member _
    obtain rfl := List.mem_singleton.mp member
    exact ⟨"0", rfl⟩

/-- The letter cannot be written as a code point, so the mismatch is not what is reported. -/
theorem lettered_unlabelled : ∃ script, ofDecisions [lettered] = .ok script ∧
    (faultOf (script.ask (.alternative (.int 2))).1).map Fault.kind = some .value :=
  ⟨_, rfl, rfl⟩

/-! ### The position of a mismatch -/

/-- A mismatch reports the entry that is next in the queue.  Its position is that of the entry, plus
the entries that were kept and are used, less those that were kept and stand before it. -/
theorem mismatch_position {entries : List Decision} {script : Script}
    (accepted : ofDecisions entries = .ok script) (questions : List Question) (q : Question)
    {requested scripted position : Datum}
    (mismatched : ((script.after questions).ask q).1 =
      .error (.scriptMismatch requested scripted position)) :
    ∃ front d back label, entries = front ++ d :: back ∧ d.site = none ∧
      (script.after questions).queue = d :: unkept back ∧ d.label = .ok label ∧
      requested = .str q.kind.name ∧ scripted = .str label ∧
      ∃ n : Nat, position = .int n ∧ n + (kept front).length =
        front.length + ((kept entries).filter fun entry =>
          questions.any (·.isAbout entry.1)).length := by
  have spent := spent accepted questions
  generalize script.after questions = s at mismatched spent
  rcases ask_eq_error.mp mismatched with declined | mishap
  · cases declined with
    | @mismatched d rest label free queue other labelled =>
      obtain ⟨used, split, balance⟩ := spent.queue_eq
      rw [queue] at split
      obtain ⟨before, later, rfl, rfl, unkept_later⟩ := List.filter_eq_append_iff.mp split
      obtain ⟨skipped, back, rfl, all_kept, is_unkept, rfl⟩ :=
        List.filter_eq_cons_iff.mp unkept_later
      have unkept_front : unkept (before ++ skipped) = unkept before := by
        have none_unkept : unkept skipped = [] := List.filter_eq_nil_iff.mpr all_kept
        rw [unkept_append, none_unkept, List.append_nil]
      have front_length := length_unkept_add_kept (before ++ skipped)
      have asked := List.length_eq_length_filter_add (l := kept (before ++ (skipped ++ d :: back)))
        fun entry => questions.any (·.isAbout entry.1)
      rw [spent.reserved_eq] at balance
      refine ⟨before ++ skipped, d, back, label, by simp, by simpa using is_unkept, queue, labelled,
        rfl, rfl, s.consumed, rfl, ?_⟩
      rw [unkept_front] at front_length
      change _ = (unkept before).length + _ at balance
      omega
  · rcases mishap.kind with kind | kind <;> cases kind

/-- A count for the sixth repetition, and before it is reached a branch. -/
def ahead : List Decision := [.repeats (.int 1) (some (.int 5)), .pick (.int 0)]

theorem ahead_mismatch_position : ∃ script, ofDecisions ahead = .ok script ∧
    ∃ front d back, ahead = front ++ d :: back ∧ d.label = .ok "alternative(0)" ∧
      (kept front).length = front.length := by
  have accepted : ofDecisions ahead = .ok ⟨[.pick (.int 0)], kept ahead, 0⟩ := rfl
  have mismatched : ((after [] ⟨[.pick (.int 0)], kept ahead, 0⟩).ask .optional).1 =
      .error (.scriptMismatch (.str "optional") (.str "alternative(0)") (.int 0)) := rfl
  obtain ⟨front, d, back, label, split, _, _, labelled, _, scripted, n, position, count⟩ :=
    mismatch_position accepted [] .optional mismatched
  cases scripted
  have none_yet : (0 : Int) = n := Datum.int.inj position
  refine ⟨_, rfl, front, d, back, split, labelled, ?_⟩
  simp only [List.any_nil, List.filter_false, List.length_nil] at count
  omega

/-- The entry at place 1 is reported with position 0, where the count stands. -/
theorem ahead_misplaced : ∃ script, ofDecisions ahead = .ok script ∧
    (script.ask .optional).1 =
      .error (.scriptMismatch (.str "optional") (.str "alternative(0)") (.int 0)) ∧
    ahead.map Decision.label = [.ok "repetition(1, on=5)", .ok "alternative(0)"] :=
  ⟨_, rfl, rfl, rfl⟩

end Script

end SentenceGen
