import Mathlib.Data.List.Find
import Mathlib.Data.List.Induction
import Mathlib.Data.List.Nodup
import SentenceGen.Proofs.CharacterSets
import SentenceGen.Proofs.Checks

/-!
# Classes made of any values

A class is made of the first occurrences in a list: a value that is the same as an earlier one is
dropped before it is looked at.  So whether a list makes a class is decided by the first of all
values that are the same, and may depend on the order of the list.
-/

namespace SentenceGen

/-! ### First occurrences -/

theorem eraseDups_concat {α : Type} [BEq α] [LawfulBEq α] (items : List α) (item : α) :
    (items ++ [item]).eraseDups =
      if item ∈ items.eraseDups then items.eraseDups else items.eraseDups ++ [item] := by
  have alone : [item].eraseDups = [item] := rfl
  rw [List.eraseDups_append]
  by_cases known : item ∈ items <;> simp [List.removeAll, known, alone]

theorem nodup_concat_of_new {α : Type} [BEq α] [LawfulBEq α] {items : List α}
    (distinct : items.Nodup) (item : α) :
    (if item ∈ items then items else items ++ [item]).Nodup := by
  split
  next => exact distinct
  next new =>
    refine List.nodup_append.mpr ⟨distinct, List.nodup_singleton _, ?_⟩
    rintro other listed _ last rfl
    rw [List.mem_singleton.mp last] at listed
    exact new listed

theorem nodup_eraseDups {α : Type} [BEq α] [LawfulBEq α] (items : List α) :
    items.eraseDups.Nodup := by
  induction items using List.reverseRecOn with
  | nil => exact List.nodup_nil
  | append_singleton items item ih =>
    rw [eraseDups_concat]
    exact nodup_concat_of_new ih item

namespace Datum

variable {values : List Datum} {value : Datum}

theorem distinct_concat (values : List Datum) (value : Datum) :
    distinct (values ++ [value]) =
      if (distinct values).any (·.same value) then distinct values
      else distinct values ++ [value] := by
  unfold distinct
  rw [List.foldl_append, List.foldl_cons, List.foldl_nil, List.any_reverse]
  split
  next => rfl
  next => rw [List.reverse_cons]

theorem any_same_iff (hashable : ∀ other ∈ values, other.hashable = true)
    (hashableToo : value.hashable = true) :
    values.any (·.same value) = true ↔ value.identity ∈ values.map identity := by
  rw [List.any_eq_true, List.mem_map]
  refine exists_congr fun other => and_congr_right fun member => ?_
  rw [same_eq_identity (hashable other member) hashableToo, decide_eq_true_eq]

/-- A value is dropped only if the same is kept. -/
theorem mem_map_identity_distinct (hashable : ∀ other ∈ values, other.hashable = true)
    {identity : Option (String ⊕ Decimal.Magnitude)} :
    identity ∈ (distinct values).map Datum.identity ↔ identity ∈ values.map Datum.identity := by
  induction values using List.reverseRecOn with
  | nil => rfl
  | append_singleton values value ih =>
    obtain ⟨before, alone⟩ := List.forall_mem_append.mp hashable
    have last := alone value List.mem_cons_self
    rw [distinct_concat, List.map_append, List.mem_append, ← ih before, List.map_singleton,
      List.mem_singleton]
    split
    next repeated =>
      have kept := (any_same_iff (isSet_distinct before).hashable last).mp repeated
      exact ⟨.inl, fun member => member.elim id fun same => same ▸ kept⟩
    next => rw [List.map_append, List.mem_append, List.map_singleton, List.mem_singleton]

theorem any_distinct (hashable : ∀ other ∈ values, other.hashable = true)
    (hashableToo : value.hashable = true) :
    (distinct values).any (·.same value) = values.any (·.same value) := by
  rw [Bool.eq_iff_iff, any_same_iff (isSet_distinct hashable).hashable hashableToo,
    mem_map_identity_distinct hashable, any_same_iff hashable hashableToo]

theorem same_congr {other : Datum} (hashable : value.hashable = true)
    (hashableToo : other.hashable = true) (same : value.same other = true) {third : Datum}
    (hashableThird : third.hashable = true) : third.same value = third.same other := by
  rw [same_eq_identity hashable hashableToo, decide_eq_true_eq] at same
  rw [same_eq_identity hashableThird hashable, same_eq_identity hashableThird hashableToo, same]

theorem same_self (hashable : value.hashable = true) : value.same value = true := by
  rw [same_eq_identity hashable hashable, decide_eq_true_eq]

theorem integer?_eq_some {x : Decimal.Magnitude} {n : Int} :
    x.integer? = some n ↔ x = .ofInt n := by
  cases x with
  | finite q =>
    rw [Decimal.Magnitude.integer?, Decimal.Magnitude.ofInt, Decimal.Magnitude.finite.injEq]
    constructor
    · intro whole
      split at whole
      next one =>
        rw [← Option.some.inj whole]
        exact Rat.ext rfl one
      next => cases whole
    · rintro rfl
      simp
  | _ => simp [Decimal.Magnitude.integer?, Decimal.Magnitude.ofInt]

/-- What is the same as an integer is a number that is equal to it. -/
theorem same_int_iff (hashable : value.hashable = true) (n : Int) :
    value.same (.int n) = true ↔ value.whole? = some n := by
  rw [same_eq_identity hashable rfl, decide_eq_true_eq]
  cases value <;>
    simp [identity, whole?, magnitude?, int?, integer?_eq_some, Decimal.Magnitude.ofInt]

theorem mem_whole?_iff (hashable : ∀ other ∈ values, other.hashable = true) {n : Int} :
    n ∈ values.filterMap whole? ↔ values.any (·.same (.int n)) = true := by
  rw [List.mem_filterMap, List.any_eq_true]
  exact exists_congr fun value => and_congr_right fun member =>
    (same_int_iff (hashable value member) n).symm

/-- With the repeats goes no integer. -/
theorem mem_whole?_distinct (hashable : ∀ other ∈ values, other.hashable = true) {n : Int} :
    n ∈ (distinct values).filterMap whole? ↔ n ∈ values.filterMap whole? := by
  rw [mem_whole?_iff (isSet_distinct hashable).hashable, any_distinct hashable rfl,
    mem_whole?_iff hashable]

end Datum

namespace CharacterClass

/-- A value that a class may have for a member: an integer proper that is a scalar value. -/
def IsMember (value : Datum) : Prop := ∃ n : Nat, value = .int n ∧ IsScalar n

theorem IsMember.hashable {value : Datum} (isMember : IsMember value) : value.hashable = true := by
  obtain ⟨n, rfl, _⟩ := isMember
  rfl

variable {name : String} {values : List Datum} {value : Datum} {c : CharacterClass}

theorem scalar?_eq_some {n : Nat} : scalar? value = some n ↔ value = .int n ∧ IsScalar n := by
  cases value with
  | int k =>
    rw [scalar?, Datum.properInt?, Datum.int.injEq]
    constructor
    · intro found
      simp only at found
      split at found
      next admitted =>
        obtain rfl := Option.some.inj found
        exact ⟨(Int.toNat_of_nonneg admitted.1).symm, admitted.2⟩
      next => cases found
    · rintro ⟨rfl, scalar⟩
      simp [scalar]
  | _ => simp [scalar?, Datum.properInt?]

theorem scalar?_eq_none : scalar? value = none ↔ ¬ IsMember value := by
  simp [IsMember, ← scalar?_eq_some, Option.eq_none_iff_forall_ne_some]

theorem validate_concat (name : String) (values : List Datum) (value : Datum) :
    validate name (values ++ [value]) =
      match validate name values, scalar? value with
      | .ok points, some n => .ok (points ++ [n])
      | .ok _, none => .error (Fault.invalidCodepoint value name).told
      | .error fault, _ => .error fault := by
  induction values with
  | nil =>
    rw [List.nil_append, validate, validate]
    cases scalar? value <;> rfl
  | cons first rest ih =>
    rw [List.cons_append, validate, validate, ih]
    cases scalar? first with
    | none => rfl
    | some n =>
      cases validate name rest with
      | error fault => rfl
      | ok points => cases scalar? value <;> rfl

theorem ofValues_of_hashable (name : String)
    (hashable : ∀ other ∈ values, other.hashable = true) :
    ofValues name values = (validate name (Datum.distinct values)).map (⟨name, ·⟩) := by
  have passed : values.forM Datum.requireHashable = .ok () :=
    forM_eq_ok.mpr fun other member => by simp [Datum.requireHashable, hashable other member]
  rw [ofValues, passed]
  cases validate name (Datum.distinct values) <;> rfl

/-- What one value more does: nothing if the same is there already, else it must be a member. -/
theorem ofValues_concat (name : String)
    (hashable : ∀ other ∈ values ++ [value], other.hashable = true) :
    ofValues name (values ++ [value]) =
      if values.any (·.same value) then ofValues name values
      else
        match ofValues name values, scalar? value with
        | .ok c, some n => .ok ⟨name, c.codepoints ++ [n]⟩
        | .ok _, none => .error (Fault.invalidCodepoint value name).told
        | .error fault, _ => .error fault := by
  obtain ⟨before, alone⟩ := List.forall_mem_append.mp hashable
  rw [ofValues_of_hashable name hashable, ofValues_of_hashable name before, Datum.distinct_concat,
    Datum.any_distinct before (alone value List.mem_cons_self)]
  split
  next => rfl
  next =>
    rw [validate_concat]
    cases validate name (Datum.distinct values) with
    | error fault => rfl
    | ok points => cases scalar? value <;> rfl

/-! ### Which lists make a class -/

/-- The first of all values that are the same is a member. -/
def Settles (values : List Datum) : Prop :=
  ∀ value ∈ values, ∃ first, values.find? (·.same value) = some first ∧ IsMember first

theorem exists_first_same {other : Datum} (member : other ∈ values)
    (same : other.same value = true) : ∃ first, values.find? (·.same value) = some first := by
  have sought : (values.find? (·.same value)).isSome = true :=
    List.find?_isSome.mpr ⟨other, member, same⟩
  exact Option.isSome_iff_exists.mp sought

theorem Settles.first {first : Datum} (settled : Settles values)
    (hashable : ∀ other ∈ values, other.hashable = true) (hashableToo : value.hashable = true)
    (found : values.find? (·.same value) = some first) : IsMember first := by
  have listed := List.mem_of_find?_eq_some found
  have same : first.same value = true := by simpa using List.find?_some found
  obtain ⟨other, foundToo, isMember⟩ := settled first listed
  have alike : values.find? (·.same first) = values.find? (·.same value) :=
    List.find?_congr fun third memberThird =>
      Datum.same_congr (hashable first listed) hashableToo same (hashable third memberThird)
  rw [alike, found] at foundToo
  rwa [Option.some.inj foundToo]

theorem settles_concat_iff (hashable : ∀ other ∈ values ++ [value], other.hashable = true) :
    Settles (values ++ [value]) ↔
      Settles values ∧ (values.any (·.same value) = true ∨ IsMember value) := by
  obtain ⟨before, alone⟩ := List.forall_mem_append.mp hashable
  have last := alone value List.mem_cons_self
  -- the value at the end comes first only for itself, and only if none before it is the same
  have earlier : ∀ other ∈ values, (values ++ [value]).find? (·.same other) =
      values.find? (·.same other) := by
    intro other member
    obtain ⟨first, found⟩ := exists_first_same member (Datum.same_self (before other member))
    rw [List.find?_append, found, Option.some_or]
  unfold Settles
  rw [List.forall_mem_append, List.forall_mem_singleton]
  constructor
  · rintro ⟨each, first, found, isMember⟩
    refine ⟨fun other member => earlier other member ▸ each other member, ?_⟩
    rw [List.find?_append] at found
    cases known : values.find? (·.same value) with
    | some other =>
      have same : other.same value = true := by simpa using List.find?_some known
      exact .inl (List.any_eq_true.mpr ⟨other, List.mem_of_find?_eq_some known, same⟩)
    | none =>
      rw [known, Option.none_or, List.find?_singleton, Datum.same_self last, if_pos rfl] at found
      exact .inr (Option.some.inj found ▸ isMember)
  · rintro ⟨each, closing⟩
    refine ⟨fun other member => (earlier other member).symm ▸ each other member, ?_⟩
    rw [List.find?_append]
    cases known : values.find? (·.same value) with
    | some first => exact ⟨first, rfl, Settles.first each before last known⟩
    | none =>
      refine ⟨value, ?_, closing.resolve_left ?_⟩
      · rw [Option.none_or, List.find?_singleton, Datum.same_self last, if_pos rfl]
      · rw [List.any_eq_true]
        rintro ⟨other, member, same⟩
        exact List.find?_eq_none.mp known other member same

theorem exists_ofValues_iff (name : String) (hashable : ∀ other ∈ values, other.hashable = true) :
    (∃ c, ofValues name values = .ok c) ↔ Settles values := by
  induction values using List.reverseRecOn with
  | nil => exact ⟨fun _ => nofun, fun _ => ⟨⟨name, []⟩, rfl⟩⟩
  | append_singleton values value ih =>
    rw [settles_concat_iff hashable, ← ih (List.forall_mem_append.mp hashable).1,
      ofValues_concat name hashable]
    by_cases repeated : values.any (·.same value) = true
    · rw [if_pos repeated, and_iff_left (.inl repeated)]
    · rw [if_neg repeated, or_iff_right repeated]
      cases ofValues name values with
      | error fault => simp
      | ok c =>
        cases found : scalar? value with
        | none => simp [scalar?_eq_none.mp found]
        | some n =>
          have isMember : IsMember value := ⟨n, scalar?_eq_some.mp found⟩
          simp [isMember]

/-- What the same as a value has come before is a member and stands for the same integer. -/
theorem Settles.listed (settled : Settles values)
    (hashable : ∀ other ∈ values, other.hashable = true) (hashableToo : value.hashable = true)
    (repeated : values.any (·.same value) = true) :
    ∃ n : Nat, .int n ∈ values ∧ value.whole? = some (n : Int) := by
  obtain ⟨other, member, same⟩ := List.any_eq_true.mp repeated
  obtain ⟨first, found⟩ := exists_first_same member same
  obtain ⟨n, rfl, _⟩ := settled.first hashable hashableToo found
  have same : (Datum.int n).same value = true := by simpa using List.find?_some found
  rw [Datum.same_eq_identity rfl hashableToo, decide_eq_true_eq] at same
  refine ⟨n, List.mem_of_find?_eq_some found, ?_⟩
  rw [← Datum.whole?_eq_of_identity same, Datum.whole?_int]

theorem ofValues_concat_ok (hashable : ∀ other ∈ values ++ [value], other.hashable = true)
    (made : ofValues name (values ++ [value]) = .ok c) :
    values.any (·.same value) = true ∧ ofValues name values = .ok c ∨
      ∃ small, ∃ n : Nat, values.any (·.same value) = false ∧ ofValues name values = .ok small ∧
        value = .int n ∧ IsScalar n ∧ c = ⟨name, small.codepoints ++ [n]⟩ := by
  rw [ofValues_concat name hashable] at made
  split at made
  next repeated => exact .inl ⟨repeated, made⟩
  next fresh =>
    split at made
    next small n earlier found =>
      obtain ⟨rfl, scalar⟩ := scalar?_eq_some.mp found
      exact .inr ⟨small, n, Bool.eq_false_iff.mpr fresh, earlier, rfl, scalar,
        (Except.ok.inj made).symm⟩
    next => cases made
    next => cases made

/-- The code points are the first occurrences among the integers that the values are equal to. -/
theorem codepoints_of_ofValues (hashable : ∀ other ∈ values, other.hashable = true)
    (made : ofValues name values = .ok c) :
    c.name = name ∧ c.codepoints.map Nat.cast = (values.filterMap Datum.whole?).eraseDups := by
  induction values using List.reverseRecOn generalizing c with
  | nil =>
    obtain rfl := Except.ok.inj made
    exact ⟨rfl, rfl⟩
  | append_singleton values value ih =>
    obtain ⟨before, alone⟩ := List.forall_mem_append.mp hashable
    rw [List.filterMap_append]
    rcases ofValues_concat_ok hashable made with ⟨repeated, earlier⟩ |
      ⟨small, n, fresh, earlier, rfl, _, rfl⟩
    · obtain ⟨named, points⟩ := ih before earlier
      -- a repeat may be any number, but what it repeats goes back to an integer that was kept
      have settled := (exists_ofValues_iff name before).mp ⟨c, earlier⟩
      obtain ⟨n, listed, whole⟩ := settled.listed before (alone value List.mem_cons_self) repeated
      have known : (n : Int) ∈ (values.filterMap Datum.whole?).eraseDups :=
        List.mem_eraseDups.mpr (List.mem_filterMap.mpr ⟨.int n, listed, Datum.whole?_int n⟩)
      refine ⟨named, ?_⟩
      rw [List.filterMap_cons_some whole, List.filterMap_nil, eraseDups_concat, if_pos known,
        points]
    · obtain ⟨_, points⟩ := ih before earlier
      have new : (n : Int) ∉ (values.filterMap Datum.whole?).eraseDups := by
        intro listed
        obtain ⟨other, member, whole⟩ := List.mem_filterMap.mp (List.mem_eraseDups.mp listed)
        have same := (Datum.same_int_iff (before other member) n).mpr whole
        exact List.any_eq_false.mp fresh other member same
      refine ⟨rfl, ?_⟩
      rw [List.filterMap_cons_some (Datum.whole?_int n), List.filterMap_nil, eraseDups_concat,
        if_neg new, List.map_append, points]
      rfl

/-! ### Lists that make none -/

/-- No value that comes later mends what has failed. -/
theorem ofValues_append_of_error {fault : Fault} {later : List Datum}
    (hashable : ∀ other ∈ values ++ later, other.hashable = true)
    (failed : ofValues name values = .error fault) :
    ofValues name (values ++ later) = .error fault := by
  induction later using List.reverseRecOn with
  | nil => rwa [List.append_nil]
  | append_singleton later value ih =>
    rw [← List.append_assoc] at hashable ⊢
    rw [ofValues_concat name hashable, ih (List.forall_mem_append.mp hashable).1]
    split <;> rfl

/-- A list that makes no class fails for its first value that neither is a member nor is the same
as an earlier one. -/
theorem ofValues_eq_error_iff (name : String)
    (hashable : ∀ other ∈ values, other.hashable = true) {fault : Fault} :
    ofValues name values = .error fault ↔
      ∃ before value after, values = before ++ value :: after ∧ Settles before ∧
        (∀ other ∈ before, other.same value = false) ∧ ¬ IsMember value ∧
        fault = (Fault.invalidCodepoint value name).told := by
  constructor
  · intro failed
    induction values using List.reverseRecOn with
    | nil => cases failed
    | append_singleton values value ih =>
      have before := (List.forall_mem_append.mp hashable).1
      have further (early : ofValues name values = .error fault) :
          ∃ first other after, values ++ [value] = first ++ other :: after ∧ Settles first ∧
            (∀ earlier ∈ first, earlier.same other = false) ∧ ¬ IsMember other ∧
            fault = (Fault.invalidCodepoint other name).told := by
        obtain ⟨first, other, after, rfl, why⟩ := ih before early
        exact ⟨first, other, after ++ [value], by rw [List.append_assoc, List.cons_append], why⟩
      rw [ofValues_concat name hashable] at failed
      split at failed
      next => exact further failed
      next fresh =>
        split at failed
        next => cases failed
        next c earlier found =>
          refine ⟨values, value, [], rfl, (exists_ofValues_iff name before).mp ⟨c, earlier⟩, ?_,
            scalar?_eq_none.mp found, (Except.error.inj failed).symm⟩
          intro other member
          exact Bool.eq_false_iff.mpr
            (List.any_eq_false.mp (Bool.eq_false_iff.mpr fresh) other member)
        next early => exact further (early.trans failed)
  · rintro ⟨before, value, after, rfl, settled, fresh, notMember, rfl⟩
    have split : before ++ value :: after = (before ++ [value]) ++ after := by simp
    rw [split] at hashable ⊢
    have through := (List.forall_mem_append.mp hashable).1
    obtain ⟨c, made⟩ :=
      (exists_ofValues_iff name (List.forall_mem_append.mp through).1).mpr settled
    have unlisted : ¬ before.any (·.same value) = true := by
      rw [Bool.not_eq_true, List.any_eq_false]
      exact fun other member => Bool.eq_false_iff.mp (fresh other member)
    refine ofValues_append_of_error hashable ?_
    rw [ofValues_concat name through, if_neg unlisted, made, scalar?_eq_none.mpr notMember]

/-! ### Lists in any order -/

theorem settles_of_members (members : ∀ value ∈ values, IsMember value) : Settles values := by
  intro value member
  obtain ⟨first, found⟩ :=
    exists_first_same member (Datum.same_self (members value member).hashable)
  exact ⟨first, found, members first (List.mem_of_find?_eq_some found)⟩

theorem exists_ofValues_of_members (name : String) (members : ∀ value ∈ values, IsMember value) :
    ∃ c, ofValues name values = .ok c :=
  (exists_ofValues_iff name fun value member => (members value member).hashable).mpr
    (settles_of_members members)

/-- In every order if all values are members: any of them may come first. -/
theorem settles_every_order_iff (hashable : ∀ other ∈ values, other.hashable = true) :
    (∀ order, order.Perm values → Settles order) ↔ ∀ value ∈ values, IsMember value := by
  constructor
  · intro settled value member
    obtain ⟨before, after, rfl⟩ := List.append_of_mem member
    obtain ⟨first, found, isMember⟩ := settled (value :: (before ++ after))
      List.perm_middle.symm value List.mem_cons_self
    simp only [List.find?_cons, Datum.same_self (hashable value member), Option.some.injEq] at found
    exact found ▸ isMember
  · intro members order perm
    exact settles_of_members fun value member => members value (perm.subset member)

/-- In some order if every value is the same as a member: the members may come first. -/
theorem settles_some_order_iff :
    (∃ order, order.Perm values ∧ Settles order) ↔
      ∀ value ∈ values, ∃ other ∈ values, IsMember other ∧ other.same value = true := by
  constructor
  · rintro ⟨order, perm, settled⟩ value member
    obtain ⟨first, found, isMember⟩ := settled value (perm.symm.subset member)
    exact ⟨first, perm.subset (List.mem_of_find?_eq_some found), isMember,
      by simpa using List.find?_some found⟩
  · intro matched
    let fits (value : Datum) : Bool := (scalar? value).isSome
    have fits_iff (value : Datum) : fits value = true ↔ IsMember value := by
      rw [← not_iff_not, ← scalar?_eq_none, Bool.not_eq_true, Option.isSome_eq_false_iff,
        Option.isNone_iff_eq_none]
    have perm := List.filter_append_perm fits values
    refine ⟨_, perm, fun value member => ?_⟩
    obtain ⟨other, listed, isMember, same⟩ := matched value (perm.subset member)
    have early : other ∈ values.filter fits :=
      List.mem_filter.mpr ⟨listed, (fits_iff other).mpr isMember⟩
    obtain ⟨first, found⟩ := exists_first_same early same
    refine ⟨first, by rw [List.find?_append, found, Option.some_or], ?_⟩
    exact (fits_iff first).mp (List.mem_filter.mp (List.mem_of_find?_eq_some found)).2

/-- Of values that are the same only the first is looked at: it must be a member, and a list that
has another one there makes no class.  So the order does not matter exactly if all values are
members, or if some value is the same as no member. -/
theorem first_occurrences_decide (name : String)
    (hashable : ∀ value ∈ values, value.hashable = true) :
    ((∃ c, ofValues name values = .ok c) ↔ Settles values) ∧
    (∀ c, ofValues name values = .ok c →
      c.name = name ∧ c.codepoints.map Nat.cast = (values.filterMap Datum.whole?).eraseDups) ∧
    (∀ fault, ofValues name values = .error fault ↔
      ∃ before value after, values = before ++ value :: after ∧ Settles before ∧
        (∀ other ∈ before, other.same value = false) ∧ ¬ IsMember value ∧
        fault = (Fault.invalidCodepoint value name).told) ∧
    ((∀ order, order.Perm values → ∃ c, ofValues name order = .ok c) ↔
      ∀ value ∈ values, IsMember value) ∧
    ((∃ order, order.Perm values ∧ ∃ c, ofValues name order = .ok c) ↔
      ∀ value ∈ values, ∃ other ∈ values, IsMember other ∧ other.same value = true) := by
  have reordered {order : List Datum} (perm : order.Perm values) :
      (∃ c, ofValues name order = .ok c) ↔ Settles order :=
    exists_ofValues_iff name fun value member => hashable value (perm.subset member)
  refine ⟨exists_ofValues_iff name hashable, fun c made => codepoints_of_ofValues hashable made,
    fun fault => ofValues_eq_error_iff name hashable, ?_, ?_⟩
  · rw [← settles_every_order_iff hashable]
    exact forall_congr' fun order => imp_congr_right fun perm => reordered perm
  · rw [← settles_some_order_iff]
    exact exists_congr fun order => and_congr_right fun perm => reordered perm

/-- A truth value passes behind the integer that it is the same as, and not in front of it. -/
theorem truth_first_occurrences_decide :
    let values : List Datum := [.int 98, .int 1, .bool true, .int 98, .int 97]
    (∀ value ∈ values, value.hashable = true) ∧
      ofValues "X" values = .ok ⟨"X", [98, 1, 97]⟩ ∧
      ¬ ∀ order, order.Perm values → ∃ c, ofValues "X" order = .ok c := by
  intro values
  have hashable : ∀ value ∈ values, value.hashable = true := by simp [values, Datum.hashable]
  obtain ⟨_, _, _, everyOrder, _⟩ := first_occurrences_decide "X" hashable
  refine ⟨hashable, rfl, everyOrder.not.mpr fun members => ?_⟩
  obtain ⟨n, same, _⟩ := members (.bool true) (by simp [values])
  cases same

/-- So a list with a truth value in it may make a class, and one with the same values make none. -/
theorem truth_concealed :
    let values : List Datum := [.int 1, .bool true]
    (∀ value ∈ values, value.hashable = true) ∧ ¬ (∀ value ∈ values, IsMember value) ∧
      ofValues "X" values = .ok ⟨"X", [1]⟩ ∧
      ofValues "X" values.reverse = .error (.invalidCodepoint (.bool true) "X") := by
  intro values
  refine ⟨by simp [values, Datum.hashable], fun members => ?_, rfl, rfl⟩
  obtain ⟨n, same, _⟩ := members (.bool true) (by simp [values])
  cases same

end CharacterClass

end SentenceGen
