import Mathlib.Data.Int.Basic
import Mathlib.Data.List.Perm.Subperm
import SentenceGen.Proofs.FirstOccurrences

/-!
# Character classes as ordered sets

The code points of a class are distinct scalar values, however often some have been taken away.  All
such sequences make a class, and the same one when it is made anew.  There are so few of them that
every place has an index.
-/

namespace SentenceGen

theorem eraseDups_of_nodup {α : Type} [BEq α] [LawfulBEq α] {items : List α}
    (distinct : items.Nodup) : items.eraseDups = items := by
  induction items using List.reverseRecOn with
  | nil => rfl
  | append_singleton items item ih =>
    obtain ⟨before, _, apart⟩ := List.nodup_append.mp distinct
    have new : item ∉ items := fun listed => apart item listed item List.mem_cons_self rfl
    rw [eraseDups_concat, ih before, if_neg new]

namespace Datum

variable {container : String} {size i : Nat}

theorem position_of_lt (small : size < 0x8000000000000000) (inside : i < size) :
    (Datum.int i).position container size = .ok i := by
  have readable : ¬ ((i : Int) < -0x8000000000000000 ∨ 0x8000000000000000 ≤ (i : Int)) := by omega
  have nonneg : ¬ (i : Int) < 0 := by omega
  have found : 0 ≤ (i : Int) ∧ (i : Int) < size := by omega
  simp only [position, int?, if_neg readable, if_neg nonneg, if_pos found, Int.toNat_natCast]

theorem position_fromEnd (small : size < 0x8000000000000000) (inside : i < size) :
    (Datum.int (i - size)).position container size = .ok i := by
  have readable : ¬ ((i : Int) - size < -0x8000000000000000 ∨
      0x8000000000000000 ≤ (i : Int) - size) := by omega
  have negative : (i : Int) - size < 0 := by omega
  have found : 0 ≤ (i : Int) ∧ (i : Int) < size := by omega
  simp only [position, int?, if_neg readable, if_pos negative, Int.sub_add_cancel, if_pos found,
    Int.toNat_natCast]

theorem position_beyond (container : String) {n : Int} (outside : n < -size ∨ size ≤ n) :
    ∃ fault, (Datum.int n).position container size = .error fault ∧ fault.kind = .index := by
  simp only [position, int?]
  split
  next => exact ⟨_, rfl, rfl⟩
  next => exact ⟨_, if_neg (by split <;> omega), rfl⟩

theorem codepoint?_char (x : Char) : (Datum.str x.toString).codepoint? = some x.toNat := by
  simp [codepoint?]

end Datum

namespace CharacterClass

variable {name : String} {given exclude : List Datum} {c less : CharacterClass}

/-- A class that was made of values and then lessened any number of times. -/
inductive Reached : CharacterClass → Prop where
  | made {name : String} {given : List Datum} {c : CharacterClass}
      (made : ofValues name given = .ok c) : Reached c
  | without {c less : CharacterClass} {exclude : List Datum} (reached : Reached c)
      (taken : c.without exclude = .ok less) : Reached less

/-- The code points as values that a class can be made of. -/
def values (c : CharacterClass) : List Datum := c.codepoints.map fun n : Nat => .int n

structure Proper (c : CharacterClass) : Prop where
  distinct : c.codepoints.Nodup
  scalar : ∀ n ∈ c.codepoints, IsScalar n

/-! ### Making and lessening -/

theorem hashable_of_ofValues (made : ofValues name given = .ok c) :
    ∀ value ∈ given, value.hashable = true := by
  intro value member
  cases passed : given.forM Datum.requireHashable with
  | error fault =>
    rw [ofValues, passed] at made
    cases made
  | ok _ =>
    have each := forM_eq_ok.mp passed value member
    by_contra unhashable
    rw [Datum.requireHashable, if_neg unhashable] at each
    cases each

theorem without_eq_ok : c.without exclude = .ok less ↔
    (∀ value ∈ exclude, value.hashable = true) ∧
      c.remove (exclude.filterMap Datum.whole?) = less := by
  have passes (value : Datum) : value.requireHashable = .ok () ↔ value.hashable = true := by
    rw [Datum.requireHashable]
    split <;> simp_all
  rw [without]
  cases passed : exclude.forM Datum.requireHashable with
  | error fault =>
    constructor
    · intro taken
      cases taken
    · rintro ⟨hashable, _⟩
      rw [forM_eq_ok.mpr fun value member => (passes value).mpr (hashable value member)] at passed
      cases passed
  | ok _ =>
    have hashable : ∀ value ∈ exclude, value.hashable = true :=
      fun value member => (passes value).mp (forM_eq_ok.mp passed value member)
    constructor
    · intro taken
      exact ⟨hashable, Except.ok.inj taken⟩
    · rintro ⟨_, rfl⟩
      rfl

theorem proper_of_ofValues (made : ofValues name given = .ok c) : c.Proper := by
  have hashable := hashable_of_ofValues made
  constructor
  · have points := (codepoints_of_ofValues hashable made).2
    have distinct := nodup_eraseDups (given.filterMap Datum.whole?)
    rw [← points] at distinct
    exact distinct.of_map
  · induction given using List.reverseRecOn generalizing c with
    | nil =>
      obtain rfl := Except.ok.inj made
      exact nofun
    | append_singleton given value ih =>
      rcases ofValues_concat_ok hashable made with ⟨_, earlier⟩ |
        ⟨small, n, _, earlier, _, scalar, rfl⟩
      · exact ih earlier (List.forall_mem_append.mp hashable).1
      · refine List.forall_mem_append.mpr ⟨ih earlier (List.forall_mem_append.mp hashable).1, ?_⟩
        rintro _ (_ | ⟨_, ⟨⟩⟩)
        exact scalar

theorem Proper.remove (proper : c.Proper) (exclude : List Int) : (c.remove exclude).Proper where
  distinct := proper.distinct.filter _
  scalar n member := proper.scalar n (List.mem_filter.mp member).1

theorem Reached.proper (reached : c.Reached) : c.Proper := by
  induction reached with
  | made made => exact proper_of_ofValues made
  | without _ taken ih =>
    obtain ⟨_, rfl⟩ := without_eq_ok.mp taken
    exact ih.remove _

theorem Proper.nodup_cast (proper : c.Proper) :
    (c.codepoints.map (Nat.cast : Nat → Int)).Nodup :=
  proper.distinct.map Int.ofNat_injective

/-- Made anew of its own code points, a class is what it was. -/
theorem Proper.ofValues_values (proper : c.Proper) : ofValues c.name c.values = .ok c := by
  have members : ∀ value ∈ c.values, IsMember value := by
    intro value listed
    obtain ⟨n, member, rfl⟩ := List.mem_map.mp listed
    exact ⟨n, rfl, proper.scalar n member⟩
  obtain ⟨again, made⟩ := exists_ofValues_of_members c.name members
  obtain ⟨named, points⟩ := codepoints_of_ofValues (hashable_of_ofValues made) made
  have whole : c.values.filterMap Datum.whole? = c.codepoints.map Nat.cast := by
    rw [values, List.filterMap_map, ← List.filterMap_eq_map]
    refine List.filterMap_congr fun n _ => ?_
    rw [Function.comp_apply, Function.comp_apply, Datum.whole?_int]
  rw [whole, eraseDups_of_nodup proper.nodup_cast] at points
  have same : again = c := by
    rw [CharacterClass.mk.injEq]
    exact ⟨named, Int.ofNat_injective.list_map points⟩
  rw [made, same]

@[simp] theorem remove_remove (c : CharacterClass) (a b : List Int) :
    (c.remove a).remove b = c.remove (a ++ b) := by
  simp [remove, List.filter_filter, Bool.and_comm]

theorem remove_eq_remove_iff {a b : List Int} :
    c.remove a = c.remove b ↔ ∀ n ∈ c, ((n : Int) ∈ a ↔ (n : Int) ∈ b) := by
  constructor
  · intro same n member
    have left : n ∈ c.remove a ↔ (n : Int) ∉ a := by simp [member]
    have right : n ∈ c.remove b ↔ (n : Int) ∉ b := by simp [member]
    rw [← not_iff_not, ← left, ← right, same]
  · intro same
    rw [remove, remove, List.filter_congr fun n member => ?_]
    rw [Bool.not_inj_iff, Bool.eq_iff_iff, List.contains_iff_mem, List.contains_iff_mem]
    exact same n member

theorem codepoints_remove {points : List Int} {kept : Nat → Prop} [DecidablePred kept]
    (c : CharacterClass) (kept_iff : ∀ n : Nat, kept n ↔ (n : Int) ∉ points) :
    (c.remove points).codepoints = c.codepoints.filter kept := by
  rw [remove]
  exact List.filter_congr fun n _ => by simp [kept_iff n]

theorem without_ints (c : CharacterClass) (exclude : List Int) :
    c.without (exclude.map .int) = .ok (c.remove exclude) := by
  refine without_eq_ok.mpr ⟨?_, ?_⟩
  · intro value listed
    obtain ⟨n, _, rfl⟩ := List.mem_map.mp listed
    rfl
  · simp [List.filterMap_map]

/-! ### One sequence behind all ways of asking -/

/-- Iteration, size, membership and indices tell of these code points. -/
structure Describes (c : CharacterClass) (points : List Nat) : Prop where
  iterated : c.codepoints = points
  size : c.size = points.length
  int : ∀ n : Int, c.contains (.int n) = .ok (decide (n ∈ points.map Nat.cast))
  char : ∀ x : Char, c.contains (.str x.toString) = .ok (decide (x.toNat ∈ points))
  text : ∀ s : String, s.length ≠ 1 → c.contains (.str s) = .ok false
  index : ∀ (i : Nat) (h : i < points.length), c.at? (.int i) = .ok points[i]
  fromEnd : ∀ (i : Nat) (h : i < points.length), c.at? (.int (i - points.length)) = .ok points[i]
  beyond : ∀ i : Int, i < -points.length ∨ points.length ≤ i →
    ∃ fault, c.at? (.int i) = .error fault ∧ fault.kind = .index

/-- No index is too large to be read: there are only so many code points. -/
theorem Proper.size_le (proper : c.Proper) : c.size ≤ 0x110000 := by
  have below : c.codepoints ⊆ List.range 0x110000 := by
    intro n member
    have scalar := proper.scalar n member
    rw [IsScalar] at scalar
    rw [List.mem_range]
    omega
  have shorter := (List.subperm_of_subset proper.distinct below).length_le
  rwa [List.length_range] at shorter

theorem at?_of_position {index : Datum} {place : Nat} (c : CharacterClass)
    (found : index.position "tuple" c.size = .ok place) (inside : place < c.codepoints.length) :
    c.at? index = .ok c.codepoints[place] := by
  rw [at?, found]
  simp only [bind, Except.bind, List.getElem?_eq_getElem inside]
  rfl

theorem contains_int (c : CharacterClass) (n : Int) :
    c.contains (.int n) = .ok (decide (n ∈ c.codepoints.map Nat.cast)) := by
  have known : c.hasInt n = decide (n ∈ c.codepoints.map Nat.cast) := by
    rw [hasInt, ← Bool.decide_and, decide_eq_decide, List.mem_map, mem_def]
    constructor
    · rintro ⟨nonneg, member⟩
      exact ⟨n.toNat, member, Int.toNat_of_nonneg nonneg⟩
    · rintro ⟨k, member, rfl⟩
      exact ⟨Int.natCast_nonneg k, member⟩
  rw [← known]
  simp [contains, pure, Except.pure, bind, Except.bind]

theorem contains_char (c : CharacterClass) (x : Char) :
    c.contains (.str x.toString) = .ok (decide (x.toNat ∈ c.codepoints)) := by
  simp only [contains, Datum.codepoint?_char, Option.any_some, mem_def]
  rfl

theorem contains_text (c : CharacterClass) {s : String} (several : s.length ≠ 1) :
    c.contains (.str s) = .ok false := by
  have none : (Datum.str s).codepoint? = none := by
    rw [← String.length_toList] at several
    rw [Datum.codepoint?]
    split
    next x single => simp [single] at several
    next => rfl
  simp only [contains, none, Option.any_none]
  rfl

theorem Proper.describes (proper : c.Proper) : c.Describes c.codepoints where
  iterated := rfl
  size := rfl
  int := c.contains_int
  char := c.contains_char
  text _ := c.contains_text
  index i inside :=
    have small : c.size < 0x8000000000000000 := Nat.lt_of_le_of_lt proper.size_le (by decide)
    c.at?_of_position (Datum.position_of_lt small inside) inside
  fromEnd i inside :=
    have small : c.size < 0x8000000000000000 := Nat.lt_of_le_of_lt proper.size_le (by decide)
    c.at?_of_position (Datum.position_fromEnd small inside) inside
  beyond i outside := by
    obtain ⟨fault, refused, kind⟩ := Datum.position_beyond "tuple" outside
    refine ⟨fault, ?_, kind⟩
    rw [at?, size, refused]
    rfl

/-- A class that was made is an ordered set of scalar values: without some of its code points it is
what is left of it, in order, in whatever portions they are taken away. -/
theorem Reached.ordered_set (reached : c.Reached) :
    c.codepoints.Nodup ∧ (∀ n ∈ c.codepoints, IsScalar n) ∧ c.Describes c.codepoints ∧
      ∀ a b : List Int, ∃ less least,
        c.without (a.map .int) = .ok less ∧
        less.codepoints = c.codepoints.filter (fun n : Nat => (n : Int) ∉ a) ∧
        ofValues c.name less.values = .ok less ∧
        less.without (b.map .int) = .ok least ∧
        (c.without (b.map .int) >>= fun other => other.without (a.map .int)) = .ok least ∧
        ∀ both : List Int, (∀ n, n ∈ both ↔ n ∈ a ∨ n ∈ b) →
          c.without (both.map .int) = .ok least := by
  have proper := reached.proper
  refine ⟨proper.distinct, proper.scalar, proper.describes, fun a b => ?_⟩
  refine ⟨c.remove a, c.remove (a ++ b), c.without_ints a, ?_, ?_, ?_, ?_, fun both same => ?_⟩
  · exact c.codepoints_remove fun _ => Iff.rfl
  · exact (proper.remove a).ofValues_values
  · rw [without_ints, remove_remove]
  · rw [without_ints]
    change (c.remove b).without (a.map .int) = .ok _
    rw [without_ints, remove_remove]
    exact congrArg Except.ok (remove_eq_remove_iff.mpr fun n _ => by simp [or_comm])
  · rw [without_ints]
    exact congrArg Except.ok (remove_eq_remove_iff.mpr fun n _ => by simp [same])

/-- The letters c, a and b, of which b was listed twice and c has been taken away. -/
theorem letters_ordered_set :
    let c : CharacterClass := ⟨"ABC", [97, 98]⟩
    c.Reached ∧ c.Describes [97, 98] ∧
      ∃ least, (c.without [.int 98] >>= fun other => other.without [.int 97]) = .ok least ∧
        least.codepoints = [] := by
  intro c
  have made : ofValues "ABC" [.int 99, .int 97, .int 98, .int 97] = .ok ⟨"ABC", [99, 97, 98]⟩ := rfl
  have taken : CharacterClass.without ⟨"ABC", [99, 97, 98]⟩ [.int 99] = .ok c := rfl
  have reached : c.Reached := (Reached.made made).without taken
  obtain ⟨_, _, describes, lessened⟩ := reached.ordered_set
  obtain ⟨less, least, _, _, _, _, swapped, _⟩ := lessened [97] [98]
  refine ⟨reached, describes, least, swapped, ?_⟩
  cases swapped
  rfl

end CharacterClass

end SentenceGen
