import Mathlib.Data.List.Nodup
import Mathlib.Data.List.Perm.Basic
import SentenceGen.Replacement

/-!
# What a table of bindings holds

A table can be made of bindings if no production, and not the default either, is bound twice and all
bound names are known.  It then holds each of them, in whatever order they were given.
-/

namespace SentenceGen

/-- Bindings that a table can be made of. -/
structure Bindable {β : Type} (known : String → Bool) (bindings : List (Binding β)) : Prop where
  distinct : (bindings.map (·.production)).Nodup
  defined : ∀ b ∈ bindings, ∀ name, b.production = some name → known name = true

namespace Bindable

variable {β : Type} {known : String → Bool} {bindings more : List (Binding β)}

theorem perm (h : Bindable known bindings) (perm : bindings.Perm more) : Bindable known more where
  distinct := (perm.map _).nodup_iff.mp h.distinct
  defined b member := h.defined b (perm.mem_iff.mpr member)

theorem append (h : Bindable known bindings) (others : Bindable known more)
    (apart : ∀ b ∈ bindings, ∀ b' ∈ more, b.production ≠ b'.production) :
    Bindable known (bindings ++ more) where
  distinct := by
    rw [List.map_append, List.nodup_append]
    refine ⟨h.distinct, others.distinct, ?_⟩
    simpa using apart
  defined b member := by
    rcases List.mem_append.mp member with first | second
    · exact h.defined b first
    · exact others.defined b second

end Bindable

namespace Replacements

variable {β : Type} {known : String → Bool}

/-- What a production is bound to by itself, or, without one, what the default is. -/
def bound? (r : Replacements β) : Option String → Option β
  | none => r.default
  | some name => r.own? name

theorem find?_eq (r : Replacements β) (name : String) :
    r.find? name = (r.bound? (some name)).or (r.bound? none) := rfl

def insert (r : Replacements β) (b : Binding β) : Replacements β :=
  match b.production with
  | none => { r with default := some b.callback }
  | some name => { r with named := r.named ++ [(name, b.callback)] }

theorem add_of_fresh {r : Replacements β} {b : Binding β} (fresh : r.bound? b.production = none)
    (defined : ∀ name, b.production = some name → known name = true) :
    r.add known b = .ok (r.insert b) := by
  obtain ⟨_ | name, callback⟩ := b
  · have unbound : r.default = none := fresh
    simp [add, insert, unbound]
  · have unbound : r.named.lookup name = none := fresh
    simp [add, insert, unbound, defined name rfl]

theorem add_eq_ok {r r' : Replacements β} {b : Binding β} (added : r.add known b = .ok r') :
    r.bound? b.production = none ∧ (∀ name, b.production = some name → known name = true) ∧
      r' = r.insert b := by
  obtain ⟨_ | name, callback⟩ := b
  · simp only [add] at added
    split at added
    next => cases added
    next free =>
      cases added
      exact ⟨Option.not_isSome_iff_eq_none.mp free, nofun, rfl⟩
  · simp only [add] at added
    split at added
    next => cases added
    next free =>
      split at added
      next defined =>
        cases added
        refine ⟨Option.not_isSome_iff_eq_none.mp free, ?_, rfl⟩
        rintro _ ⟨⟩
        exact defined
      next => cases added

/-- A new binding is held, and all others are still. -/
theorem bound?_insert {r : Replacements β} {b : Binding β} (fresh : r.bound? b.production = none)
    (production : Option String) (callback : β) :
    (r.insert b).bound? production = some callback ↔
      r.bound? production = some callback ∨ b = ⟨production, callback⟩ := by
  obtain ⟨key, given⟩ := b
  by_cases same : production = key
  · subst same
    rw [show r.bound? production = none from fresh]
    cases production with
    | none => simp [insert, bound?]
    | some name =>
      have unbound : r.named.lookup name = none := fresh
      simp [insert, bound?, own?, List.lookup_append, unbound]
  · have other : (⟨key, given⟩ : Binding β) ≠ ⟨production, callback⟩ := by
      rintro ⟨⟩
      exact same rfl
    have kept : (r.insert ⟨key, given⟩).bound? production = r.bound? production := by
      cases key with
      | none =>
        cases production with
        | none => exact absurd rfl same
        | some name => rfl
      | some key =>
        cases production with
        | none => rfl
        | some name =>
          have apart : (name == key) = false := by simpa using same
          simp [insert, bound?, own?, List.lookup_append, List.lookup_cons, apart]
    rw [kept, or_iff_left other]

theorem addAll_of_bindable {bindings : List (Binding β)} {r : Replacements β}
    (bindable : Bindable known bindings)
    (fresh : ∀ b ∈ bindings, r.bound? b.production = none) :
    ∃ r', addAll known (bindings.map .inr) r = .ok r' ∧ ∀ production callback,
      r'.bound? production = some callback ↔
        r.bound? production = some callback ∨ ⟨production, callback⟩ ∈ bindings := by
  induction bindings generalizing r with
  | nil => exact ⟨r, rfl, by simp⟩
  | cons b rest ih =>
    obtain ⟨distinct, defined⟩ := bindable
    rw [List.map_cons, List.nodup_cons] at distinct
    rw [List.forall_mem_cons] at defined fresh
    have added : r.add known b = .ok (r.insert b) := add_of_fresh fresh.1 defined.1
    have still : ∀ b' ∈ rest, (r.insert b).bound? b'.production = none := by
      intro b' member
      rw [Option.eq_none_iff_forall_ne_some]
      intro callback bound
      rcases (bound?_insert fresh.1 _ _).mp bound with before | rfl
      · rw [fresh.2 b' member] at before
        cases before
      · exact distinct.1 (List.mem_map.mpr ⟨b', member, rfl⟩)
    obtain ⟨r', made, holds⟩ := ih ⟨distinct.2, defined.2⟩ still
    refine ⟨r', ?_, fun production callback => ?_⟩
    · simp only [List.map_cons, addAll, added, Bind.bind, Except.bind, made]
    · rw [holds, bound?_insert fresh.1, List.mem_cons, or_assoc, eq_comm (a := b)]

theorem bindable_of_addAll {entries : List (Datum ⊕ Binding β)} {r r' : Replacements β}
    (made : addAll known entries r = .ok r') :
    ∃ bindings : List (Binding β), entries = bindings.map .inr ∧ Bindable known bindings ∧
      ∀ b ∈ bindings, r.bound? b.production = none := by
  induction entries generalizing r with
  | nil => exact ⟨[], rfl, ⟨by simp, by simp⟩, by simp⟩
  | cons entry rest ih =>
    cases entry with
    | inl stray => cases made
    | inr b =>
      simp only [addAll, Bind.bind, Except.bind] at made
      split at made
      next => cases made
      next inserted added =>
        obtain ⟨fresh, defined, rfl⟩ := add_eq_ok added
        obtain ⟨bindings, rfl, bindable, others⟩ := ih made
        have later (b' : Binding β) (member : b' ∈ bindings) :
            r.bound? b'.production = none ∧ b'.production ≠ b.production := by
          have none_bound := others b' member
          rw [Option.eq_none_iff_forall_ne_some] at none_bound ⊢
          refine ⟨fun callback bound => none_bound callback
            ((bound?_insert fresh _ _).mpr (.inl bound)), fun same => none_bound b.callback
            ((bound?_insert fresh _ _).mpr (.inr ?_))⟩
          rw [same]
        refine ⟨b :: bindings, rfl, ⟨?_, ?_⟩, ?_⟩
        · rw [List.map_cons, List.nodup_cons]
          refine ⟨fun listed => ?_, bindable.distinct⟩
          obtain ⟨b', member, same⟩ := List.mem_map.mp listed
          exact (later b' member).2 same
        · exact List.forall_mem_cons.mpr ⟨defined, bindable.defined⟩
        · exact List.forall_mem_cons.mpr ⟨fresh, fun b' member => (later b' member).1⟩

theorem ofBindings_of_bindable {bindings : List (Binding β)}
    (bindable : Bindable known bindings) :
    ∃ r, ofBindings known (bindings.map .inr) = .ok r ∧ ∀ production callback,
      r.bound? production = some callback ↔ ⟨production, callback⟩ ∈ bindings := by
  have fresh (b : Binding β) (_ : b ∈ bindings) :
      ({} : Replacements β).bound? b.production = none := by cases b.production <;> rfl
  obtain ⟨r, made, holds⟩ := addAll_of_bindable bindable fresh
  refine ⟨r, made, fun production callback => ?_⟩
  rw [holds]
  cases production <;> simp [bound?, own?]

/-- A table that was made holds the bindings that it was made of. -/
theorem ofBindings_eq_ok {bindings : List (Binding β)} {r : Replacements β}
    (made : ofBindings known (bindings.map .inr) = .ok r) :
    Bindable known bindings ∧ ∀ production callback,
      r.bound? production = some callback ↔ ⟨production, callback⟩ ∈ bindings := by
  obtain ⟨listed, same, bindable, _⟩ := bindable_of_addAll made
  obtain rfl : bindings = listed := List.map_injective_iff.mpr (fun _ _ => Sum.inr.inj) same
  obtain ⟨r', made', holds⟩ := ofBindings_of_bindable bindable
  obtain rfl : r = r' := Except.ok.inj (made.symm.trans made')
  exact ⟨bindable, holds⟩

end Replacements

end SentenceGen
