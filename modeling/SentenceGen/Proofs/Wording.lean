import Mathlib.Algebra.Group.Nat.Defs
import SentenceGen.Fault.Message

/-!
# What cannot be put into words

An integer with too many digits is the one thing that stops a text from being composed.  So the
message of a fault comes out as the fault that it belongs to, or as that one.
-/

namespace SentenceGen

/-- Composing fails, if at all, for an integer with too many digits. -/
def Worded {α : Type} (result : Except Fault α) : Prop :=
  ∀ fault, result = .error fault → fault = .tooManyDigits none

namespace Worded

variable {α β : Type}

theorem ok (a : α) : Worded (.ok a : Except Fault α) := nofun

theorem bind {result : Except Fault α} {next : α → Except Fault β} (first : Worded result)
    (second : ∀ a, Worded (next a)) : Worded (result >>= next) := by
  cases result with
  | error fault =>
    rintro _ ⟨⟩
    exact first fault rfl
  | ok a => exact second a

end Worded

namespace Datum

theorem numeral_eq (n : Int) :
    numeral n =
      if n.natAbs < 10 ^ maximumDigits then .ok (toString n) else .error (.tooManyDigits none) := by
  have short := Nat.length_toDigits_le_iff (k := maximumDigits) (by decide : 1 < 10)
    (by decide : 0 < maximumDigits) (n := n.natAbs)
  simp only [numeral, short]

/-- An integer can be printed if it has no more digits than are written out. -/
theorem numeral_eq_ok {n : Int} {words : String} :
    numeral n = .ok words ↔ n.natAbs < 10 ^ maximumDigits ∧ words = toString n := by
  rw [numeral_eq]
  split
  next short => simp [short, eq_comm]
  next long => simp [long]

theorem numeral_eq_error {n : Int} (long : 10 ^ maximumDigits ≤ n.natAbs) :
    numeral n = .error (.tooManyDigits none) := by
  rw [numeral_eq, if_neg (Nat.not_lt.mpr long)]

theorem worded_numeral (n : Int) : Worded (numeral n) := by
  unfold numeral
  split
  · exact .ok _
  · rintro _ ⟨⟩
    rfl

mutual

theorem worded_shown (d : Datum) : Worded d.shown := by
  cases d with
  | int n => exact worded_numeral n
  | list items => exact (worded_shownItems items).bind fun _ => .ok _
  | map entries => exact (worded_shownEntries entries).bind fun _ => .ok _
  | _ => exact .ok _

theorem worded_shownItems (items : List Datum) : Worded (shownItems items) := by
  cases items with
  | nil => exact .ok _
  | cons item rest =>
    exact (worded_shown item).bind fun _ => (worded_shownItems rest).bind fun _ => .ok _

theorem worded_shownEntries (entries : List (Datum × Datum)) : Worded (shownEntries entries) := by
  cases entries with
  | nil => exact .ok _
  | cons entry rest =>
    exact (worded_shown entry.1).bind fun _ => (worded_shown entry.2).bind fun _ =>
      (worded_shownEntries rest).bind fun _ => .ok _

end

theorem worded_text (d : Datum) : Worded d.text := by
  cases d with
  | str s => exact .ok s
  | _ => exact worded_shown _

mutual

/-- No integer in the datum has too many digits. -/
def Printable : Datum → Prop
  | .int n => n.natAbs < 10 ^ maximumDigits
  | .list items => PrintableItems items
  | .map entries => PrintableEntries entries
  | _ => True

def PrintableItems : List Datum → Prop
  | [] => True
  | item :: rest => Printable item ∧ PrintableItems rest

def PrintableEntries : List (Datum × Datum) → Prop
  | [] => True
  | (key, value) :: rest => (Printable key ∧ Printable value) ∧ PrintableEntries rest

end

mutual

/-- What can be shown has no integer with too many digits, and conversely. -/
theorem exists_shown_iff : ∀ d : Datum, (∃ words, d.shown = .ok words) ↔ d.Printable
  | .int n => by simp [shown, Printable, numeral_eq_ok]
  | .list items => by
    rw [Printable, ← exists_shownItems_iff items, shown]
    cases shownItems items <;> simp [bind, Except.bind, pure, Except.pure]
  | .map entries => by
    rw [Printable, ← exists_shownEntries_iff entries, shown]
    cases shownEntries entries <;> simp [bind, Except.bind, pure, Except.pure]
  | .null | .bool _ | .float _ | .str _ => by simp [shown, Printable]

theorem exists_shownItems_iff : ∀ items : List Datum,
    (∃ words, shownItems items = .ok words) ↔ PrintableItems items
  | [] => by simp [shownItems, PrintableItems]
  | item :: rest => by
    rw [PrintableItems, ← exists_shown_iff item, ← exists_shownItems_iff rest, shownItems]
    cases item.shown <;> cases shownItems rest <;>
      simp [bind, Except.bind, pure, Except.pure]

theorem exists_shownEntries_iff : ∀ entries : List (Datum × Datum),
    (∃ words, shownEntries entries = .ok words) ↔ PrintableEntries entries
  | [] => by simp [shownEntries, PrintableEntries]
  | (key, value) :: rest => by
    rw [PrintableEntries, ← exists_shown_iff key, ← exists_shown_iff value,
      ← exists_shownEntries_iff rest, shownEntries]
    cases key.shown <;> cases value.shown <;> cases shownEntries rest <;>
      simp [bind, Except.bind, pure, Except.pure]

end

theorem exists_text_iff (d : Datum) : (∃ words, d.text = .ok words) ↔ d.Printable := by
  cases d with
  | str s => simp [Printable]
  | _ => exact exists_shown_iff _

end Datum

namespace Fault

open Datum

theorem worded_unlessNull (words : String) (d : Datum) : Worded (unlessNull words d) := by
  unfold unlessNull
  split
  · exact .ok words
  · exact worded_text d

theorem worded_detailText (kind : FaultKind) (details : List Datum) :
    Worded (detailText kind details) := by
  unfold detailText
  split
  · exact .ok _
  · split
    · exact worded_shown _
    · exact worded_text _
  · exact (worded_shownItems _).bind fun _ => .ok _

theorem worded_message (fault : Fault) : Worded fault.message := by
  unfold message
  split <;> repeat' first
    | exact .ok _
    | exact .pure _
    | exact worded_text _
    | exact worded_shown _
    | exact worded_detailText _ _
    | exact worded_unlessNull _ _
    | refine Worded.bind ?_ fun _ => ?_
    | split

theorem told_eq (fault : Fault) : fault.told = fault ∨ fault.told = .tooManyDigits none := by
  unfold told
  split
  next => exact .inl rfl
  next trouble unworded => exact .inr (worded_message fault trouble unworded)

/-- A wrong value stays one when there are no words for it. -/
theorem kind_told {fault : Fault} (h : fault.kind = .value) : fault.told.kind = .value := by
  rcases fault.told_eq with same | unworded
  · rw [same, h]
  · rw [unworded]
    rfl

end Fault

end SentenceGen
