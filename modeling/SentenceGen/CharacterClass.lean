import SentenceGen.Datum.Access
import SentenceGen.Fault.Message
import SentenceGen.Text.CategoryTable

/-!
# Character classes

A character class is a named, ordered set of Unicode scalar values: the code points without the
surrogates.
-/

namespace SentenceGen

/-- Code points up to U+10FFFF that are no surrogates. -/
def IsScalar (codepoint : Nat) : Prop :=
  codepoint ≤ 0x10FFFF ∧ ¬(0xD800 ≤ codepoint ∧ codepoint ≤ 0xDFFF)

instance (codepoint : Nat) : Decidable (IsScalar codepoint) := by
  unfold IsScalar; infer_instance

theorem isScalar_of_char (c : Char) : IsScalar c.toNat := by
  have valid : c.toNat.isValidChar := c.valid
  unfold Nat.isValidChar at valid
  unfold IsScalar
  omega

structure CharacterClass where
  name : String
  codepoints : List Nat
  deriving DecidableEq, Repr

namespace CharacterClass

def scalar? (value : Datum) : Option Nat :=
  match value.properInt? with
  | some n => if 0 ≤ n ∧ IsScalar n.toNat then some n.toNat else none
  | none => none

def validate (name : String) : List Datum → Except Fault (List Nat)
  | [] => .ok []
  | value :: rest =>
    match scalar? value with
    | some c => do return c :: (← validate name rest)
    | none => .error (Fault.invalidCodepoint value name).told

/-- A class of the given values, repeats dropped; what remains must be scalar values. -/
def ofValues (name : String) (values : List Datum) : Except Fault CharacterClass := do
  values.forM Datum.requireHashable
  return ⟨name, ← validate name (Datum.distinct values)⟩

def ofCategory (category : Text.Category) : CharacterClass :=
  ⟨category.name, category.codepoints⟩

def size (c : CharacterClass) : Nat := c.codepoints.length

def isEmpty (c : CharacterClass) : Bool := c.codepoints.isEmpty

instance : Membership Nat CharacterClass where
  mem c codepoint := codepoint ∈ c.codepoints

instance (codepoint : Nat) (c : CharacterClass) : Decidable (codepoint ∈ c) :=
  inferInstanceAs (Decidable (codepoint ∈ c.codepoints))

theorem mem_def {codepoint : Nat} {c : CharacterClass} :
    codepoint ∈ c ↔ codepoint ∈ c.codepoints := Iff.rfl

def hasInt (c : CharacterClass) (n : Int) : Bool := decide (0 ≤ n) && decide (n.toNat ∈ c)

/-- Whether a value is in the class; a text counts as its only character. -/
def contains (c : CharacterClass) (value : Datum) : Except Fault Bool := do
  value.requireHashable
  match value with
  | .str _ => return value.codepoint?.any (· ∈ c)
  | _ => return value.whole?.any c.hasInt

/-- The code point at an index; a negative one counts from the end. -/
def at? (c : CharacterClass) (index : Datum) : Except Fault Nat := do
  match c.codepoints[← index.position "tuple" c.size]? with
  | some codepoint => return codepoint
  | none => throw (.indexOutOfRange "tuple")

def remove (c : CharacterClass) (exclude : List Int) : CharacterClass :=
  { c with codepoints := c.codepoints.filter fun codepoint => !exclude.contains (codepoint : Int) }

/-- The class less some values; a value that is no integer takes nothing away. -/
def without (c : CharacterClass) (exclude : List Datum) : Except Fault CharacterClass := do
  exclude.forM Datum.requireHashable
  return c.remove (exclude.filterMap Datum.whole?)

@[simp] theorem mem_remove {c : CharacterClass} {exclude : List Int} {codepoint : Nat} :
    codepoint ∈ c.remove exclude ↔ codepoint ∈ c ∧ (codepoint : Int) ∉ exclude := by
  simp [mem_def, remove]

@[simp] theorem remove_nil (c : CharacterClass) : c.remove [] = c := by
  cases c; simp [remove]

theorem hasInt_natCast (c : CharacterClass) (n : Nat) : c.hasInt (n : Int) = decide (n ∈ c) := by
  simp [hasInt]

end CharacterClass

end SentenceGen
