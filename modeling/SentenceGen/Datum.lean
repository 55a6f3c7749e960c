import SentenceGen.Decimal.Double

/-!
# Plain data

Values whose type nobody has declared: settings read from a file, answers of a decision source,
stray entries in a rule.  Truth values count as the integers one and zero, and numbers are
compared by the point of the real line that they denote.

There are no dates, byte strings or sets among them, though a document or a caller may hold such
values; nor has a text lone surrogates.
-/

namespace SentenceGen

/-- An integer with more decimal digits is neither written out nor read. -/
def maximumDigits : Nat := 4300

inductive Datum where
  | null
  | bool (value : Bool)
  | int (value : Int)
  | float (value : Float)
  | str (value : String)
  | list (items : List Datum)
  | map (entries : List (Datum × Datum))
  deriving Inhabited

namespace Datum

def kind : Datum → String
  | .null => "NoneType"
  | .bool _ => "bool"
  | .int _ => "int"
  | .float _ => "float"
  | .str _ => "str"
  | .list _ => "list"
  | .map _ => "dict"

def isNull : Datum → Bool
  | .null => true
  | _ => false

/-- The integer behind an integer or a truth value. -/
def int? : Datum → Option Int
  | .bool b => some (if b then 1 else 0)
  | .int n => some n
  | _ => none

/-- The integer behind an integer proper; a truth value is none. -/
def properInt? : Datum → Option Int
  | .int n => some n
  | _ => none

def str? : Datum → Option String
  | .str s => some s
  | _ => none

def magnitude? : Datum → Option Decimal.Magnitude
  | .float x => some (.ofFloat x)
  | d => d.int?.map .ofInt

/-- The integer that a number is equal to. -/
def whole? (d : Datum) : Option Int := d.magnitude?.bind Decimal.Magnitude.integer?

/-- Whether a datum is a number that is comparable with nothing. -/
def isUndefined : Datum → Bool
  | .float x => Decimal.Double.ofFloat x = .undefined
  | _ => false

/-- Null, false, zero and what is empty do not hold. -/
def truthy : Datum → Bool
  | .null => false
  | .bool b => b
  | .int n => n != 0
  | .float x => !(Decimal.Magnitude.ofFloat x).equal (.ofInt 0)
  | .str s => s != ""
  | .list items => !items.isEmpty
  | .map entries => !entries.isEmpty

/-- Lists and maps can change, so they are no keys and no members of a set. -/
def hashable : Datum → Bool
  | .list _ | .map _ => false
  | _ => true

/-- Equality of data that are not collections. -/
def scalarEqual : Datum → Datum → Bool
  | .null, .null => true
  | .str a, .str b => a == b
  | a, b =>
    match a.magnitude?, b.magnitude? with
    | some x, some y => x.equal y
    | _, _ => false

/-- Sameness of data that are not collections: what is undefined is the same as itself. -/
def scalarSame (a b : Datum) : Bool := a.isUndefined && b.isUndefined || scalarEqual a b

mutual

/-- Equality: numbers by value, lists item by item, maps as sets of entries.  Members of collections
need only be the same. -/
def equal : Datum → Datum → Bool
  | .list xs, .list ys => equalItems xs ys
  | .map xs, .map ys => xs.length == ys.length && equalEntries xs ys
  | a, b => scalarEqual a b

def equalItems : List Datum → List Datum → Bool
  | [], [] => true
  | x :: xs, y :: ys => (x.isUndefined && y.isUndefined || equal x y) && equalItems xs ys
  | _, _ => false

/-- Every entry of the first map has its key in the second one, with an equal value. -/
def equalEntries : List (Datum × Datum) → List (Datum × Datum) → Bool
  | [], _ => true
  | (key, value) :: rest, ys =>
    (match ys.find? fun entry => scalarSame key entry.1 with
      | some entry => value.isUndefined && entry.2.isUndefined || equal value entry.2
      | none => false) && equalEntries rest ys

end

/-- What membership in a collection goes by: equality, or both being undefined. -/
def same (a b : Datum) : Bool := a.isUndefined && b.isUndefined || equal a b

/-- Keeps the first of the same values. -/
def distinct (values : List Datum) : List Datum :=
  (values.foldl (fun kept value =>
    if kept.any (·.same value) then kept else value :: kept) []).reverse

/-- Values that a set holds together: they are hashable and no two of them the same. -/
structure IsSet (values : List Datum) : Prop where
  hashable : ∀ value ∈ values, value.hashable = true
  distinct : values.Pairwise fun a b => a.same b = false

def sameMembers (xs ys : List Datum) : Bool :=
  xs.length == ys.length && xs.all fun x => ys.any x.same

def lookup (entries : List (Datum × Datum)) (key : String) : Option Datum :=
  (entries.find? fun entry => scalarEqual (.str key) entry.1).map (·.2)

def hasKey (entries : List (Datum × Datum)) (key : String) : Bool := (lookup entries key).isSome

/-- Puts a value under a key that is no collection: in its place if the key is there, else at the
end. -/
def insert (entries : List (Datum × Datum)) (key value : Datum) : List (Datum × Datum) :=
  if entries.any fun entry => scalarSame key entry.1 then
    entries.map fun entry => if scalarSame key entry.1 then (entry.1, value) else entry
  else entries ++ [(key, value)]

theorem isSet_nil : IsSet [] := ⟨by simp, .nil⟩

theorem isSet_distinct {values : List Datum} (h : ∀ value ∈ values, value.hashable = true) :
    IsSet (distinct values) := by
  -- what is kept stands in reverse, so an earlier value is compared with those in front of it
  suffices kept : ∀ (values seen : List Datum), (∀ value ∈ values, value.hashable = true) →
      (∀ value ∈ seen, value.hashable = true) → (seen.Pairwise fun b a => a.same b = false) →
      let all := values.foldl (fun kept value =>
        if kept.any (·.same value) then kept else value :: kept) seen
      (∀ value ∈ all, value.hashable = true) ∧ all.Pairwise fun b a => a.same b = false by
    obtain ⟨hashable, pairwise⟩ := kept values [] h (by simp) .nil
    exact ⟨by simpa [distinct] using hashable, List.pairwise_reverse.mpr pairwise⟩
  intro values
  induction values with
  | nil => intro seen _ hashable pairwise; exact ⟨hashable, pairwise⟩
  | cons value rest ih =>
    intro seen hvalues hseen pairwise
    rw [List.forall_mem_cons] at hvalues
    rw [List.foldl_cons]
    split
    next => exact ih seen hvalues.2 hseen pairwise
    next fresh =>
      refine ih (value :: seen) hvalues.2 (List.forall_mem_cons.mpr ⟨hvalues.1, hseen⟩) ?_
      exact List.pairwise_cons.mpr ⟨by simpa using fresh, pairwise⟩

@[simp] theorem magnitude?_int (n : Int) : magnitude? (.int n) = some (.ofInt n) := rfl

@[simp] theorem equal_int (m n : Int) : equal (.int m) (.int n) = decide (m = n) := by
  simp [equal, scalarEqual]

@[simp] theorem equal_str (a b : String) : equal (.str a) (.str b) = (a == b) := by
  simp [equal, scalarEqual]

@[simp] theorem whole?_int (n : Int) : whole? (.int n) = some n := by simp [whole?]

@[simp] theorem same_int (m n : Int) : same (.int m) (.int n) = decide (m = n) := by
  simp [same, isUndefined]

@[simp] theorem same_str (a b : String) : same (.str a) (.str b) = (a == b) := by
  simp [same, isUndefined]

end Datum

end SentenceGen
