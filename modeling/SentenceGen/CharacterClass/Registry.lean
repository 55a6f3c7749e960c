import SentenceGen.CharacterClass
import SentenceGen.Rule

/-!
# Registries of character classes

A registry resolves names: first among its own classes, then, if it allows them, among the general
categories.  It is extended by making a new one, so what was resolved before stays as it was.
-/

namespace SentenceGen

/-- What a class is made of: a ready class, or values still to be read. -/
inductive ClassSource where
  | ready (c : CharacterClass)
  | values (d : Datum)

namespace ClassSource

/-- The code points that values stand for; each text contributes all its characters. -/
def points : List Datum → List Datum
  | [] => []
  | .str s :: rest => s.toList.map (fun c => .int c.toNat) ++ points rest
  | value :: rest => value :: points rest

/-- A text alone is read as its characters. -/
def readPoints (d : Datum) : Except Fault (List Datum) :=
  match d with
  | .str _ => .ok (points [d])
  | _ => do return points (← d.members)

def resolve (name : String) : ClassSource → Except Fault CharacterClass
  | .ready c => .ok c
  | .values d => do CharacterClass.ofValues name (← readPoints d)

end ClassSource

/-- Named classes in the order of definition, and whether the general categories are known. -/
structure Registry where
  classes : List (String × CharacterClass)
  categories : Bool := true
  deriving DecidableEq, Repr

namespace Registry

/-- Defines a name, or redefines it in its place. -/
def define (classes : List (String × CharacterClass)) (name : String) (c : CharacterClass) :
    List (String × CharacterClass) :=
  if classes.any (·.1 == name) then
    classes.map fun entry => if entry.1 == name then (name, c) else entry
  else classes ++ [(name, c)]

def defineAll : List (String × ClassSource) → List (String × CharacterClass) →
    Except Fault (List (String × CharacterClass))
  | [], classes => .ok classes
  | (name, source) :: rest, classes => do
    defineAll rest (define classes name (← source.resolve name))

def ofSources (sources : List (String × ClassSource)) (categories : Bool := true) :
    Except Fault Registry := do
  return ⟨← defineAll sources [], categories⟩

/-- The categories that a registry offers: all but the surrogates. -/
def category? (r : Registry) (name : String) : Option Text.Category :=
  if r.categories then (Text.Category.ofName? name).filter (· ≠ .Cs) else none

def ownClass? (r : Registry) (name : String) : Option CharacterClass := r.classes.lookup name

def contains (r : Registry) (name : String) : Bool :=
  r.classes.any (·.1 == name) || (r.category? name).isSome

def resolve? (r : Registry) (name : String) : Option CharacterClass :=
  match r.ownClass? name with
  | some c => some c
  | none => (r.category? name).map .ofCategory

def resolve (r : Registry) (name : String) : Except Fault CharacterClass :=
  match r.resolve? name with
  | some c => .ok c
  | none => .error (.unknownCharacterClass (.str name))

def lookup (r : Registry) (name : String) (exclude : List Datum) : Except Fault CharacterClass := do
  (← r.resolve name).without exclude

def ofSet (r : Registry) (set : CharacterSet) : Except Fault CharacterClass := do
  return (← r.resolve set.name).remove set.points

/-- The class under a key, which should be a text. -/
def resolveKey (r : Registry) (key : Datum) : Except Fault CharacterClass := do
  match ← key.name? with
  | some name => r.resolve name
  | none => throw (.unknownCharacterClass key)

def get? (r : Registry) (key : Datum) : Except Fault (Option CharacterClass) := do
  return (← key.name?).bind r.resolve?

def get (r : Registry) (key : Datum) : Except Fault CharacterClass := do
  match ← r.get? key with
  | some c => return c
  | none => throw (.missingKey key)

def names (r : Registry) : List String := r.classes.map (·.1)

def size (r : Registry) : Nat := r.classes.length

/-- A new registry with more classes; a name that resolves already cannot be defined again. -/
def extend (r : Registry) (sources : List (String × ClassSource)) : Except Fault Registry := do
  match sources.find? fun source => r.contains source.1 with
  | some source => .error (.classDefined source.1)
  | none =>
    ofSources (r.classes.map (fun entry => (entry.1, .ready entry.2)) ++ sources) r.categories

def shown (r : Registry) : String :=
  let names := r.names.mergeSort (fun a b => decide (a ≤ b))
  let listed := ", ".intercalate (names.map Text.quoted)
  s!"CharacterClassRegistry([{listed}])"

/-- The control and separator characters of ASCII under their usual names. -/
def wellKnown : List (String × CharacterClass) :=
  [("NUL", 0x00), ("TAB", 0x09), ("LF", 0x0A), ("VT", 0x0B), ("FF", 0x0C), ("CR", 0x0D),
    ("FS", 0x1C), ("GS", 0x1D), ("RS", 0x1E), ("US", 0x1F), ("SPACE", 0x20)].map
    fun (name, codepoint) => (name, ⟨name, [codepoint]⟩)

/-- The registry that every grammar starts from. -/
def standard : Registry := ⟨wellKnown, true⟩

theorem contains_iff_resolve? (r : Registry) (name : String) :
    r.contains name = (r.resolve? name).isSome := by
  have own : r.classes.any (·.1 == name) = (r.ownClass? name).isSome := by
    unfold ownClass?
    induction r.classes with
    | nil => rfl
    | cons entry rest ih =>
      rw [List.any_cons, ih, List.lookup_cons, show (entry.1 == name) = (name == entry.1) from
        BEq.comm]
      cases name == entry.1 <;> simp
  unfold contains resolve?
  rw [own]
  cases r.ownClass? name <;> simp

end Registry

end SentenceGen
