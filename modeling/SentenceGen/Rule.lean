import SentenceGen.Datum.Access
import SentenceGen.Fault.Message

/-!
# Grammar rules

The closed set of rules that productions are built from.  Rules nest; recursion happens only through
the names of productions, which the grammar resolves.  The builders check what they are given, so a
stray value reaches a rule only by the bare constructors.
-/

namespace SentenceGen

/-- A named character class less some values, which are kept without repeats as they were given. -/
structure CharacterSet where
  name : String
  exclude : List Datum
  isSet : Datum.IsSet exclude

namespace CharacterSet

/-- Sets are equal if they exclude the same values in any order. -/
instance : BEq CharacterSet where
  beq a b := a.name == b.name && Datum.sameMembers a.exclude b.exclude

def points (set : CharacterSet) : List Int := set.exclude.filterMap Datum.whole?

end CharacterSet

/-- How often a repetition may be expanded.  The bounds are kept as they were given; a maximum of
null is none. -/
structure Bounds where
  minimum : Datum
  maximum : Datum := .null

namespace Bounds

def atLeast (minimum : Nat) : Bounds := { minimum := .int minimum }

def between (minimum maximum : Nat) : Bounds := { minimum := .int minimum, maximum := .int maximum }

/-- Whether one number is below another; nothing else is. -/
def isBelow (a b : Datum) : Bool :=
  match a.magnitude?, b.magnitude? with
  | some x, some y => x.less y
  | _, _ => false

def admits (b : Bounds) (count : Int) : Bool :=
  !isBelow (.int count) b.minimum && !isBelow b.maximum (.int count)

/-- Bounds are equal if both are. -/
def equal (a b : Bounds) : Bool := a.minimum.same b.minimum && a.maximum.same b.maximum

end Bounds

inductive Rule where
  | literal (text : String)
  | sequence (items : List Rule)
  | alternative (items : List Rule)
  | optional (item : Rule)
  | repetition (item : Rule) (bounds : Bounds)
  | nonTerminal (name : String)
  | characters (set : CharacterSet)
  /-- A value that is no rule. -/
  | stray (value : Datum)
  deriving Inhabited

namespace Rule

def kind : Rule → String
  | .literal _ => "Literal"
  | .sequence _ => "Sequence"
  | .alternative _ => "Alternative"
  | .optional _ => "Optional"
  | .repetition .. => "Repetition"
  | .nonTerminal _ => "NonTerminal"
  | .characters _ => "CharacterSet"
  | .stray value => value.kind

def stray? : Rule → Option Datum
  | .stray value => some value
  | _ => none

def children : Rule → List Rule
  | .sequence items | .alternative items => items
  | .optional item | .repetition item _ => [item]
  | _ => []

mutual

/-- A rule and every rule nested in it, each before what it contains. -/
def preorder : Rule → List Rule
  | .sequence items => .sequence items :: preorderItems items
  | .alternative items => .alternative items :: preorderItems items
  | .optional item => .optional item :: preorder item
  | .repetition item bounds => .repetition item bounds :: preorder item
  | .literal text => [.literal text]
  | .nonTerminal name => [.nonTerminal name]
  | .characters set => [.characters set]
  | .stray value => [.stray value]

def preorderItems : List Rule → List Rule
  | [] => []
  | item :: rest => preorder item ++ preorderItems rest

end

mutual

def size : Rule → Nat
  | .sequence items | .alternative items => sizeItems items + 1
  | .optional item | .repetition item _ => size item + 1
  | _ => 1

def sizeItems : List Rule → Nat
  | [] => 0
  | item :: rest => size item + sizeItems rest

end

theorem sizeItems_append (xs ys : List Rule) :
    sizeItems (xs ++ ys) = sizeItems xs + sizeItems ys := by
  induction xs with
  | nil => simp [sizeItems]
  | cons x xs ih => simp [sizeItems, ih, Nat.add_assoc]

theorem size_eq (rule : Rule) : rule.size = sizeItems rule.children + 1 := by
  cases rule <;> simp [size, children, sizeItems]

/-- Visits the rules of a stack, top first, replacing each by what it contains. -/
def walkFrom : List Rule → List Rule
  | [] => []
  | rule :: stack => rule :: walkFrom (rule.children ++ stack)
termination_by stack => sizeItems stack
decreasing_by
  rw [sizeItems_append, sizeItems, size_eq]
  omega

/-- Every rule in a rule, in the order of visiting. -/
def walk (rule : Rule) : List Rule := walkFrom [rule]

mutual

/-- Sameness of rules; so must be what is in them, stray values included. -/
def same : Rule → Rule → Bool
  | .literal a, .literal b => a == b
  | .sequence xs, .sequence ys => sameItems xs ys
  | .alternative xs, .alternative ys => sameItems xs ys
  | .optional a, .optional b => same a b
  | .repetition a bounds, .repetition b others => same a b && bounds.equal others
  | .nonTerminal a, .nonTerminal b => a == b
  | .characters a, .characters b => a == b
  | .stray a, .stray b => a.same b
  | _, _ => false

def sameItems : List Rule → List Rule → Bool
  | [], [] => true
  | x :: xs, y :: ys => same x y && sameItems xs ys
  | _, _ => false

end

/-- Equality of rules; values that are no rules are compared as values. -/
def equal : Rule → Rule → Bool
  | .stray a, .stray b => a.equal b
  | a, b => same a b

/-! ### Builders -/

def checkRules : List Rule → Except Fault Unit
  | [] => .ok ()
  | .stray value :: _ => .error (Fault.notRule value).told
  | _ :: rest => checkRules rest

def ofText : Datum → Except Fault Rule
  | .str s => .ok (.literal s)
  | d => .error (.literalNotText d.kind)

def ofSequence (items : List Rule) : Except Fault Rule := do
  checkRules items
  return .sequence items

/-- The empty rule, which yields nothing. -/
def epsilon : Rule := .sequence []

/-- An alternative proper has at least two branches. -/
def branches (items : List Rule) : Except Fault Rule :=
  if items.length < 2 then .error .alternativeTooShort else .ok (.alternative items)

/-- A choice between rules; a single rule is no choice. -/
def ofAlternatives (items : List Rule) : Except Fault Rule := do
  checkRules items
  match items with
  | [item] => return item
  | _ => branches items

def asOne (items : List Rule) : Except Fault Rule := do
  checkRules items
  match items with
  | [] => .error .noRule
  | [item] => return item
  | _ => return .sequence items

def ofOptional (items : List Rule) : Except Fault Rule := do
  return .optional (← asOne items)

/-- A repetition whose bounds are numbers that do not cross. -/
def bounded (item : Rule) (bounds : Bounds) : Except Fault Rule := do
  if ← bounds.minimum.less (.int 0) then throw (Fault.negativeMinimum bounds.minimum).told
  unless bounds.maximum.isNull do
    if ← bounds.maximum.less bounds.minimum then
      throw (Fault.crossedBounds bounds.maximum bounds.minimum).told
  return .repetition item bounds

def ofRepeated (bounds : Bounds) (items : List Rule) : Except Fault Rule := do
  bounded (← asOne items) bounds

/-- What an exclusion leaves out: a text its only character, any other value itself. -/
def excludedValue (item : Datum) : Except Fault { value : Datum // value.hashable = true } :=
  match item with
  | .str s =>
    match item.codepoint? with
    | some c => .ok ⟨.int c, rfl⟩
    | none => .error (.excludedNotSingle s)
  | _ =>
    if hashable : item.hashable = true then .ok ⟨item, hashable⟩
    else .error (.unhashable item.kind)

def ofCharacters (name : String) (exclude : Datum) : Except Fault Rule := do
  let values ← (← exclude.members).mapM excludedValue
  return .characters ⟨name, Datum.distinct values.unattach,
    Datum.isSet_distinct fun _ member => (List.mem_unattach.mp member).1⟩

end Rule

end SentenceGen
