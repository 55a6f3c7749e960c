import SentenceGen.Datum.Access
import SentenceGen.Fault.Message

/-!
# Replacement bindings

A binding ties a callback to a production, or to every production that has no binding of its own.
A table of bindings has each name once and at most one default.  The tables do not care what a
callback is.
-/

namespace SentenceGen

/-- A production, none for the default, and what it is bound to. -/
structure Binding (β : Type) where
  production : Option String
  callback : β

namespace Binding

variable {β : Type}

def direct (production : Option String) (callback : Datum ⊕ β) : Except Fault (Binding β) :=
  match callback with
  | .inr callback => .ok ⟨production, callback⟩
  | .inl value => .error (Fault.notCallable value).told

def named (production : String) (callback : β) : Except Fault (Binding β) :=
  if production = "" then .error .emptyReplacementName else .ok ⟨some production, callback⟩

/-- Binds a function to the production that has its name; a function without a name cannot be bound
so. -/
def ofFunction (name : Option String) (callback : β) : Except Fault (Binding β) :=
  match name with
  | none | some "" | some "<lambda>" => .error .unnamedReplacement
  | some name => .ok ⟨some name, callback⟩

def default (callback : β) : Binding β := ⟨none, callback⟩

def isDefault (b : Binding β) : Bool := b.production.isNone

end Binding

/-- Callbacks by production, and the one for all other productions. -/
structure Replacements (β : Type) where
  named : List (String × β) := []
  default : Option β := none

namespace Replacements

variable {β : Type}

/-- Adds a binding; `known` says which productions there are. -/
def add (known : String → Bool) (r : Replacements β) (b : Binding β) :
    Except Fault (Replacements β) :=
  match b.production with
  | none =>
    if r.default.isSome then .error (.duplicateReplacement .null)
    else .ok { r with default := some b.callback }
  | some name =>
    if (r.named.lookup name).isSome then .error (.duplicateReplacement (.str name))
    else if known name then .ok { r with named := r.named ++ [(name, b.callback)] }
    else .error (.undefinedProduction (.str name) (.str "<replacement>"))

def addAll (known : String → Bool) :
    List (Datum ⊕ Binding β) → Replacements β → Except Fault (Replacements β)
  | [], r => .ok r
  | .inl stray :: _, _ => .error (.notBinding stray.kind)
  | .inr b :: rest, r => do addAll known rest (← r.add known b)

def ofBindings (known : String → Bool) (bindings : List (Datum ⊕ Binding β)) :
    Except Fault (Replacements β) := addAll known bindings {}

def own? (r : Replacements β) (name : String) : Option β := r.named.lookup name

/-- The callback for a name, the default if it has none of its own. -/
def find? (r : Replacements β) (name : String) : Option β := (r.own? name).or r.default

/-- The callback bound to the production under a key, if there is one. -/
def get? (r : Replacements β) (key : Datum) : Except Fault (Option β) := do
  return (← key.name?).bind r.own?

def get (r : Replacements β) (key : Datum) : Except Fault β := do
  match ← r.get? key with
  | some callback => return callback
  | none => throw (.missingKey key)

def names (r : Replacements β) : List String := r.named.map (·.1)

def size (r : Replacements β) : Nat := r.named.length

def isEmpty (r : Replacements β) : Bool := r.named.isEmpty && r.default.isNone

end Replacements

end SentenceGen
