/-!
# Kinds of faults

The library's own faults form a hierarchy: those found while a grammar or a generator is built, and
those of a generation.  The remaining kinds belong to misused values and have no parent.
-/

namespace SentenceGen

inductive FaultKind where
  | library
  | grammar
  | undefinedProduction
  | unknownCharacterClass
  | duplicateProduction
  | duplicateReplacement
  | generation
  | scriptExhausted
  | scriptMismatch
  | invalidDecision
  | limitExceeded
  | tooDeep
  | tooLarge
  | type
  | value
  | key
  | index
  | member
  | runtime
  | recursion
  | overflow
  | system
  | directory
  | notDirectory
  | fileExists
  | fileNotFound
  | document
  deriving DecidableEq, Repr

namespace FaultKind

def name : FaultKind → String
  | .library => "GrammarGenError"
  | .grammar => "GrammarError"
  | .undefinedProduction => "UndefinedProduction"
  | .unknownCharacterClass => "UnknownCharacterClass"
  | .duplicateProduction => "DuplicateProduction"
  | .duplicateReplacement => "DuplicateReplacement"
  | .generation => "GenerationError"
  | .scriptExhausted => "ScriptExhausted"
  | .scriptMismatch => "ScriptMismatch"
  | .invalidDecision => "InvalidDecision"
  | .limitExceeded => "GenerationLimitExceeded"
  | .tooDeep => "GenerationTooDeep"
  | .tooLarge => "GenerationTooLarge"
  | .type => "TypeError"
  | .value => "ValueError"
  | .key => "KeyError"
  | .index => "IndexError"
  | .member => "AttributeError"
  | .runtime => "RuntimeError"
  | .recursion => "RecursionError"
  | .overflow => "OverflowError"
  | .system => "OSError"
  | .directory => "IsADirectoryError"
  | .notDirectory => "NotADirectoryError"
  | .fileExists => "FileExistsError"
  | .fileNotFound => "FileNotFoundError"
  | .document => "ScannerError"

/-- The kinds that a caller may raise. -/
def all : List FaultKind :=
  [.library, .grammar, .undefinedProduction, .unknownCharacterClass, .duplicateProduction,
    .duplicateReplacement, .generation, .scriptExhausted, .scriptMismatch, .invalidDecision,
    .limitExceeded, .tooDeep, .tooLarge, .type, .value, .key, .index, .member, .runtime,
    .recursion, .overflow, .system]

def ofName? (name : String) : Option FaultKind := all.find? fun kind => kind.name == name

/-- The kind directly above, within the library's hierarchy. -/
def parent? : FaultKind → Option FaultKind
  | .grammar | .generation => some .library
  | .undefinedProduction | .unknownCharacterClass | .duplicateProduction
  | .duplicateReplacement => some .grammar
  | .scriptExhausted | .scriptMismatch | .invalidDecision | .limitExceeded => some .generation
  | .tooDeep | .tooLarge => some .limitExceeded
  | _ => none

/-- The distance to the top of the hierarchy. -/
def level : FaultKind → Nat
  | .grammar | .generation => 1
  | .undefinedProduction | .unknownCharacterClass | .duplicateProduction
  | .duplicateReplacement | .scriptExhausted | .scriptMismatch | .invalidDecision
  | .limitExceeded => 2
  | .tooDeep | .tooLarge => 3
  | _ => 0

theorem level_lt_of_parent? {kind parent : FaultKind} (h : kind.parent? = some parent) :
    parent.level < kind.level := by
  cases kind <;> simp_all [parent?] <;> subst h <;> decide

def lineage (kind : FaultKind) : List FaultKind :=
  match _h : kind.parent? with
  | some parent => kind :: parent.lineage
  | none => [kind]
termination_by kind.level
decreasing_by exact level_lt_of_parent? ‹_›

def isOwn (kind : FaultKind) : Bool := kind = .library ∨ kind.parent? ≠ none

end FaultKind

end SentenceGen
