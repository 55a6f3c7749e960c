import SentenceGen.Fault.Kind

/-!
# Trouble with paths

Why a path cannot be used.  Every cause has a number and a reason, which reports show before the
path itself.
-/

namespace SentenceGen

inductive PathTrouble where
  /-- Nothing has the name. -/
  | missing
  /-- Something has the name already. -/
  | taken
  /-- The path leads through a file. -/
  | notDirectory
  /-- A directory stands where a file should. -/
  | directory
  /-- The path, or one name in it, has too many bytes. -/
  | tooLong
  deriving DecidableEq, Repr

namespace PathTrouble

def kind : PathTrouble → FaultKind
  | .missing => .fileNotFound
  | .taken => .fileExists
  | .notDirectory => .notDirectory
  | .directory => .directory
  | .tooLong => .system

def number : PathTrouble → Nat
  | .missing => 2
  | .taken => 17
  | .notDirectory => 20
  | .directory => 21
  | .tooLong => 36

def reason : PathTrouble → String
  | .missing => "No such file or directory"
  | .taken => "File exists"
  | .notDirectory => "Not a directory"
  | .directory => "Is a directory"
  | .tooLong => "File name too long"

end PathTrouble

end SentenceGen
