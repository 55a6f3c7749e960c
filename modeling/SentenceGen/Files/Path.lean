import SentenceGen.Fault

/-!
# Paths

A path has a root, which is empty for a relative path, and names.  Its plain form has no empty names
and no single dots; a path without names is a single dot.  Double dots are kept: what they lead to
depends on the directories on the way, unless the path is collapsed.
-/

namespace SentenceGen

structure Path where
  root : String
  names : List String
  deriving DecidableEq, Repr

/-- Names on the way to a file or directory, innermost first.  The root is a name of its own, and so
is every double dot that leads out of the working directory. -/
abbrev Place := List String

namespace Place

def enter (place : Place) (name : String) : Place :=
  if name = ".." then
    match place with
    | [] => [name]
    | ".." :: _ => name :: place
    | ["/"] => place
    | _ :: outer => outer
  else name :: place

/-- The places on the way to a place, innermost first. -/
def above : Place → List Place
  | [] => []
  | _ :: outer => outer :: above outer

/-- The working directory, what it lies in, and the root. -/
def isOuter (place : Place) : Bool := place.all (· == "..") || place == ["/"]

def isInside (place : Place) : Bool := place.all fun name => name != ".." && name != "/"

end Place

namespace Path

/-- The root of a path.  Exactly two slashes in front are a root of their own. -/
def rootOf : List Char → String
  | '/' :: '/' :: '/' :: _ => "/"
  | '/' :: '/' :: _ => "//"
  | '/' :: _ => "/"
  | _ => ""

/-- The names between slashes, without those that lead nowhere. -/
def namesOf (text : List Char) : List String :=
  ((text.splitOn '/').map String.ofList).filter fun name => name != "" && name != "."

def ofText (text : String) : Path := ⟨rootOf text.toList, namesOf text.toList⟩

def text (path : Path) : String :=
  match path.root ++ "/".intercalate path.names with
  | "" => "."
  | plain => plain

def ofDatum (d : Datum) : Except Fault Path :=
  match d with
  | .str text => .ok (ofText text)
  | _ => .error (.notPath d.kind)

def parent (path : Path) : Path := { path with names := path.names.dropLast }

/-- Where a path sets out. -/
def base (path : Path) : Place := if path.root = "" then [] else ["/"]

/-- The place that the names lead to if each is taken for a directory. -/
def place (path : Path) : Place := path.names.foldl Place.enter path.base

def ofPlace (place : Place) : Path :=
  match place.reverse with
  | "/" :: names => ⟨"/", names⟩
  | names => ⟨"", names⟩

/-- The path without double dots, except in front. -/
def collapse (path : Path) : Path := ofPlace path.place

def hasNull (path : Path) : Bool := path.text.contains '\x00'

theorem length_parent_lt {path : Path} (h : path.names ≠ []) :
    path.parent.names.length < path.names.length := by
  have := List.length_pos_iff.2 h
  simp only [parent, List.length_dropLast]
  omega

end Path

end SentenceGen
