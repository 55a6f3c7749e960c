import SentenceGen.Files.Path

/-!
# Files

The texts of files by their places.  A path is followed name by name, and every name on the way must
be a directory.  Nothing is known of what lies outside the working directory but the directories
above it.  Directories made on the way to a failure stay.
-/

namespace SentenceGen

inductive FileEntry where
  | directory
  | file (text : String)
  deriving DecidableEq, Repr

structure Files where
  entries : List (Place × FileEntry) := []

namespace Files

def entry? (files : Files) (place : Place) : Option FileEntry :=
  if place.isOuter then some .directory else files.entries.lookup place

def put (files : Files) (place : Place) (entry : FileEntry) : Files :=
  ⟨(place, entry) :: files.entries.filter fun other => other.1 != place⟩

def longestName : Nat := 255

def longestPath : Nat := 4095

/-- Follows names from a place.  What they lead to need not exist, but all before it must. -/
def follow (files : Files) (place : Place) : List String → Except PathTrouble Place
  | [] => .ok place
  | name :: rest =>
    match files.entry? place with
    | none => .error .missing
    | some (.file _) => .error .notDirectory
    | some .directory =>
      if longestName < name.utf8ByteSize then .error .tooLong
      else files.follow (place.enter name) rest

def locate (files : Files) (path : Path) : Except PathTrouble Place :=
  if longestPath < path.text.utf8ByteSize then .error .tooLong
  else files.follow path.base path.names

def find (files : Files) (path : Path) : Except PathTrouble FileEntry := do
  match files.entry? (← files.locate path) with
  | some entry => return entry
  | none => throw .missing

def has (files : Files) (path : Path) : Bool := (files.find path).isOk

/-- The fault of a path in trouble. -/
def complain {α : Type} (path : Path) (result : Except PathTrouble α) : Except Fault α :=
  result.mapError fun trouble => .unusablePath trouble path.text

def makeOne (files : Files) (path : Path) : Except PathTrouble Files := do
  let place ← files.locate path
  match files.entry? place with
  | some _ => throw .taken
  | none => return files.put place .directory

/-- No harm is done if a directory cannot be made that is there already. -/
def settle (files : Files) (path : Path) (trouble : PathTrouble) : Except Fault Unit :=
  match files.find path with
  | .ok .directory => .ok ()
  | _ => .error (.unusablePath trouble path.text)

def makeLast (files : Files) (path : Path) : Except Fault Unit × Files :=
  match files.makeOne path with
  | .ok files => (.ok (), files)
  | .error trouble => (files.settle path trouble, files)

/-- Makes a directory and all that are missing on the way. -/
def makeAll (files : Files) (path : Path) : Except Fault Unit × Files :=
  match files.makeOne path with
  | .ok files => (.ok (), files)
  | .error .missing =>
    if _h : path.names = [] then (files.settle path .missing, files)
    else
      match files.makeAll path.parent with
      | (.ok (), files) => files.makeLast path
      | failed => failed
  | .error trouble => (files.settle path trouble, files)
termination_by path.names.length
decreasing_by exact Path.length_parent_lt ‹_›

def makeParent (files : Files) (path : Path) : Except Fault Unit × Files :=
  if path.parent.hasNull then (.error .nullByte, files) else files.makeAll path.parent

/-- Changes the text of a file, which is made if need be; its directory must exist. -/
def modify (files : Files) (path : Path) (change : String → String) : Except Fault Files := do
  if path.hasNull then throw .nullByte
  let place ← complain path (files.locate path)
  match files.entry? place with
  | some .directory => throw (.unusablePath .directory path.text)
  | some (.file text) => return files.put place (.file (change text))
  | none => return files.put place (.file (change ""))

def write (files : Files) (path : Path) (text : String) : Except Fault Files :=
  files.modify path fun _ => text

def append (files : Files) (path : Path) (text : String) : Except Fault Files :=
  files.modify path (· ++ text)

/-- The files with the given texts; the directories above them are there, too. -/
def ofTexts (texts : List (String × String)) : Files :=
  texts.foldl (fun files (name, text) =>
    let place := (Path.ofText name).place
    let above := place.above.filter fun outer => (files.entry? outer).isNone
    (above.foldl (fun files outer => files.put outer .directory) files).put place (.file text)) {}

/-- The texts of the files in the working directory, by their paths. -/
def texts (files : Files) : List (String × String) :=
  files.entries.filterMap fun
    | (place, .file text) =>
      if place.isInside then some ((Path.ofPlace place).text, text) else none
    | _ => none

end Files

end SentenceGen
