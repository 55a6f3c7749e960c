import SentenceGen.Config
import SentenceGen.Files
import SentenceGen.Logging.Format

/-!
# Logging setup

Settings say at which level records pass, how a line looks and whether lines also go to a file.
Setting up again replaces what was set up before; files are only ever appended to.
-/

namespace SentenceGen.Logging

/-- Where lines go: a stream, named by its number, or a file. -/
inductive Destination where
  | stream (index : Nat)
  | file (path : Path)
  deriving DecidableEq, Repr

structure Handler where
  destination : Destination
  level : Int
  format : String
  deriving DecidableEq, Repr

/-- The root logger of the library, with what its handlers have written. -/
structure Output where
  level : Int := warning
  handlers : List Handler := []
  streams : Array String := #[]
  files : Files := {}

/-- The level of a name in any case, among them two letters beyond ASCII whose capitals are ASCII;
an unknown name means the information level.  -/
def levelOf (name : String) : Int :=
  let capital (c : Char) : Char :=
    if c = Char.ofNat 0x131 then 'I' else if c = Char.ofNat 0x17F then 'S' else c.toUpper
  (levels.lookup (name.map capital)).getD info

namespace Output

def openStream (o : Output) : Output := { o with streams := o.streams.push "" }

def fileOf (file : Datum) : Except Fault (Option Path) :=
  if file.truthy then (Path.ofDatum file).map some else .ok none

/-- Opens a log file for appending.  The directories on the way to it are made, but the file is the
one that its collapsed path leads to. -/
def openFile (files : Files) (path : Path) : Except Fault Unit × Files :=
  match files.makeParent path with
  | (.ok (), files) =>
    match files.append path.collapse "" with
    | .ok files => (.ok (), files)
    | .error fault => (.error fault, files)
  | failed => failed

def read (settings : LoggingSettings) : Except Fault (Int × String × Option Path) := do
  match settings.level with
  | .str name => return (levelOf name, ← checkFormat settings.format, ← fileOf settings.file)
  | level => throw (.noAttribute level.kind "upper")

/-- Replaces the handlers according to settings; `console` says whether to use the last stream.  The
old handlers stay if a file cannot be opened. -/
def setup (o : Output) (settings : LoggingSettings) (console : Bool) :
    Except Fault Unit × Output :=
  match read settings with
  | .error fault => (.error fault, o)
  | .ok (level, format, file) =>
    match file.elim (.ok (), o.files) (openFile o.files) with
    | (.error fault, files) => (.error fault, { o with files })
    | (.ok (), files) =>
      let streams := if console then [Destination.stream (o.streams.size - 1)] else []
      let destinations := streams ++ file.toList.map fun path => .file path.collapse
      (.ok (), { o with
        level
        handlers := destinations.map fun destination => { destination, level, format }
        files })

def write (o : Output) (line : String) : Destination → Output
  | .stream index => { o with streams := o.streams.modify index (· ++ line) }
  | .file path =>
    match o.files.append path line with
    | .ok files => { o with files }
    | .error _ => o

/-- Passes a record to a handler; a record that the format does not fit is lost. -/
def handle (r : Record) (o : Output) (h : Handler) : Output :=
  if h.level ≤ r.level then
    match renderLine h.format r with
    | some line => o.write (line ++ "\n") h.destination
    | none => o
  else o

def log (o : Output) (r : Record) : Output :=
  if passes o.level r.level then o.handlers.foldl (handle r) o else o

end Output

end SentenceGen.Logging
