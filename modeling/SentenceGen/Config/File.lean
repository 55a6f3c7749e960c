import SentenceGen.Config
import SentenceGen.Config.Assignments
import SentenceGen.Files
import SentenceGen.Yaml.Printer
import SentenceGen.Yaml.Reader

/-!
# Settings in files

Settings are read from the file that is named or else from the first that exists of three standard
ones; before that, a file of variables in the working directory may set what the environment does
not.
-/

namespace SentenceGen

namespace Config

/-- Settings in a document.  What does not hold counts as an empty map. -/
def ofDocument (env : Environment) (path text : String) : Except Fault Config := do
  let data ← Yaml.read text
  if data.truthy then
    match data with
    | .map entries => ofEntries env entries
    | _ => throw (.configNotMapping path)
  else ofEntries env []

/-- The settings in a file.  A path that leads to nothing or through a file is reported as a missing
file, and so is one that can be no path. -/
def ofFile (env : Environment) (files : Files) (path : Path) : Except Fault Config :=
  match if path.hasNull then .error .missing else files.find path with
  | .ok (.file text) => ofDocument env path.text text
  | .ok .directory => .error (.unusablePath .directory path.text)
  | .error .tooLong => .error (.unusablePath .tooLong path.text)
  | .error _ => .error (.configNotFound path.text)

/-- Where settings are looked for, the first place first. -/
def standardPaths : List Path :=
  [⟨"", ["config", "grammargen.yaml"]⟩, ⟨"", ["grammargen.yaml"]⟩,
    ⟨"", ["home", ".grammargen", "config.yaml"]⟩]

def variablesPath : Path := ⟨"", [".env"]⟩

/-- The environment with the variables that the working directory sets. -/
def loadEnvironment (env : Environment) (files : Files) : Environment :=
  match files.find variablesPath with
  | .ok (.file text) => Assignments.addTo env (Assignments.read text)
  | _ => env

/-- The settings of the file under a path, of the first standard one if the path does not hold, or
those that hold when none are given; with the environment in which they were read. -/
def load (env : Environment) (files : Files) (path : Datum) :
    Except Fault (Config × Environment) := do
  let env := loadEnvironment env files
  if path.truthy then return (← ofFile env files (← Path.ofDatum path), env)
  match standardPaths.find? files.has with
  | some path => return (← ofFile env files path, env)
  | none => return (← default env, env)

def document (config : Config) : Except Fault String := Yaml.document config.toEntries

/-- Writes settings to a file; the directories on the way are made, and the file is there before
its text is composed. -/
def save (config : Config) (files : Files) (path : Path) : Except Fault Files := do
  let (made, files) := files.makeParent path
  made
  let files ← files.write path ""
  files.write path (← config.document)

end Config

end SentenceGen
