import SentenceGen.Config.Environment
import SentenceGen.Datum.Access
import SentenceGen.Fault.Message
import SentenceGen.Files.Path

/-!
# Settings

All options of a generator, in three sections.  Options are plain data: they print as they were
given.  An option that is not given takes its default, which for the seed and the limits comes
from the environment.
-/

namespace SentenceGen

structure DecisionSettings where
  seed : Datum := .null
  /-- The chance of the first repetition beyond the minimum. -/
  continuation : Datum := .float 0.5
  /-- Each further repetition is less likely than the last by this factor. -/
  decay : Datum := .float 0.5
  /-- The chance that an optional rule is expanded. -/
  optional : Datum := .float 0.5

/-- Cutoffs; null means none. -/
structure LimitSettings where
  maxDepth : Datum := .null
  maxOutputSize : Datum := .null

structure LoggingSettings where
  level : Datum := .str "INFO"
  format : Datum := .str "%(asctime)s [%(levelname)s] %(name)s: %(message)s"
  /-- The log file, as a plain path if it is a text. -/
  file : Datum := .null

structure Config where
  decisions : DecisionSettings := {}
  limits : LimitSettings := {}
  logging : LoggingSettings := {}

/-- Refuses a field that has none of the names, and one named after the settings themselves. -/
def checkField (settings : String) (names : List String) (key : String) : Except Fault Unit :=
  if key = "self" then .error (.repeatedField settings key)
  else if names.contains key then .ok ()
  else .error (.unexpectedField settings key)

/-- Checks that every given field has one of the names. -/
def checkFields (settings : String) (names : List String) (values : List (Datum × Datum)) :
    Except Fault Unit := do
  let keys ← values.mapM fun entry =>
    match entry.1 with
    | .str key => Except.ok key
    | _ => .error Fault.fieldNotText
  keys.forM (checkField settings names)

def checkProbability (field : String) (value : Datum) : Except Fault Unit := do
  if ← (Datum.float 0.0).atMost value then
    if ← value.atMost (.float 1.0) then return ()
  throw (Fault.probabilityOutOfRange field value).told

def checkLimit (field : String) (value : Datum) : Except Fault Unit :=
  match value with
  | .null => .ok ()
  | _ => do if ← value.less (.int 1) then throw (Fault.limitNotPositive field value).told

namespace DecisionSettings

def fields : List String :=
  ["seed", "continuation_probability", "repetition_decay", "optional_probability"]

def check (s : DecisionSettings) : Except Fault Unit := do
  checkProbability "continuation_probability" s.continuation
  checkProbability "repetition_decay" s.decay
  checkProbability "optional_probability" s.optional
  if s.continuation.equal (.float 1.0) && s.decay.equal (.float 1.0) then
    throw .endlessRepetition

def ofValues (env : Environment) (values : List (Datum × Datum)) :
    Except Fault DecisionSettings := do
  checkFields "DecisionConfig" fields values
  let seed ← match Datum.lookup values "seed" with
    | some seed => pure seed
    | none => env.integer "GRAMMARGEN_SEED"
  let given (field : String) := (Datum.lookup values field).getD (.float 0.5)
  let settings : DecisionSettings :=
    { seed
      continuation := given "continuation_probability"
      decay := given "repetition_decay"
      optional := given "optional_probability" }
  settings.check
  return settings

def toEntries (s : DecisionSettings) : List (Datum × Datum) :=
  [(.str "seed", s.seed), (.str "continuation_probability", s.continuation),
    (.str "repetition_decay", s.decay), (.str "optional_probability", s.optional)]

end DecisionSettings

namespace LimitSettings

def fields : List String := ["max_depth", "max_output_size"]

def check (s : LimitSettings) : Except Fault Unit := do
  checkLimit "max_depth" s.maxDepth
  checkLimit "max_output_size" s.maxOutputSize

def ofValues (env : Environment) (values : List (Datum × Datum)) : Except Fault LimitSettings := do
  checkFields "LimitsConfig" fields values
  let maxDepth ← match Datum.lookup values "max_depth" with
    | some limit => pure limit
    | none => env.integer "GRAMMARGEN_MAX_DEPTH"
  let maxOutputSize ← match Datum.lookup values "max_output_size" with
    | some limit => pure limit
    | none => env.integer "GRAMMARGEN_MAX_OUTPUT_SIZE"
  let settings : LimitSettings := { maxDepth, maxOutputSize }
  settings.check
  return settings

def toEntries (s : LimitSettings) : List (Datum × Datum) :=
  [(.str "max_depth", s.maxDepth), (.str "max_output_size", s.maxOutputSize)]

end LimitSettings

namespace LoggingSettings

def fields : List String := ["level", "format", "file"]

/-- A text that is not empty is kept as a plain path. -/
def plainFile : Datum → Datum
  | .str "" => .str ""
  | .str path => .str (Path.ofText path).text
  | d => d

def ofValues (values : List (Datum × Datum)) : Except Fault LoggingSettings := do
  checkFields "LoggingConfig" fields values
  let standard : LoggingSettings := {}
  return {
    level := (Datum.lookup values "level").getD standard.level
    format := (Datum.lookup values "format").getD standard.format
    file := plainFile ((Datum.lookup values "file").getD standard.file) }

def toEntries (s : LoggingSettings) : List (Datum × Datum) :=
  [(.str "level", s.level), (.str "format", s.format), (.str "file", s.file)]

end LoggingSettings

namespace Config

def sections : List String := ["decisions", "limits", "logging"]

/-- The entries of a section.  What does not hold counts as an empty section. -/
def entriesOf (data : List (Datum × Datum)) (name : String) :
    Except Fault (List (Datum × Datum)) :=
  match Datum.lookup data name with
  | none => .ok []
  | some value =>
    if value.truthy then
      match value with
      | .map entries => .ok entries
      | _ => .error (.sectionNotMapping name)
    else .ok []

/-- Names the section in a fault about the type of one of its values. -/
def inSection {α : Type} (name : String) (result : Except Fault α) : Except Fault α :=
  match result with
  | .error fault =>
    if fault.kind = .type then do throw (.invalidSection name (← fault.message))
    else .error fault
  | ok => ok

/-- Refuses keys that name no section. -/
def checkSections (keys : List Datum) : Except Fault Unit := do
  let unknown := keys.filter fun key => !sections.any fun name => key.equal (.str name)
  match ← Datum.sort unknown with
  | [] => return ()
  | names => throw (Fault.unknownSections names).told

def ofEntries (env : Environment) (data : List (Datum × Datum)) : Except Fault Config := do
  checkSections (data.map (·.1))
  let decisions ←
    inSection "decisions" (DecisionSettings.ofValues env (← entriesOf data "decisions"))
  let limits ← inSection "limits" (LimitSettings.ofValues env (← entriesOf data "limits"))
  let logging ← inSection "logging" (LoggingSettings.ofValues (← entriesOf data "logging"))
  return { decisions, limits, logging }

/-- Reads settings from data, which should be a map.  The members of another collection are looked
at as if they were names of sections. -/
def ofDatum (env : Environment) (data : Datum) : Except Fault Config := do
  match data with
  | .map entries => ofEntries env entries
  | _ =>
    let members ← data.members
    members.forM Datum.requireHashable
    checkSections (Datum.distinct members)
    throw (.noAttribute data.kind "get")

def default (env : Environment) : Except Fault Config := do
  let decisions ← DecisionSettings.ofValues env []
  let limits ← LimitSettings.ofValues env []
  return { decisions, limits, logging := {} }

def toEntries (c : Config) : List (Datum × Datum) :=
  [(.str "decisions", .map c.decisions.toEntries), (.str "limits", .map c.limits.toEntries),
    (.str "logging", .map c.logging.toEntries)]

end Config

end SentenceGen
