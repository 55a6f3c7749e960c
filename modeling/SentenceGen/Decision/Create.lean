import SentenceGen.Decision.Random
import SentenceGen.Decision.Script

/-!
# Sources by name

Decision sources made from the name of a strategy and its arguments.
-/

namespace SentenceGen

/-- The arguments of a new source: options by name, and a script. -/
structure SourceArguments where
  options : List (Datum × Datum) := []
  script : Option (List (Datum ⊕ Decision)) := none

namespace SourceArguments

/-- Random decisions take options alone. -/
def random (sowing : Datum → Nat) (a : SourceArguments) :
    Except Fault (RandomSource Random.Twister) := do
  checkFields "RandomDecisionSource" DecisionSettings.fields a.options
  if a.script.isSome then throw (.unexpectedField "RandomDecisionSource" "decisions")
  let given (field : String) := (Datum.lookup a.options field).getD (.float 0.5)
  RandomSource.ofSettings sowing
    { seed := (Datum.lookup a.options "seed").getD .null
      continuation := given "continuation_probability"
      decay := given "repetition_decay"
      optional := given "optional_probability" }

/-- Scripts take decisions alone. -/
def scripted (a : SourceArguments) : Except Fault Script := do
  checkFields "ScriptedDecisionSource" [] a.options
  Script.ofEntries (a.script.getD [])

def create (sowing : Datum → Nat) (a : SourceArguments) (name : String) :
    Except Fault (RandomSource Random.Twister ⊕ Script) :=
  match name with
  | "random" => (a.random sowing).map .inl
  | "scripted" => a.scripted.map .inr
  | _ => .error (.unknownSource name)

end SourceArguments

end SentenceGen
