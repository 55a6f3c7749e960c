import SentenceGen.Fault

/-!
# Faults from their details

A caller raises a fault by its kind with details.  Some of the library's own kinds require certain
details; every other kind takes any number of them.
-/

namespace SentenceGen.Fault

/-- The names of the details that a kind requires, and of those that it admits beside them. -/
def signature? : FaultKind → Option (List String × List String)
  | .undefinedProduction => some (["name"], ["referenced_from"])
  | .unknownCharacterClass | .duplicateProduction | .duplicateReplacement => some (["name"], [])
  | .scriptExhausted => some (["requested", "consumed"], [])
  | .scriptMismatch => some (["requested", "scripted", "position"], [])
  | .limitExceeded => some (["message", "limit"], [])
  | .tooDeep => some (["limit"], ["production"])
  | .tooLarge => some (["limit", "size"], [])
  | _ => none

/-- Refuses too few details and too many; in the count the fault itself is one more. -/
def checkDetails (kind : FaultKind) (details : List Datum) : Except Fault Unit :=
  match signature? kind with
  | none => .ok ()
  | some (required, others) =>
    let most := required.length + others.length
    if details.length < required.length then
      .error (.missingArguments kind.name (required.drop details.length))
    else if most < details.length then
      .error (.excessArguments kind.name (required.length + 1) (most + 1) (details.length + 1))
    else .ok ()

/-- The fault of a kind with details of the right number; a detail that is left out is null. -/
def assemble (kind : FaultKind) (details : List Datum) : Fault :=
  match kind, details with
  | .undefinedProduction, name :: rest => .undefinedProduction name (rest.headD .null)
  | .unknownCharacterClass, [name] => .unknownCharacterClass name
  | .duplicateProduction, [name] => .duplicateProduction name
  | .duplicateReplacement, [name] => .duplicateReplacement name
  | .scriptExhausted, [requested, consumed] => .scriptExhausted requested consumed
  | .scriptMismatch, [requested, scripted, position] => .scriptMismatch requested scripted position
  | .limitExceeded, [message, limit] => .limitExceeded message limit
  | .tooDeep, limit :: rest => .tooDeep limit (rest.headD .null)
  | .tooLarge, [limit, size] => .tooLarge limit size
  | _, _ => .raised kind details

def ofDetails (kind : FaultKind) (details : List Datum) : Except Fault Fault := do
  checkDetails kind details
  return assemble kind details

end SentenceGen.Fault
