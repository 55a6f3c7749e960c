import SentenceGen.Datum
import SentenceGen.Files.Trouble

/-!
# Faults

A fault is a cause with its data, which are plain where callers may raise the fault themselves.
`Fault.kind` has the place of all of them in the hierarchy and `Fault.attributes` what a handler may
read off one of the library's own.
-/

namespace SentenceGen

inductive Fault where
  /- Grammars and character classes. -/
  | undefinedProduction (name referencedFrom : Datum)
  | unknownCharacterClass (name : Datum)
  | duplicateProduction (name : Datum)
  /-- The name is null for the default replacement. -/
  | duplicateReplacement (name : Datum)
  | emptyCharacterSet (set production : String)
  | literalNotText (kind : String)
  | notRule (value : Datum)
  | productionNotRule (production kind : String)
  | productionWithoutRules (name : String)
  | alternativeTooShort
  | noRule
  | negativeMinimum (minimum : Datum)
  | crossedBounds (maximum minimum : Datum)
  | excludedNotSingle (text : String)
  | invalidCodepoint (value : Datum) (className : String)
  | classDefined (name : String)
  /- Decisions. -/
  | scriptExhausted (requested consumed : Datum)
  | scriptMismatch (requested scripted position : Datum)
  | alternativeOutOfRange (index : Datum) (count : Nat)
  /-- The maximum is null if there is none. -/
  | repetitionOutOfRange (count minimum maximum site : Datum)
  | notInClass (codepoint : Datum) (className : String)
  | notOffered (decision : String) (offered : Nat)
  | notDecision (kind : String)
  | keyedNotRepetition (decision : String)
  | siteScriptedTwice (site : Datum)
  | codepointNotSingle (text : String)
  | unknownDecisionKind (name : Datum)
  | unknownSource (name : String)
  | emptyRange
  | fractionalRange
  | infiniteRange (value : Float)
  | rangeNotNumber (kind : String)
  | emptyChoice
  | unsupportedSeed
  /- Generation. -/
  | limitExceeded (message limit : Datum)
  | tooDeep (limit production : Datum)
  | tooLarge (limit size : Datum)
  | nestingExhausted
  | unknownRule (kind : String)
  | notSink (kind : String)
  | notBinding (kind : String)
  | notCallable (value : Datum)
  | emptyReplacementName
  | unnamedReplacement
  | contextClosed (name : String)
  | writeNotText (kind : String)
  | surrogateWritten (label : String)
  | codepointOutOfRange
  | codepointOverflow
  /- Derivation trees. -/
  | treeFrozen
  | noNode (id : Datum)
  | unknownNodeKind (name : Datum)
  /- Settings. -/
  | environmentNotInteger (name value : String)
  | probabilityOutOfRange (field : String) (value : Datum)
  | limitNotPositive (field : String) (value : Datum)
  | endlessRepetition
  | unknownSections (names : List Datum)
  | sectionNotMapping (name : String)
  | invalidSection (name reason : String)
  | unexpectedField (settings field : String)
  | repeatedField (settings field : String)
  | fieldNotText
  | configNotFound (path : String)
  | configNotMapping (path : String)
  | malformedDocument (reason : String)
  | formatWithoutFields (format : String)
  | formatNotText (kind : String)
  | levelNotInteger
  /- Files. -/
  | unusablePath (trouble : PathTrouble) (path : String)
  | notPath (kind : String)
  | nullByte
  /- Values of the wrong type or spelling, and places that do not exist. -/
  | notSpelled (base : Nat) (text : String)
  /-- An integer has more digits than are written out or, if their number is told, read. -/
  | tooManyDigits (read : Option Nat)
  | notIterable (kind : String)
  | unhashable (kind : String)
  | notOrdered (relation left right : String)
  | noFormat (kind : String)
  | noHexadecimal (kind : String)
  | notInteger (kind : String)
  | notSubscriptable (kind : String)
  | notAddable (kind : String)
  | notJoinable (kind : String)
  | noAttribute (kind member : String)
  | notIndex (container kind : String)
  | indexOverflow
  | indexOutOfRange (container : String)
  | missingKey (key : Datum)
  | missingArguments (owner : String) (names : List String)
  | excessArguments (owner : String) (least most given : Nat)
  /- Raised by code outside the library, with any number of details. -/
  | raised (kind : FaultKind) (details : List Datum)

namespace Fault

def kind : Fault → FaultKind
  | .undefinedProduction .. => .undefinedProduction
  | .unknownCharacterClass .. => .unknownCharacterClass
  | .duplicateProduction .. => .duplicateProduction
  | .duplicateReplacement .. => .duplicateReplacement
  | .emptyCharacterSet .. => .grammar
  | .scriptExhausted .. => .scriptExhausted
  | .scriptMismatch .. => .scriptMismatch
  | .alternativeOutOfRange .. | .repetitionOutOfRange .. | .notInClass ..
  | .notOffered .. => .invalidDecision
  | .limitExceeded .. => .limitExceeded
  | .tooDeep .. => .tooDeep
  | .tooLarge .. => .tooLarge
  | .nestingExhausted => .recursion
  | .literalNotText .. | .notRule .. | .productionNotRule .. | .notDecision .. | .unknownRule ..
  | .notSink .. | .notBinding .. | .notCallable .. | .writeNotText .. | .unexpectedField ..
  | .repeatedField .. | .fieldNotText | .notIterable .. | .unhashable .. | .notOrdered ..
  | .noFormat ..
  | .notInteger .. | .notSubscriptable .. | .notAddable .. | .notJoinable .. | .notIndex ..
  | .rangeNotNumber .. | .unsupportedSeed | .formatNotText .. | .levelNotInteger | .notPath ..
  | .missingArguments .. | .excessArguments .. => .type
  | .productionWithoutRules .. | .alternativeTooShort | .noRule | .negativeMinimum ..
  | .crossedBounds .. | .excludedNotSingle .. | .invalidCodepoint .. | .classDefined ..
  | .keyedNotRepetition .. | .siteScriptedTwice .. | .codepointNotSingle ..
  | .unknownDecisionKind .. | .unknownSource .. | .emptyRange | .fractionalRange
  | .notSpelled .. | .tooManyDigits .. | .nullByte | .emptyReplacementName
  | .unnamedReplacement | .surrogateWritten .. | .codepointOutOfRange | .unknownNodeKind ..
  | .environmentNotInteger .. | .probabilityOutOfRange .. | .limitNotPositive ..
  | .endlessRepetition | .unknownSections .. | .sectionNotMapping .. | .invalidSection ..
  | .configNotMapping .. | .formatWithoutFields .. | .noHexadecimal .. => .value
  | .codepointOverflow => .overflow
  | .infiniteRange value => if value.isNaN then .value else .overflow
  | .emptyChoice | .noNode .. | .indexOverflow | .indexOutOfRange .. => .index
  | .contextClosed .. | .treeFrozen => .runtime
  | .configNotFound .. => .fileNotFound
  | .unusablePath trouble _ => trouble.kind
  | .malformedDocument .. => .document
  | .noAttribute .. => .member
  | .missingKey .. => .key
  | .raised kind _ => kind

/-- What one of the library's own faults tells beside its message. -/
def attributes : Fault → List (String × Datum)
  | .undefinedProduction name referencedFrom =>
    [("name", name), ("referenced_from", referencedFrom)]
  | .unknownCharacterClass name | .duplicateProduction name | .duplicateReplacement name =>
    [("name", name)]
  | .scriptExhausted requested consumed => [("requested", requested), ("consumed", consumed)]
  | .scriptMismatch requested scripted position =>
    [("requested", requested), ("scripted", scripted), ("position", position)]
  | .limitExceeded _ limit => [("limit", limit)]
  | .tooDeep limit production => [("limit", limit), ("production", production)]
  | .tooLarge limit size => [("limit", limit), ("size", size)]
  | _ => []

end Fault

end SentenceGen
