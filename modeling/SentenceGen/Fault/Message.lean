import SentenceGen.Datum.Printer

/-!
# The wording of faults

What a fault says.  The message of most faults is composed when they are raised: if it holds an
integer with too many digits, that is what comes out instead.
-/

namespace SentenceGen.Fault

def enumerate (names : List String) : String :=
  match names.map fun name => s!"'{name}'" with
  | [] => ""
  | [name] => name
  | [first, second] => s!"{first} and {second}"
  | names => ", ".intercalate names.dropLast ++ ", and " ++ names.getLastD ""

/-- The wording of details alone: nothing, one as a text, several in parentheses. -/
def detailText (kind : FaultKind) : List Datum → Except Fault String
  | [] => .ok ""
  | [detail] => if kind = .key then detail.shown else detail.text
  | details => do return "(" ++ ", ".intercalate (← Datum.shownItems details) ++ ")"

/-- A datum in words, or other words for null. -/
def unlessNull (words : String) (d : Datum) : Except Fault String :=
  if d.isNull then .ok words else d.text

def message (fault : Fault) : Except Fault String := do
  match fault with
  | .undefinedProduction name referencedFrom =>
    if referencedFrom.truthy then
      return s!"Undefined production '{← name.text}' " ++
        s!"(referenced from '{← referencedFrom.text}')"
    else return s!"Undefined production '{← name.text}'"
  | .unknownCharacterClass name => return s!"Unknown character class '{← name.text}'"
  | .duplicateProduction name => return s!"Production '{← name.text}' is already defined"
  | .duplicateReplacement name =>
    if name.isNull then return "Duplicate replacement for the default replacement"
    else return s!"Duplicate replacement for production '{← name.text}'"
  | .emptyCharacterSet set production =>
    return s!"Character set '{set}' in production '{production}' excludes every code point"
  | .literalNotText kind => return s!"Literal text must be str, got {kind}"
  | .notRule value => return s!"Expected a grammar rule, got {value.kind}: {← value.shown}"
  | .productionNotRule production kind =>
    return s!"Production '{production}': expected a grammar rule, got {kind}"
  | .productionWithoutRules name => return s!"Production '{name}' needs at least one rule"
  | .alternativeTooShort => return "Alternative needs at least two branches"
  | .noRule => return "At least one rule is required"
  | .negativeMinimum minimum => return s!"Repetition minimum must be >= 0, got {← minimum.text}"
  | .crossedBounds maximum minimum =>
    return s!"Repetition maximum {← maximum.text} is below minimum {← minimum.text}"
  | .excludedNotSingle text =>
    return s!"Excluded characters must be single code points, got {Text.quoted text}"
  | .invalidCodepoint value className =>
    return s!"Invalid code point {← value.shown} in class '{className}'"
  | .classDefined name => return s!"Character class '{name}' is already defined"
  | .scriptExhausted requested consumed =>
    return s!"Decision script exhausted after {← consumed.text} decisions " ++
      s!"(requested: {← requested.text})"
  | .scriptMismatch requested scripted position =>
    return s!"Decision #{← position.text} is '{← scripted.text}' " ++
      s!"but '{← requested.text}' was requested"
  | .alternativeOutOfRange index count =>
    return s!"Alternative index {← index.shown} out of range for {count} branches"
  | .repetitionOutOfRange count minimum maximum site =>
    let bound ← unlessNull "unbounded" maximum
    return s!"Repetition count {← count.shown} outside [{← minimum.text}, {bound}] " ++
      s!"at site {← site.text}"
  | .notInClass codepoint className =>
    return s!"Code point {← codepoint.shown} is not in character class '{className}'"
  | .notOffered decision offered =>
    return s!"Scripted {decision} is not among the {offered} offered code points"
  | .notDecision kind => return s!"Script entries must be Decision, got {kind}"
  | .keyedNotRepetition decision =>
    return s!"Only repetition decisions can target a site: {decision}"
  | .siteScriptedTwice site => return s!"Repetition site {← site.text} is scripted twice"
  | .codepointNotSingle text => return s!"Expected a single code point, got {Text.quoted text}"
  | .unknownDecisionKind name => return s!"{← name.shown} is not a valid DecisionKind"
  | .unknownSource name =>
    return s!"Unsupported decision source: {name}. Available: ['random', 'scripted']"
  | .emptyRange => return "empty range for randrange()"
  | .fractionalRange => return "non-integer arg 1 for randrange()"
  | .infiniteRange value =>
    let name := if value.isNaN then "NaN" else "infinity"
    return s!"cannot convert float {name} to integer"
  | .rangeNotNumber kind =>
    return s!"int() argument must be a string, a bytes-like object or a real number, not '{kind}'"
  | .emptyChoice => return "Cannot choose from an empty sequence"
  | .unsupportedSeed =>
    return "The only supported seed types are: None,\nint, float, str, bytes, and bytearray."
  | .limitExceeded message _ => message.text
  | .tooDeep limit production =>
    let reason ←
      if limit.isNull then pure "Generation exceeded the interpreter recursion limit"
      else pure s!"Generation exceeded maximum depth of {← limit.text}"
    if production.truthy then return s!"{reason} while expanding '{← production.text}'"
    else return reason
  | .tooLarge limit size =>
    return s!"Generated output of {← size.text} code points exceeds maximum of {← limit.text}"
  | .nestingExhausted => return "maximum recursion depth exceeded"
  | .unknownRule kind => return s!"Unknown rule variant: {kind}"
  | .notSink kind => return s!"Output sink must have write() or be callable, got {kind}"
  | .notBinding kind => return s!"Expected ProductionReplacement, got {kind}"
  | .notCallable value => return s!"Replacement callback must be callable, got {← value.shown}"
  | .emptyReplacementName => return "Production name must not be empty"
  | .unnamedReplacement =>
    return "replacement() needs a named function; use replace(name, callback)"
  | .contextClosed name =>
    return s!"Replacement context for '{name}' used after its callback returned"
  | .writeNotText kind => return s!"write() expects str, got {kind}"
  | .surrogateWritten label => return s!"Cannot write surrogate code point {label}"
  | .codepointOutOfRange => return "chr() arg not in range(0x110000)"
  | .codepointOverflow => return "Python int too large to convert to C int"
  | .treeFrozen => return "Derivation tree is frozen"
  | .noNode id => return s!"No node with id {← id.text}"
  | .unknownNodeKind name => return s!"{← name.shown} is not a valid NodeKind"
  | .environmentNotInteger name value =>
    return s!"Environment variable {name} must be an integer, got {Text.quoted value}"
  | .probabilityOutOfRange field value =>
    return s!"{field} must be between 0 and 1, got {← value.text}"
  | .limitNotPositive field value =>
    return s!"{field} must be positive or unset, got {← value.text}"
  | .endlessRepetition =>
    return "Unbounded repetitions would never stop with " ++
      "continuation_probability and repetition_decay both 1"
  | .unknownSections names =>
    return s!"Unknown configuration sections: {← (Datum.list names).shown}"
  | .sectionNotMapping name => return s!"Configuration section '{name}' must be a mapping"
  | .invalidSection name reason => return s!"Invalid '{name}' configuration: {reason}"
  | .unexpectedField settings field =>
    return s!"{settings}.__init__() got an unexpected keyword argument '{field}'"
  | .repeatedField settings field =>
    return s!"{settings}.__init__() got multiple values for argument '{field}'"
  | .fieldNotText => return "keywords must be strings"
  | .configNotFound path => return s!"Config file not found: {path}"
  | .configNotMapping path => return s!"Config file {path} must contain a mapping"
  | .malformedDocument reason => return reason
  | .formatWithoutFields format => return s!"Invalid format '{format}' for '%' style"
  | .formatNotText kind => return s!"expected string or bytes-like object, got '{kind}'"
  | .levelNotInteger => return "level must be an integer"
  | .unusablePath trouble path =>
    return s!"[Errno {trouble.number}] {trouble.reason}: {Text.quoted path}"
  | .notPath kind => return s!"expected str, bytes or os.PathLike object, not {kind}"
  | .nullByte => return "embedded null byte"
  | .notSpelled base text =>
    return s!"invalid literal for int() with base {base}: {Text.quoted text}"
  | .tooManyDigits read =>
    let value := match read with
      | some digits => s!": value has {digits} digits"
      | none => ""
    return s!"Exceeds the limit ({maximumDigits} digits) for integer string conversion{value}; " ++
      "use sys.set_int_max_str_digits() to increase the limit"
  | .notIterable kind => return s!"'{kind}' object is not iterable"
  | .unhashable kind => return s!"unhashable type: '{kind}'"
  | .notOrdered relation left right =>
    return s!"'{relation}' not supported between instances of '{left}' and '{right}'"
  | .noFormat kind => return s!"unsupported format string passed to {kind}.__format__"
  | .noHexadecimal kind => return s!"Unknown format code 'X' for object of type '{kind}'"
  | .notInteger kind => return s!"'{kind}' object cannot be interpreted as an integer"
  | .notSubscriptable kind => return s!"'{kind}' object is not subscriptable"
  | .notAddable kind => return s!"unsupported operand type(s) for +=: '{kind}' and 'int'"
  | .notJoinable kind => return s!"can only concatenate {kind} (not \"int\") to {kind}"
  | .noAttribute kind member => return s!"'{kind}' object has no attribute '{member}'"
  | .notIndex container kind =>
    return s!"{container} indices must be integers or slices, not {kind}"
  | .indexOverflow => return "cannot fit 'int' into an index-sized integer"
  | .indexOutOfRange container => return s!"{container} index out of range"
  | .missingKey key => key.shown
  | .missingArguments owner names =>
    let noun := if names.length = 1 then "argument" else "arguments"
    let listed := enumerate names
    return s!"{owner}.__init__() missing {names.length} required positional {noun}: {listed}"
  | .excessArguments owner least most given =>
    let bounds := if least = most then toString most else s!"from {least} to {most}"
    let noun := if most = 1 then "argument" else "arguments"
    return s!"{owner}.__init__() takes {bounds} positional {noun} but {given} were given"
  | .raised kind details => detailText kind details

/-- What comes out where the fault is raised with its message. -/
def told (fault : Fault) : Fault :=
  match fault.message with
  | .ok _ => fault
  | .error trouble => trouble

end SentenceGen.Fault
