import SentenceGen.Config.Environment
import SentenceGen.Text.Lines

/-!
# Files of variables

A file that sets environment variables, one assignment a line.  A value may stand between quotes,
with escapes; without quotes it ends before a comment.  In a value `${name}` stands for another
variable.  A line that makes no sense is skipped, and of several assignments to one name the last
one counts.
-/

namespace SentenceGen.Assignments

/-- A name with its value; a name without an equals sign has none. -/
abbrev Assignment := String × Option String

/-- White space that does not end the line. -/
def isLineBlank (c : Char) : Bool := Text.isBlank c && c != '\n'

/-- Reads from what is left of a file.  What is left after a failure is known, too. -/
abbrev Part := EStateM Unit (List Char)

def skipBlanks : Part Unit := modify fun s => s.dropWhile isLineBlank

def skipExport : Part Unit := modify fun s =>
  match s with
  | 'e' :: 'x' :: 'p' :: 'o' :: 'r' :: 't' :: c :: rest =>
    if isLineBlank c then rest.dropWhile isLineBlank else s
  | _ => s

/-- Reads a name up to where it ends; it has one character at least. -/
def nameUpTo (ends : Char → Bool) : Part String := do
  let name := (← get).takeWhile fun c => !ends c
  if name.isEmpty then throw ()
  modify (·.drop name.length)
  return String.ofList name

/-- Reads a name; a comment line has none. -/
def name : Part (Option String) := do
  match ← get with
  | '#' :: _ => return none
  | '\'' :: rest =>
    if (rest.dropWhile (· != '\'')).isEmpty then throw ()
    set rest
    let name ← nameUpTo (· = '\'')
    modify (·.drop 1)
    return name
  | _ => nameUpTo fun c => c = '=' || c = '#' || Text.isBlank c

/-- Reads up to a closing quote.  A quote after a backslash does not close unless no other one
does.  -/
def upToQuote (quote : Char) : List Char → Option (List Char × List Char)
  | [] => none
  | '\\' :: c :: rest =>
    if c = quote then
      match upToQuote quote rest with
      | some (text, after) => some ('\\' :: c :: text, after)
      | none => some (['\\'], rest)
    else (upToQuote quote (c :: rest)).map fun (text, after) => ('\\' :: text, after)
  | c :: rest =>
    if c = quote then some ([], rest)
    else (upToQuote quote rest).map fun (text, after) => (c :: text, after)

/-- The characters that may follow a backslash, and what they then stand for. -/
def escapesIn (quote : Char) : List (Char × Char) :=
  if quote = '"' then
    [('\\', '\\'), ('\'', '\''), ('"', '"'), ('a', '\x07'), ('b', '\x08'), ('f', '\x0c'),
      ('n', '\n'), ('r', '\r'), ('t', '\t'), ('v', '\x0b')]
  else [('\\', '\\'), ('\'', '\'')]

/-- Replaces the escapes; another backslash stands for itself. -/
def unescape (escapes : List (Char × Char)) : List Char → List Char
  | [] => []
  | '\\' :: c :: rest =>
    match escapes.lookup c with
    | some d => d :: unescape escapes rest
    | none => '\\' :: unescape escapes (c :: rest)
  | c :: rest => c :: unescape escapes rest

/-- The part of a line before a comment, which begins after white space. -/
def beforeComment : List Char → List Char
  | [] => []
  | c :: rest =>
    if Text.isBlank c && (rest.dropWhile Text.isBlank).head? = some '#' then []
    else c :: beforeComment rest

def trimEnd (s : List Char) : List Char := (s.reverse.dropWhile Text.isBlank).reverse

def value : Part String := do
  match ← get with
  | [] => return ""
  | c :: rest =>
    if c = '\'' || c = '"' then
      match upToQuote c rest with
      | some (text, after) =>
        set after
        return String.ofList (unescape (escapesIn c) text)
      | none => throw ()
    else
      let line := (c :: rest).takeWhile (· != '\n')
      modify (·.drop line.length)
      return String.ofList (trimEnd (beforeComment line))

def skipLine : Part Unit := modify fun s => s.dropWhile (· != '\n')

/-- Reads to the end of the line, where only a comment may stand. -/
def lineEnd : Part Unit := do
  skipBlanks
  if (← get).head? = some '#' then skipLine
  match ← get with
  | [] => return ()
  | '\n' :: rest => set rest
  | _ => throw ()

def assignment : Part (Option Assignment) := do
  skipExport
  let name ← name
  skipBlanks
  let value ← match ← get with
    | '=' :: rest => do
      set rest
      skipBlanks
      pure (some (← value))
    | _ => pure none
  lineEnd
  return name.map (·, value)

/-- Reads all assignments; a step of fuel is enough for each character. -/
def readFrom : Nat → List Char → List Assignment
  | 0, _ => []
  | fuel + 1, s =>
    match s.dropWhile Text.isBlank with
    | [] => []
    | s =>
      match assignment s with
      | .ok (some found) rest => found :: readFrom fuel rest
      | .ok none rest => readFrom fuel rest
      | .error _ rest => readFrom fuel ((rest.dropWhile (· != '\n')).drop 1)

def read (text : String) : List Assignment :=
  let s := Text.plainBreaks text.toList
  readFrom (s.length + 1) s

/-- What stands up to a closing brace, and what follows. -/
def upToBrace (s : List Char) : Option (List Char × List Char) :=
  match s.dropWhile (· != '\x7d') with
  | _ :: rest => some (s.takeWhile (· != '\x7d'), rest)
  | [] => none

/-- Reads a reference behind its opening brace: a name, and a text for when nothing has it. -/
def reference? (s : List Char) : Option (String × List Char × List Char) :=
  let name := s.takeWhile fun c => c != '\x7d' && c != ':'
  match s.drop name.length with
  | '\x7d' :: rest => some (String.ofList name, [], rest)
  | ':' :: '-' :: rest => (upToBrace rest).map fun (text, rest) => (String.ofList name, text, rest)
  | _ => none

/-- Replaces the references in a text; a step of fuel is enough for each character. -/
def expandFrom (value? : String → Option String) : Nat → List Char → List Char
  | 0, s => s
  | _, [] => []
  | fuel + 1, '$' :: '\x7b' :: s =>
    match reference? s with
    | some (name, other, rest) =>
      (value? name).elim other String.toList ++ expandFrom value? fuel rest
    | none => '$' :: expandFrom value? fuel ('\x7b' :: s)
  | fuel + 1, c :: s => c :: expandFrom value? fuel s

def expand (value? : String → Option String) (text : String) : String :=
  String.ofList (expandFrom value? text.length text.toList)

/-- What a reference stands for after the given assignments, the latest first.  A variable that is
set counts as it is, and a name without a value as an empty text. -/
def valueAfter (env : Environment) (done : List Assignment) (name : String) : Option String :=
  (env.lookup name).or ((done.lookup name).map (·.getD ""))

/-- The assignments with their references replaced one after the other. -/
def settle (env : Environment) (done : List Assignment) : List Assignment → List Assignment
  | [] => done.reverse
  | (name, value) :: rest =>
    settle env ((name, value.map (expand (valueAfter env done))) :: done) rest

/-- Keeps of each name only the last assignment. -/
def latest : List Assignment → List Assignment
  | [] => []
  | first :: rest =>
    if rest.any fun later => later.1 = first.1 then latest rest else first :: latest rest

def addTo (env : Environment) (assignments : List Assignment) : Environment :=
  env ++ (latest (settle env [] assignments)).filterMap fun (name, value) =>
    if (env.lookup name).isSome then none else value.map (name, ·)

end SentenceGen.Assignments
