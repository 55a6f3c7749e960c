import SentenceGen.Text.Lines
import SentenceGen.Yaml.Quotes

/-!
# Reading documents

Plain data from a document of indented lines.  A map's keys stand in one column, and so do the
dashes of a list; what belongs to a key or a dash is on its line or further to the right.  Between
brackets and braces indentation does not count.  Of equal keys the last value holds.
-/

namespace SentenceGen.Yaml

/-- What a node begins with. -/
inductive Opening where
  | nothing
  | dash
  | question
  | bracket
  | brace
  | scalar
  | unknown
  deriving DecidableEq

/-- Signs that begin no text without quotes. -/
def signs : List Char :=
  ['-', '?', ':', ',', '[', ']', '\x7b', '\x7d', '#', '&', '*', '!', '|', '>', '%', '@', '\x60',
    '\t']

def Opening.of (inFlow : Bool) : List Char → Opening
  | [] => .nothing
  | c :: rest =>
    if !inFlow && c = '-' && isGap rest.head? then .dash
    else if !inFlow && c = '?' && isGap rest.head? then .question
    else if c = '[' then .bracket
    else if c = '\x7b' then .brace
    else if !signs.contains c then .scalar
    else if !isGap rest.head? && (c = '-' || (!inFlow && (c = '?' || c = ':'))) then .scalar
    else .unknown

/-- What comes next, where the cursor is. -/
def opening (inFlow : Bool) : Read Opening := return .of inFlow (← get).rest

/-- Moves over the colon that ends a key, if one comes next on the line. -/
def passColon (line : Nat) : Read Bool := do
  let cursor ← get
  let blanks := cursor.rest.takeWhile (· = ' ')
  match cursor.rest.drop blanks.length with
  | ':' :: rest =>
    if cursor.place.line = line && isGap rest.head? then
      advance (blanks.length + 1)
      return true
    else return false
  | _ => return false

def putEntry (entries : List (Datum × Datum)) (key value : Datum) : Read (List (Datum × Datum)) :=
  if key.hashable then return Datum.insert entries key value
  else refuse "a list or a map is no key"

def tooDeep {α : Type} : Read α := refuse "the document is nested too deeply"

mutual

/-- Reads a collection between brackets or braces, or a scalar within one. -/
def flow : Nat → Read Datum
  | 0 => tooDeep
  | fuel + 1 => do
    match ← opening true with
    | .bracket =>
      advance 1
      return .list (← flowItems fuel)
    | .brace =>
      advance 1
      return .map (← flowEntries fuel [])
    | .scalar => scalar .flow
    | _ => refuse "a value is missing"

def flowItems : Nat → Read (List Datum)
  | 0 => tooDeep
  | fuel + 1 => do
    skip
    if (← get).rest.head? = some ']' then
      advance 1
      return []
    let item ← flow fuel
    skip
    let item ← if (← get).rest.head? = some ':' then flowPair fuel item else pure item
    skip
    match (← get).rest.head? with
    | some ',' =>
      advance 1
      return item :: (← flowItems fuel)
    | some ']' =>
      advance 1
      return [item]
    | _ => refuse "a list does not go on with a comma"

/-- Reads the value after a colon between brackets, where one entry is a map of its own. -/
def flowPair : Nat → Datum → Read Datum
  | 0, _ => tooDeep
  | fuel + 1, key => do return .map (← putEntry [] key (← flowValue fuel))

def flowEntries : Nat → List (Datum × Datum) → Read (List (Datum × Datum))
  | 0, _ => tooDeep
  | fuel + 1, entries => do
    skip
    if (← get).rest.head? = some '\x7d' then
      advance 1
      return entries
    let key ← flow fuel
    skip
    let value ← if (← get).rest.head? = some ':' then flowValue fuel else pure .null
    let entries ← putEntry entries key value
    skip
    match (← get).rest.head? with
    | some ',' =>
      advance 1
      flowEntries fuel entries
    | some '\x7d' =>
      advance 1
      return entries
    | _ => refuse "a map does not go on with a comma"

def flowValue : Nat → Read Datum
  | 0 => tooDeep
  | fuel + 1 => do
    advance 1
    skip
    match (← get).rest.head? with
    | some ',' | some '\x7d' | some ']' => return .null
    | _ => flow fuel

end

/-- Whether the cursor is at a node to the right of a column. -/
def isRightOf (column : Nat) : Read Bool :=
  return !(← get).rest.isEmpty && (← get).place.column > column

def isAt (column : Nat) : Read Bool :=
  return !(← get).rest.isEmpty && (← get).place.column = column

mutual

/-- Reads the node at the cursor; lines indented by at least `indent` go on with a text. -/
def block : Nat → Nat → Read Datum
  | 0, _ => tooDeep
  | fuel + 1, indent => do
    let place := (← get).place
    match ← opening false with
    | .nothing => return .null
    | .dash => return .list (← items fuel place.column)
    | .question => return .map (← entries fuel place.column (← markedKey fuel place.column) true [])
    | .scalar =>
      let first ← scalar (.block indent)
      if ← passColon place.line then
        return .map (← entries fuel place.column first false [])
      else return first
    | _ => flow fuel

/-- Reads items whose dashes stand in a column, from the first dash on. -/
def items : Nat → Nat → Read (List Datum)
  | 0, _ => tooDeep
  | fuel + 1, column => do
    advance 1
    skip
    let item ← if ← isRightOf column then block fuel (column + 1) else pure .null
    skip
    if ← isRightOf column then refuse "a list goes on too far to the right"
    else if (← isAt column) && (← opening false) = .dash then return item :: (← items fuel column)
    else return [item]

/-- Reads the key after a question mark, up to the colon on a line of its own. -/
def markedKey : Nat → Nat → Read Datum
  | 0, _ => tooDeep
  | fuel + 1, column => do
    advance 1
    skip
    let key ← if ← isRightOf column then block fuel (column + 1) else pure .null
    skip
    if (← isAt column) && (← passColon (← get).place.line) then return key
    else refuse "a key has no colon"

/-- Reads entries whose keys stand in a column, from the first value on.  A collection may begin
on the line of the colon only if the key is marked by a question mark.  -/
def entries : Nat → Nat → Datum → Bool → List (Datum × Datum) → Read (List (Datum × Datum))
  | 0, _, _, _, _ => tooDeep
  | fuel + 1, column, key, isMarked, done => do
    let line := (← get).place.line
    skip
    let value ←
      if ← isRightOf column then
        if !isMarked && (← get).place.line = line then inline fuel (column + 1)
        else block fuel (column + 1)
      else if (← isAt column) && (← opening false) = .dash then
        pure (.list (← items fuel column))
      else pure .null
    let done ← putEntry done key value
    skip
    if ← isRightOf column then refuse "a map goes on too far to the right"
    else if ← isAt column then
      let line := (← get).place.line
      match ← opening false with
      | .question => entries fuel column (← markedKey fuel column) true done
      | .scalar =>
        let key ← scalar (.block (column + 1))
        if ← passColon line then entries fuel column key false done
        else refuse "a key has no colon"
      | _ => refuse "a key is missing"
    else return done

/-- Reads a value on the line of its key. -/
def inline : Nat → Nat → Read Datum
  | 0, _ => tooDeep
  | fuel + 1, indent => do
    match ← opening false with
    | .scalar => scalar (.block indent)
    | .dash => refuse "a list begins on the line of its key"
    | _ => flow fuel

end

def isMark (mark : String) (line : List Char) : Bool :=
  mark.toList.isPrefixOf line && isGap (line.drop mark.length).head?

def isEmptyLine (line : List Char) : Bool :=
  match line.dropWhile (· = ' ') with
  | [] | '#' :: _ => true
  | _ => false

/-- The lines of the only document, and those after it. -/
def documentLines (text : List (List Char)) : List (List Char) × List (List Char) :=
  let opened := match text.dropWhile isEmptyLine with
    | line :: rest => if isMark "---" line then (' ' :: ' ' :: ' ' :: line.drop 3) :: rest else text
    | [] => text
  opened.span fun line => !isMark "---" line && !isMark "..." line

/-- The text without the mark of byte order in front of it. -/
def unmarked (text : List Char) : List Char :=
  match text with
  | '\ufeff' :: rest => rest
  | _ => text

/-- Reads the only document of a text; an empty one is null. -/
def read (text : String) : Except Fault Datum := do
  let (document, after) := documentLines (Text.lines (Text.plainBreaks (unmarked text.toList)))
  if !(after.drop 1).all isEmptyLine || after.head?.any (isMark "---") then
    throw (.malformedDocument "there is more than one document")
  let s := Text.unlines document
  let (value, cursor) ← (do skip; let value ← block (3 * s.length + 3) 0; skip; return value).run
    ⟨⟨0, 0⟩, s⟩
  if cursor.rest.isEmpty then return value
  else throw (.malformedDocument "the document goes on after its value")

end SentenceGen.Yaml
