import SentenceGen.Datum.Printer
import SentenceGen.Yaml.Style

/-!
# Writing documents

Plain data as a document of lines, each collection two columns further to the right than the one
that holds it.  A list stands in the column of its key.  There is no document for an integer with
too many digits.
-/

namespace SentenceGen.Yaml

def indentStep : Nat := 2

def written (m : Margin) : Datum → Except Fault (List Char)
  | .null => .ok "null".toList
  | .bool b => .ok (if b then "true" else "false").toList
  | .int n => (Datum.numeral n).map String.toList
  | .float x => .ok (floatWritten x)
  | .str s => .ok (textWritten m s.toList)
  | .list _ => .ok "[]".toList
  | .map _ => .ok "\x7b\x7d".toList

def inner (column : Nat) : Margin :=
  { column := column + indentStep, indent := column + indentStep }

def keyWritten (column : Nat) (key : Datum) : Except Fault (List Char) :=
  written { column, indent := column + indentStep, width := none } key

/-- The tag of a text, which counts towards the length of a key though it is not written. -/
def textTag : String := "!!str"

/-- Whether a key is short and on one line, so that its colon can follow. -/
def isSimpleKey : Datum → Bool
  | .str s => s.length + textTag.length < 128 && s != "" && !s.toList.any isBreak
  | _ => true

def newLine (column : Nat) : List Char := '\n' :: List.replicate column ' '

/-- What stands before a value, its key included, and where the value begins. -/
def beforeValue (column : Nat) (key value : Datum) : Except Fault (List Char × Margin) := do
  let further := column + indentStep
  if isSimpleKey key then
    let before := (← keyWritten column key) ++ [':']
    match value with
    | .list (_ :: _) => return (before ++ newLine column, { column, indent := further })
    | .map (_ :: _) =>
      return (before ++ newLine further, { column := further, indent := further })
    | _ => return (before ++ [' '], { column := column + before.length + 1, indent := further })
  else
    let key ← written { column := further, indent := further } key
    return (['?', ' '] ++ key ++ newLine column ++ [':', ' '],
      { column := further, indent := further })

/-- The parts of a collection, each on lines of its own. -/
def stacked (column : Nat) (parts : List (List Char)) : List Char :=
  (newLine column).intercalate parts

mutual

/-- A node; the members of a collection begin where it does. -/
def node (m : Margin) : Datum → Except Fault (List Char)
  | .list (item :: rest) => do
    let first ← node (inner m.column) item
    return stacked m.column (('-' :: ' ' :: first) :: (← dashed m.column rest))
  | .map (entry :: rest) => do
    let first ← keyedEntry m.column entry
    return stacked m.column (first :: (← keyed m.column rest))
  | d => written m d

def dashed (column : Nat) : List Datum → Except Fault (List (List Char))
  | [] => .ok []
  | item :: rest => do
    let first ← node (inner column) item
    return ('-' :: ' ' :: first) :: (← dashed column rest)

def keyed (column : Nat) : List (Datum × Datum) → Except Fault (List (List Char))
  | [] => .ok []
  | entry :: rest => do return (← keyedEntry column entry) :: (← keyed column rest)

def keyedEntry (column : Nat) : Datum × Datum → Except Fault (List Char)
  | (key, value) => do
    let (before, m) ← beforeValue column key value
    return before ++ (← node m value)

end

def document (entries : List (Datum × Datum)) : Except Fault String := do
  return String.ofList ((← node { column := 0, indent := 0 } (.map entries)) ++ ['\n'])

end SentenceGen.Yaml
