import SentenceGen.Fault
import SentenceGen.Logging.Field

/-!
# Line formats

A line format is text with fields.  A doubled percent sign stands for one.  A format is accepted if
one field in it looks right; whether all of them suit a record shows when the record is written.
-/

namespace SentenceGen.Logging

namespace Format

/-- Letters, numbers and the underscore. -/
def isWord (c : Char) : Bool :=
  c = '_' || (Text.category c.toNat).name.startsWith "L" ||
    (Text.category c.toNat).name.startsWith "N"

def isDigit (c : Char) : Bool := (Text.digitValue? c.toNat).isSome

/-- Letters beyond ASCII that count as the letters `i` and `s` where case does not matter. -/
def likenesses : List Nat := [0x130, 0x131, 0x17F]

def isConversion (c : Char) : Bool :=
  "diouxefgcrsa%".toList.contains c.toLower || likenesses.contains c.toNat

def skipNumber : List Char → List Char
  | '*' :: s => s
  | s => s.dropWhile isDigit

/-- Skips a point with digits or an asterisk behind it. -/
def skipPrecision : List Char → List Char
  | '.' :: s => if (skipNumber s).length < s.length then skipNumber s else '.' :: s
  | s => s

def startsField : List Char → Bool
  | '%' :: '(' :: s =>
    match s.dropWhile isWord with
    | ')' :: rest =>
      !(s.takeWhile isWord).isEmpty &&
        (skipPrecision (skipNumber (rest.dropWhile Field.isFlag))).head?.any isConversion
    | _ => false
  | _ => false

def hasField : List Char → Bool
  | [] => false
  | c :: s => startsField (c :: s) || hasField s

end Format

/-- The line of a record; none if the format does not fit it.  A step of fuel is enough for each
character. -/
def renderFrom (r : Record) : Nat → List Char → Option (List Char)
  | _, [] => some []
  | 0, _ => none
  | fuel + 1, '%' :: '%' :: s => do return '%' :: (← renderFrom r fuel s)
  | fuel + 1, '%' :: s => do
    let (f, s) ← Field.read? s
    return (← f.render? (← r.property? f.name)) ++ (← renderFrom r fuel s)
  | fuel + 1, c :: s => do return c :: (← renderFrom r fuel s)

def renderLine (format : String) (r : Record) : Option String :=
  (renderFrom r format.length format.toList).map String.ofList

/-- What a format does when none is given. -/
def bareFormat : String := "%(message)s"

/-- A format has at least one field; an empty one is the bare message. -/
def checkFormat (format : Datum) : Except Fault String :=
  if format.truthy then
    match format with
    | .str s => if Format.hasField s.toList then .ok s else .error (.formatWithoutFields s)
    | _ => .error (.formatNotText format.kind)
  else .ok bareFormat

end SentenceGen.Logging
