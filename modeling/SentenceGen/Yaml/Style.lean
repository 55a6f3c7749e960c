import SentenceGen.Decimal.Shortest
import SentenceGen.Text.Quoted
import SentenceGen.Yaml.Scalar

/-!
# Written scalars

A text is written without quotes if it then reads back as itself, else between single quotes if
these can hold it, else between double quotes.  A line that has grown long ends at the next single
space.
-/

namespace SentenceGen.Yaml

inductive Style where
  | plain
  | single
  | double
  deriving DecidableEq, Repr

def isBreak (c : Char) : Bool := c = '\n' || c = '\u0085' || c = '\u2028' || c = '\u2029'

/-- What a sign may stand before or after without being part of a word. -/
def isSeparator (c : Char) : Bool :=
  c = ' ' || c = '\t' || c = '\r' || c = '\x00' || isBreak c

def isSpecial (c : Char) : Bool := c != '\n' && (c < ' ' || '~' < c)

/-- Signs that a text without quotes cannot begin with, whatever follows. -/
def leadingSigns : List Char :=
  ['#', ',', '[', ']', '\x7b', '\x7d', '&', '*', '!', '|', '>', '\'', '"', '%', '@', '\x60']

/-- Whether a text begins like something else than a text. -/
def beginsLikeSyntax : List Char → Bool
  | '-' :: '-' :: '-' :: _ | '.' :: '.' :: '.' :: _ => true
  | c :: rest =>
    leadingSigns.contains c || (['?', ':', '-'].contains c && rest.head?.all isSeparator)
  | [] => false

/-- Whether a text holds the end of a key or the beginning of a comment. -/
def holdsSyntax : List Char → Bool
  | a :: b :: rest =>
    (b = ':' && rest.head?.all isSeparator) || (b = '#' && isSeparator a) || holdsSyntax (b :: rest)
  | _ => false

/-- Whether a character of one kind is directly followed by one of another kind. -/
def holdsPair (first second : Char → Bool) : List Char → Bool
  | a :: b :: rest => (first a && second b) || holdsPair first second (b :: rest)
  | _ => false

def isEdge (c : Char) : Bool := c = ' ' || isBreak c

def fitsSingle (s : List Char) : Bool :=
  !s.any isSpecial && !holdsPair isBreak (· = ' ') s && !holdsPair (· = ' ') isBreak s

/-- Whether a text can stand without quotes, whatever it then stands for. -/
def fitsPlain (s : List Char) : Bool :=
  !s.any isSpecial && !s.any isBreak && !s.head?.any isEdge && !s.getLast?.any isEdge &&
    !beginsLikeSyntax s && !holdsSyntax s

def Style.of (s : List Char) : Style :=
  if readsAsText s && fitsPlain s then .plain
  else if fitsSingle s then .single
  else .double

structure Margin where
  /-- The column of the scalar's first character. -/
  column : Nat
  /-- The column of its further lines. -/
  indent : Nat
  /-- A line ends at the next opportunity once it has more characters than this; with none it does
  not end. -/
  width : Option Nat := some 80

def Margin.isFull (m : Margin) (column : Nat) : Bool := m.width.any (· < column)

def Margin.newLine (m : Margin) : List Char := '\n' :: List.replicate m.indent ' '

/-- Writes the characters of a text after `spaces` and `breaks` that wait to be written. -/
def folded (m : Margin) (quoted : Bool) (spaces breaks column : Nat) : List Char → List Char
  | [] =>
    List.replicate spaces ' ' ++
      if breaks = 0 then [] else List.replicate breaks '\n' ++ m.newLine
  | c :: rest =>
    if c = ' ' then folded m quoted (spaces + 1) breaks column rest
    else if c = '\n' then folded m quoted spaces (breaks + 1) column rest
    else
      let written := if quoted && c = '\'' then [c, c] else [c]
      let go (gap : List Char) (column : Nat) : List Char :=
        gap ++ written ++ folded m quoted 0 0 (column + written.length) rest
      if breaks > 0 then go (List.replicate breaks '\n' ++ m.newLine) m.indent
      else if spaces = 1 && m.isFull column then go m.newLine m.indent
      else go (List.replicate spaces ' ') (column + spaces)

/-- A text between single quotes; spaces at its beginning stay there. -/
def singleWritten (m : Margin) (s : List Char) : List Char :=
  let spaces := s.takeWhile (· = ' ')
  let column := m.column + 1 + spaces.length
  '\'' :: spaces ++ folded m true 0 0 column (s.drop spaces.length) ++ ['\'']

def doubleEscapes : List (Char × Char) :=
  [('\x00', '0'), ('\x07', 'a'), ('\x08', 'b'), ('\t', 't'), ('\n', 'n'), ('\x0b', 'v'),
    ('\x0c', 'f'), ('\r', 'r'), ('\x1b', 'e'), ('"', '"'), ('\\', '\\'), ('\u0085', 'N'),
    ('\u00a0', '_'), ('\u2028', 'L'), ('\u2029', 'P')]

/-- The escape of a character that needs one between double quotes. -/
def doubleEscape? (c : Char) : Option (List Char) :=
  match doubleEscapes.lookup c with
  | some mark => some ['\\', mark]
  | none =>
    if ' ' ≤ c && c ≤ '~' then none
    else
      let digits (width : Nat) := (Text.hexadecimal width c.toNat).map Char.toUpper
      some <|
        if c.toNat < 0x100 then '\\' :: 'x' :: digits 2
        else if c.toNat < 0x10000 then '\\' :: 'u' :: digits 4
        else '\\' :: 'U' :: digits 8

/-- What ends a line between double quotes before the next character, and the column after it. -/
def doubleBreak (m : Margin) (next : Option Char) : List Char × Nat :=
  if next = some ' ' then ('\\' :: m.newLine ++ ['\\'], m.indent + 1)
  else ('\\' :: m.newLine, m.indent)

/-- Writes the characters of a text between double quotes.  A line may end before a space and next
to an escape, but not before the second character or the last one.  -/
def doubleChars (m : Margin) (isFirst afterEscape : Bool) (column : Nat) : List Char → List Char
  | [] => []
  | c :: rest =>
    let canEnd := !isFirst && !rest.isEmpty
    match doubleEscape? c with
    | some escape =>
      let column := column + escape.length
      if canEnd && m.isFull (column - 1) then
        let (line, column) := doubleBreak m rest.head?
        escape ++ line ++ doubleChars m false true column rest
      else escape ++ doubleChars m false true column rest
    | none =>
      if canEnd && (c = ' ' || afterEscape) && m.isFull column then
        let (line, column) := doubleBreak m (some c)
        line ++ c :: doubleChars m false false (column + 1) rest
      else c :: doubleChars m false false (column + 1) rest

def doubleWritten (m : Margin) (s : List Char) : List Char :=
  '"' :: doubleChars m true false (m.column + 1) s ++ ['"']

def textWritten (m : Margin) (s : List Char) : List Char :=
  match Style.of s with
  | .plain => folded m false 0 0 m.column s
  | .single => singleWritten m s
  | .double => doubleWritten m s

/-- A double with a point, so that it does not read back as a text. -/
def floatWritten (x : Float) : List Char :=
  if x.isNaN then ".nan".toList
  else if x.isInf then (if x < 0 then "-.inf" else ".inf").toList
  else
    let s := (Decimal.textOf x).toList
    if s.contains '.' then s
    else s.flatMap fun c => if c = 'e' then ".0e".toList else [c]

end SentenceGen.Yaml
