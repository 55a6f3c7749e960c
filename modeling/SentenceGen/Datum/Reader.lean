import SentenceGen.Datum
import SentenceGen.Decimal.Parse

/-!
# Reading plain data

Plain data in object notation.  The entries of a map keep their order, and a number without point
and exponent is an integer of any size.  Three words name the numbers that have no digits.  What is
malformed is read as far as it makes sense.
-/

namespace SentenceGen.Datum

namespace Reader

def isBlank (c : Char) : Bool := c = ' ' ∨ c = '\n' ∨ c = '\r' ∨ c = '\t'

def isNumeric (c : Char) : Bool :=
  c.isDigit ∨ c = '-' ∨ c = '+' ∨ c = '.' ∨ c = 'e' ∨ c = 'E'

def hexadecimal (digits : List Char) : Nat :=
  digits.foldl (fun n c =>
    n * 16 + if c.isDigit then c.toNat - '0'.toNat else c.toLower.toNat - 'a'.toNat + 10) 0

/-- The character that follows a backslash, if it stands for another one. -/
def escaped : Char → Char
  | 'n' => '\n'
  | 't' => '\t'
  | 'r' => '\r'
  | 'b' => '\x08'
  | 'f' => '\x0c'
  | c => c

/-- The character of two surrogate units, a high one and a low one. -/
def joined? (high low : Nat) : Option Char :=
  if 0xD800 ≤ high ∧ high < 0xDC00 ∧ 0xDC00 ≤ low ∧ low < 0xE000 then
    some (Char.ofNat (0x10000 + (high - 0xD800) * 0x400 + (low - 0xDC00)))
  else none

/-- Reads a text after its opening quote; the characters so far are in reverse. -/
def text : List Char → List Char → List Char × List Char
  | '"' :: rest, read => (read.reverse, rest)
  | '\\' :: 'u' :: a :: b :: c :: d :: '\\' :: 'u' :: e :: f :: g :: h :: rest, read =>
    match joined? (hexadecimal [a, b, c, d]) (hexadecimal [e, f, g, h]) with
    | some joined => text rest (joined :: read)
    | none =>
      text ('\\' :: 'u' :: e :: f :: g :: h :: rest)
        (Char.ofNat (hexadecimal [a, b, c, d]) :: read)
  | '\\' :: 'u' :: a :: b :: c :: d :: rest, read =>
    text rest (Char.ofNat (hexadecimal [a, b, c, d]) :: read)
  | '\\' :: c :: rest, read => text rest (escaped c :: read)
  | c :: rest, read => text rest (c :: read)
  | [], read => (read.reverse, [])

def number (s : List Char) : Datum :=
  if s.any fun c => c = '.' ∨ c = 'e' ∨ c = 'E' then .float ((Decimal.parse? s).getD 0)
  else
    match s with
    | '-' :: digits => .int (-(Decimal.natural digits : Int))
    | digits => .int (Decimal.natural digits)

mutual

/-- Reads one value; a step of fuel is enough for each character. -/
def value : Nat → List Char → Datum × List Char
  | 0, s => (.null, s)
  | fuel + 1, s =>
    match s.dropWhile isBlank with
    | '"' :: rest =>
      let (read, rest) := text rest []
      (.str (String.ofList read), rest)
    | '[' :: rest =>
      let (read, rest) := items fuel rest
      (.list read, rest)
    | '\x7b' :: rest =>
      let (read, rest) := entries fuel rest
      (.map read, rest)
    | 'n' :: rest => (.null, rest.drop 3)
    | 't' :: rest => (.bool true, rest.drop 3)
    | 'f' :: rest => (.bool false, rest.drop 4)
    | 'N' :: rest => (.float (0.0 / 0.0), rest.drop 2)
    | 'I' :: rest => (.float (1.0 / 0.0), rest.drop 7)
    | '-' :: 'I' :: rest => (.float (-1.0 / 0.0), rest.drop 7)
    | s => (number (s.takeWhile isNumeric), s.dropWhile isNumeric)

def items : Nat → List Char → List Datum × List Char
  | 0, s => ([], s)
  | fuel + 1, s =>
    match s.dropWhile isBlank with
    | [] => ([], [])
    | ']' :: rest => ([], rest)
    | ',' :: rest => items fuel rest
    | s =>
      let (first, s) := value fuel s
      let (rest, s) := items fuel s
      (first :: rest, s)

def entries : Nat → List Char → List (Datum × Datum) × List Char
  | 0, s => ([], s)
  | fuel + 1, s =>
    match s.dropWhile isBlank with
    | [] => ([], [])
    | '\x7d' :: rest => ([], rest)
    | ',' :: rest => entries fuel rest
    | s =>
      let (key, s) := value fuel s
      let (first, s) := value fuel ((s.dropWhile isBlank).drop 1)
      let (rest, s) := entries fuel s
      ((key, first) :: rest, s)

end

end Reader

def ofLine (line : String) : Datum :=
  let s := line.toList
  (Reader.value (s.length + 1) s).1

end SentenceGen.Datum
