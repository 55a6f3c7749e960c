import SentenceGen.Decimal.Notation
import SentenceGen.Logging.Record
import SentenceGen.Text.Quoted

/-!
# Fields of line formats

A field such as `%(levelname)-8s` stands for a property of a record: its name in parentheses, flags,
a least width, a precision, and a conversion that says how the property is written.  A field that
does not suit its property has no text.
-/

namespace SentenceGen.Logging

/-- What a record tells under a name. -/
inductive Property where
  | text (value : String)
  | number (value : Int)
  /-- A value with one spelling in all conversions to text. -/
  | spelled (value : String)
  deriving DecidableEq, Repr

/-- The properties of a record.  Those that tell of the place and the time of logging are known but
not kept. -/
def Record.property? (r : Record) (name : String) : Option Property :=
  match name with
  | "name" => some (.text r.logger)
  | "levelname" => some (.text (levelName r.level))
  | "levelno" => some (.number r.level)
  | "message" | "msg" => some (.text r.message)
  | "threadName" => some (.text "MainThread")
  | "processName" => some (.text "MainProcess")
  | "args" => some (.spelled "()")
  | "exc_info" | "exc_text" | "stack_info" => some (.spelled "None")
  | "asctime" | "pathname" | "filename" | "module" | "funcName" | "lineno" | "created" | "msecs"
  | "relativeCreated" | "thread" | "process" => some (.spelled "")
  | _ => none

structure Field where
  name : String
  flags : List Char
  width : Nat
  precision : Option Nat
  conversion : Char
  deriving DecidableEq, Repr

namespace Field

def isFlag (c : Char) : Bool := ['#', '0', '+', ' ', '-'].contains c

def number (digits : List Char) : Nat :=
  digits.foldl (fun n c => n * 10 + (c.toNat - '0'.toNat)) 0

def largest : Nat := 0x7FFFFFFF

/-- Reads a precision after its point; without digits it is zero. -/
def readPrecision : List Char → Option Nat × List Char
  | '.' :: s => (some (number (s.takeWhile Char.isDigit)), s.dropWhile Char.isDigit)
  | s => (none, s)

/-- Skips a mark of size, which has no meaning. -/
def skipSize : List Char → List Char
  | c :: s => if ['h', 'l', 'L'].contains c then s else c :: s
  | [] => []

/-- Reads a field after its percent sign. -/
def read? : List Char → Option (Field × List Char)
  | '(' :: s =>
    match s.dropWhile (· ≠ ')') with
    | [] => none
    | _ :: rest =>
      let flags := rest.takeWhile isFlag
      let rest := rest.dropWhile isFlag
      let width := number (rest.takeWhile Char.isDigit)
      let (precision, rest) := readPrecision (rest.dropWhile Char.isDigit)
      match skipSize rest with
      | [] => none
      | conversion :: rest =>
        if width ≤ largest ∧ precision.all (· ≤ largest) then
          some (⟨String.ofList (s.takeWhile (· ≠ ')')), flags, width, precision, conversion⟩, rest)
        else none
  | _ => none

def has (f : Field) (flag : Char) : Bool := f.flags.contains flag

def fill (f : Field) (c : Char) (length : Nat) : List Char := List.replicate (f.width - length) c

def layText (f : Field) (text : List Char) : List Char :=
  if f.has '-' then text ++ f.fill ' ' text.length else f.fill ' ' text.length ++ text

/-- Lays out a number in the field's width: sign, mark of the base, digits. -/
def layNumber (f : Field) (negative : Bool) (mark digits : List Char) : List Char :=
  let sign := if negative then ['-'] else (['+', ' '].find? f.has).toList
  let length := sign.length + mark.length + digits.length
  if f.has '-' then sign ++ mark ++ digits ++ f.fill ' ' length
  else if f.has '0' then sign ++ mark ++ f.fill '0' length ++ digits
  else f.fill ' ' length ++ sign ++ mark ++ digits

def showText (f : Field) (text : String) : List Char :=
  f.layText (f.precision.elim text.toList text.toList.take)

/-- An integer in a base, with at least as many digits as the precision says. -/
def showInteger (f : Field) (base : Nat) (mark : List Char) (n : Int) : List Char :=
  let digits := Nat.toDigits base n.natAbs
  let digits := List.replicate (f.precision.getD 0 - digits.length) '0' ++ digits
  f.layNumber (n < 0) (if f.has '#' then mark else []) digits

/-- An integer in one of the notations with a point. -/
def showDecimal (f : Field) (written : Nat → Bool → Nat → List Char) (n : Int) :
    Option (List Char) :=
  (Decimal.nearestDouble? n.natAbs).map fun nearest =>
    f.layNumber (n < 0) [] (written (f.precision.getD 6) (f.has '#') nearest)

/-- The character that a property is or numbers. -/
def character? : Property → Option Char
  | .text value =>
    match value.toList with
    | [c] => some c
    | _ => none
  | .number n =>
    if 0 ≤ n ∧ n.toNat.isValidChar then some (Char.ofNat n.toNat) else none
  | .spelled _ => none

def upper (text : List Char) : List Char := text.map Char.toUpper

/-- A number in the field, if the conversion is one for numbers. -/
def showNumber (f : Field) (n : Int) : Option (List Char) :=
  match f.conversion with
  | 'd' | 'i' | 'u' => some (f.showInteger 10 [] n)
  | 'o' => some (f.showInteger 8 ['0', 'o'] n)
  | 'x' => some (f.showInteger 16 ['0', 'x'] n)
  | 'X' => some (upper (f.showInteger 16 ['0', 'x'] n))
  | 'f' | 'F' => f.showDecimal Decimal.fixedWhole n
  | 'e' => f.showDecimal Decimal.scientificWhole n
  | 'E' => (f.showDecimal Decimal.scientificWhole n).map upper
  | 'g' => f.showDecimal Decimal.generalWhole n
  | 'G' => (f.showDecimal Decimal.generalWhole n).map upper
  | _ => none

def render? (f : Field) (property : Property) : Option (List Char) :=
  match f.conversion, property with
  | 's', .text value => some (f.showText value)
  | 'r', .text value => some (f.showText (Text.quoted value))
  | 'a', .text value => some (f.showText (Text.asciiQuoted value))
  | 's', .number n | 'r', .number n | 'a', .number n => some (f.showText (toString n))
  | 's', .spelled value | 'r', .spelled value | 'a', .spelled value => some (f.showText value)
  | 'c', _ => (character? property).map fun c => f.layText [c]
  | _, .number n => f.showNumber n
  | _, _ => none

end Field

end SentenceGen.Logging
