import SentenceGen.Decimal.Parse
import SentenceGen.Fault

/-!
# Plain scalars

What a text without quotes stands for.  Some words stand for null and for truth values, and
numbers come in several bases and in parts of sixty; underscores between digits only help the eye.
All else is text.
-/

namespace SentenceGen.Yaml

/-- A word in small letters, with a capital or in capitals. -/
def spellings (word : String) : List String :=
  [word, word.capitalize, word.toUpper]

def isWord (words : List String) (s : List Char) : Bool :=
  (words.flatMap spellings).contains (String.ofList s)

def nullWords : List String := ["null"]

def trueWords : List String := ["yes", "true", "on"]

def falseWords : List String := ["no", "false", "off"]

/-- One digit or underscore at least, and nothing else. -/
def isNumeral (isDigit : Char → Bool) (s : List Char) : Bool :=
  !s.isEmpty && s.all fun c => isDigit c || c = '_'

/-- The value of a digit, up to the sixteen of the largest base. -/
def digitValue (c : Char) : Nat :=
  if c.isDigit then c.toNat - '0'.toNat else c.toLower.toNat - 'a'.toNat + 10

def numeralValue (base : Nat) (s : List Char) : Nat :=
  s.foldl (fun n c => if c = '_' then n else n * base + digitValue c) 0

def isBinaryDigit (c : Char) : Bool := c = '0' || c = '1'

def isOctalDigit (c : Char) : Bool := '0' ≤ c && c ≤ '7'

def isHexDigit (c : Char) : Bool := c.isDigit || ('a' ≤ c && c ≤ 'f') || ('A' ≤ c && c ≤ 'F')

/-- The base of a number that has underscores for digits and so spells nothing. -/
def emptyBase? (s : List Char) : Option Nat :=
  match s with
  | '0' :: 'b' :: c :: rest => if (c :: rest).all (· = '_') then some 2 else none
  | '0' :: 'x' :: c :: rest => if (c :: rest).all (· = '_') then some 16 else none
  | _ => none

def atColons : List Char → List (List Char)
  | [] => [[]]
  | ':' :: rest => [] :: atColons rest
  | c :: rest =>
    match atColons rest with
    | [] => [[c]]
    | part :: parts => (c :: part) :: parts

/-- A number below sixty, with one digit or two. -/
def isSixtieth : List Char → Bool
  | [a] => a.isDigit
  | [a, b] => '0' ≤ a && a ≤ '5' && b.isDigit
  | _ => false

def natural? : List Char → Option Nat
  | '0' :: 'b' :: s => if isNumeral isBinaryDigit s then some (numeralValue 2 s) else none
  | '0' :: 'x' :: s => if isNumeral isHexDigit s then some (numeralValue 16 s) else none
  | ['0'] => some 0
  | '0' :: s => if isNumeral isOctalDigit s then some (numeralValue 8 s) else none
  | s =>
    match atColons s with
    | first :: rest =>
      if isNumeral Char.isDigit first && first.head? != some '_' && rest.all isSixtieth then
        some (rest.foldl (fun n part => n * 60 + numeralValue 10 part) (numeralValue 10 first))
      else none
    | [] => none

def unsigned : List Char → Bool × List Char
  | '-' :: s => (true, s)
  | '+' :: s => (false, s)
  | s => (false, s)

def integer? (s : List Char) : Option Int :=
  let (negative, digits) := unsigned s
  (natural? digits).map fun n => if negative then -(n : Int) else n

/-- An exponent: it has a sign. -/
def isExponent : List Char → Bool
  | mark :: sign :: digits =>
    (mark = 'e' || mark = 'E') && (sign = '-' || sign = '+') && !digits.isEmpty &&
      digits.all Char.isDigit
  | _ => false

/-- What may follow the point of a decimal. -/
def isFraction (s : List Char) : Bool :=
  let rest := s.dropWhile fun c => c.isDigit || c = '_'
  rest.isEmpty || isExponent rest

def decimal? (s : List Char) : Option Float :=
  (Decimal.written? (s.filter (· != '_'))).map Decimal.Written.toFloat

def wholeDecimal? (s : List Char) : Option Float :=
  match s with
  | c :: _ =>
    if c.isDigit then
      match s.dropWhile fun c => c.isDigit || c = '_' with
      | '.' :: rest => if isFraction rest then decimal? s else none
      | _ => none
    else none
  | [] => none

def bareDecimal? : List Char → Option Float
  | '.' :: c :: rest => if c.isDigit && isFraction rest then decimal? ('.' :: c :: rest) else none
  | _ => none

/-- The last part of a number in parts of sixty, with its point. -/
def lastSixtieth? (s : List Char) : Option Float :=
  match s.dropWhile Char.isDigit with
  | '.' :: rest =>
    if isSixtieth (s.takeWhile Char.isDigit) && rest.all (fun c => c.isDigit || c = '_') then
      decimal? s
    else none
  | _ => none

/-- Parts of sixty, of which the last one has a point. -/
def sixtieths? (s : List Char) : Option Float :=
  match atColons s with
  | first :: second :: more =>
    let parts := second :: more
    if isNumeral Char.isDigit first && first.head? != some '_' &&
        parts.dropLast.all isSixtieth then
      (parts.getLast?.bind lastSixtieth?).map fun last =>
        let step (acc : Float × Float) (part : List Char) : Float × Float :=
          (acc.1 + Float.ofNat (numeralValue 10 part) * acc.2, acc.2 * 60)
        ((first :: parts.dropLast).reverse.foldl step (last, 60)).1
    else none
  | _ => none

def isInfinity (s : List Char) : Bool :=
  [".inf", ".Inf", ".INF"].contains (String.ofList s)

def isNotNumber (s : List Char) : Bool :=
  [".nan", ".NaN", ".NAN"].contains (String.ofList s)

def float? (s : List Char) : Option Float :=
  let (negative, digits) := unsigned s
  let value :=
    if isInfinity digits then some (1.0 / 0.0)
    else (wholeDecimal? digits).or (sixtieths? digits)
  if isNotNumber s then some (0.0 / 0.0)
  else (value.map fun x => if negative then -x else x).or (bareDecimal? s)

/-- The value other than a text that a plain scalar stands for. -/
def value? (s : List Char) : Option Datum :=
  if s.isEmpty || s = ['~'] || isWord nullWords s then some .null
  else if isWord trueWords s then some (.bool true)
  else if isWord falseWords s then some (.bool false)
  else
    match integer? s with
    | some n => some (.int n)
    | none => (float? s).map .float

def resolve (s : List Char) : Datum := (value? s).getD (.str (String.ofList s))

def afterDigits : List Char → Option (List Char)
  | a :: b :: rest =>
    if a.isDigit then some (if b.isDigit then rest else b :: rest) else none
  | [a] => if a.isDigit then some [] else none
  | [] => none

def afterTwoDigits : List Char → Option (List Char)
  | a :: b :: rest => if a.isDigit && b.isDigit then some rest else none
  | _ => none

def after (c : Char) : List Char → Option (List Char)
  | d :: rest => if c = d then some rest else none
  | [] => none

def isSpacing (c : Char) : Bool := c = ' ' || c = '\t'

/-- A time zone, which may be missing. -/
def isZone (s : List Char) : Bool :=
  match s.dropWhile isSpacing with
  | [] => s.isEmpty
  | ['Z'] => true
  | sign :: rest =>
    (sign = '-' || sign = '+') &&
      match afterDigits rest with
      | some [] => true
      | some (':' :: minutes) => afterTwoDigits minutes == some []
      | _ => false

def isTime (s : List Char) : Bool :=
  let time := match s with
    | 'T' :: rest | 't' :: rest => some rest
    | c :: rest => if isSpacing c then some (rest.dropWhile isSpacing) else none
    | [] => none
  let seconds : Option (List Char) := do
    let rest ← after ':' (← afterDigits (← time))
    afterTwoDigits (← after ':' (← afterTwoDigits rest))
  match seconds with
  | some ('.' :: rest) => isZone (rest.dropWhile Char.isDigit)
  | some rest => isZone rest
  | none => false

def isDate (s : List Char) : Bool :=
  let year := s.take 4
  if year.length = 4 && year.all Char.isDigit then
    match after '-' (s.drop 4) with
    | none => false
    | some rest =>
      let long : Option (List Char) := do afterTwoDigits (← after '-' (← afterTwoDigits rest))
      let short : Option (List Char) := do afterDigits (← after '-' (← afterDigits rest))
      long == some [] || short.any isTime
  else false

/-- Whether a text stands for itself when it is written without quotes. -/
def readsAsText (s : List Char) : Bool :=
  (value? s).isNone && !isDate s && s != ['<', '<'] && s != ['=']

/-- The decimal digits of an integer, the first part of it if it is in parts of sixty.  The other
bases begin with a zero and may have any number of digits. -/
def decimalDigits (s : List Char) : Nat :=
  match natural? s, s with
  | none, _ | _, '0' :: _ => 0
  | _, _ => ((s.takeWhile (· != ':')).filter (· != '_')).length

/-- Refuses a number without digits and an integer with too many of them. -/
def checkDigits (s : List Char) : Except Fault Unit :=
  let (_, digits) := unsigned s
  match emptyBase? digits with
  | some base => .error (.notSpelled base "")
  | none =>
    if decimalDigits digits ≤ maximumDigits then .ok ()
    else .error (.tooManyDigits (some (decimalDigits digits)))

end SentenceGen.Yaml
