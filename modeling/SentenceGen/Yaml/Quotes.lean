import SentenceGen.Yaml.Cursor
import SentenceGen.Yaml.Scalar

/-!
# Scalars over lines

The text of a scalar as it is read.  Blanks around a line break vanish; a single break stands for
a space and every further one for itself.  Between single quotes an apostrophe is written twice,
between double quotes a backslash begins an escape.
-/

namespace SentenceGen.Yaml

/-- Blanks and line breaks that have been read but not yet added to the text. -/
inductive Pending where
  | blanks (reversed : List Char)
  /-- A line break and further ones. -/
  | folded (further : Nat)
  /-- An escaped line break and further ones. -/
  | joined (further : Nat)

namespace Pending

def text : Pending → List Char
  | .blanks reversed => reversed.reverse
  | .folded 0 => [' ']
  | .folded n => List.replicate n '\n'
  | .joined n => List.replicate n '\n'

def blank (c : Char) : Pending → Pending
  | .blanks reversed => .blanks (c :: reversed)
  | pending => pending

def lineBreak : Pending → Pending
  | .blanks _ => .folded 0
  | .folded n => .folded (n + 1)
  | .joined n => .joined (n + 1)

def isEmpty : Pending → Bool
  | .blanks [] => true
  | _ => false

end Pending

/-- The text of a scalar as far as it is read. -/
structure Content where
  reversed : List Char := []
  pending : Pending := .blanks []

namespace Content

def settle (t : Content) : Content :=
  { reversed := t.pending.text.reverse ++ t.reversed, pending := .blanks [] }

def push (t : Content) (c : Char) : Content :=
  { t.settle with reversed := c :: t.settle.reversed }

def add (t : Content) (c : Char) : Content :=
  if c = '\n' then { t with pending := t.pending.lineBreak }
  else if isSpacing c then { t with pending := t.pending.blank c }
  else t.push c

/-- Adds an escaped line break. -/
def join (t : Content) : Content := { t.settle with pending := .joined 0 }

def trimmed (t : Content) : List Char := t.reversed.reverse

def text (t : Content) : List Char := t.settle.trimmed

end Content

/-- Reads on between single quotes. -/
def singleQuoted : Place → Content → List Char → Option (List Char × Cursor)
  | _, _, [] => none
  | place, t, '\'' :: '\'' :: rest => singleQuoted (place.right 2) (t.push '\'') rest
  | place, t, '\'' :: rest => some (t.text, ⟨place.right 1, rest⟩)
  | place, t, c :: rest => singleQuoted (place.after c) (t.add c) rest

/-- The characters that a backslash and a sign stand for. -/
def escapes : List (Char × Char) :=
  [('0', '\x00'), ('a', '\x07'), ('b', '\x08'), ('t', '\t'), ('\t', '\t'), ('n', '\n'),
    ('v', '\x0b'), ('f', '\x0c'), ('r', '\r'), ('e', '\x1b'), (' ', ' '), ('"', '"'),
    ('\\', '\\'), ('/', '/'), ('N', '\u0085'), ('_', '\u00a0'), ('L', '\u2028'), ('P', '\u2029')]

def coded? (digits : List Char) : Option Char :=
  let n := numeralValue 16 digits
  if digits.all isHexDigit && n < 0x110000 then some (Char.ofNat n) else none

/-- Reads on between double quotes. -/
def doubleQuoted : Place → Content → List Char → Option (List Char × Cursor)
  | _, _, [] => none
  | place, t, '"' :: rest => some (t.text, ⟨place.right 1, rest⟩)
  | place, t, '\\' :: '\n' :: rest => doubleQuoted (place.after '\n') t.join rest
  | place, t, '\\' :: 'x' :: a :: b :: rest =>
    match coded? [a, b] with
    | some c => doubleQuoted (place.right 4) (t.push c) rest
    | none => none
  | place, t, '\\' :: 'u' :: a :: b :: c :: d :: rest =>
    match coded? [a, b, c, d] with
    | some c => doubleQuoted (place.right 6) (t.push c) rest
    | none => none
  | place, t, '\\' :: 'U' :: a :: b :: c :: d :: e :: f :: g :: h :: rest =>
    match coded? [a, b, c, d, e, f, g, h] with
    | some c => doubleQuoted (place.right 10) (t.push c) rest
    | none => none
  | place, t, '\\' :: mark :: rest =>
    match escapes.lookup mark with
    | some c => doubleQuoted (place.right 2) (t.push c) rest
    | none => none
  | place, t, c :: rest => doubleQuoted (place.after c) (t.add c) rest

/-- Whether the signs of flow collections are none of the text. -/
inductive Surroundings where
  /-- Lines that are indented by at least so much go on with the text. -/
  | block (indent : Nat)
  | flow

/-- Whether a character ends a text without quotes, given the next character. -/
def Surroundings.ends (around : Surroundings) (c : Char) (next : Option Char) : Bool :=
  match around with
  | .block _ => c = '\t' || (c = ':' && isGap next)
  | .flow =>
    c = '\t' || [',', '?', '[', ']', '\x7b', '\x7d'].contains c ||
      (c = ':' && (isGap next || next.any [',', '[', ']', '\x7b', '\x7d'].contains))

/-- Whether a line that begins at a column does not go on with a text. -/
def Surroundings.isOutside (around : Surroundings) (column : Nat) : Bool :=
  match around with
  | .block indent => column < indent
  | .flow => false

/-- Reads on without quotes. -/
def unquoted (around : Surroundings) : Place → Content → List Char → List Char × Cursor
  | place, t, [] => (t.trimmed, ⟨place, []⟩)
  | place, t, c :: rest =>
    if c = ' ' || c = '\n' then unquoted around (place.after c) (t.add c) rest
    else if around.ends c rest.head? || (c = '#' && !t.pending.isEmpty) ||
        (!t.reversed.isEmpty && around.isOutside place.column) then
      (t.trimmed, ⟨place, c :: rest⟩)
    else unquoted around (place.after c) (t.add c) rest

/-- Reads a scalar: a text between quotes, or what a text without quotes stands for. -/
def scalar (around : Surroundings) : Read Datum := do
  let cursor ← get
  match cursor.rest with
  | '\'' :: rest =>
    match singleQuoted (cursor.place.right 1) {} rest with
    | some (text, after) => set after; return .str (String.ofList text)
    | none => refuse "a quoted text does not end"
  | '"' :: rest =>
    match doubleQuoted (cursor.place.right 1) {} rest with
    | some (text, after) => set after; return .str (String.ofList text)
    | none => refuse "a quoted text does not end or holds an unknown escape"
  | rest =>
    let (text, after) := unquoted around cursor.place {} rest
    set after
    checkDigits text
    return resolve text

end SentenceGen.Yaml
