import SentenceGen.Fault

/-!
# Places in a document

A cursor knows what is still to read and how far the current line is indented up to it.
-/

namespace SentenceGen.Yaml

/-- A place: both numbers count from zero. -/
structure Place where
  line : Nat
  column : Nat
  deriving DecidableEq, Repr

namespace Place

def right (p : Place) (n : Nat) : Place := { p with column := p.column + n }

def after (p : Place) (c : Char) : Place := if c = '\n' then ⟨p.line + 1, 0⟩ else p.right 1

end Place

structure Cursor where
  place : Place
  rest : List Char

/-- Whether a character separates words; the end of the text does, too. -/
def isGap : Option Char → Bool
  | none => true
  | some c => c = ' ' || c = '\n' || c = '\t'

/-- Skips spaces, line breaks and comments. -/
def skipFrom (inComment : Bool) : Place → List Char → Cursor
  | place, [] => ⟨place, []⟩
  | place, c :: rest =>
    if c = '\n' then skipFrom false (place.after c) rest
    else if inComment || c = ' ' then skipFrom inComment (place.after c) rest
    else if c = '#' then skipFrom true (place.after c) rest
    else ⟨place, c :: rest⟩

/-- Reads from a document and moves the cursor. -/
abbrev Read := StateT Cursor (Except Fault)

def refuse {α : Type} (reason : String) : Read α := do
  let place := (← get).place
  throw (.malformedDocument s!"line {place.line + 1}, column {place.column + 1}: {reason}")

def skip : Read Unit := modify fun cursor => skipFrom false cursor.place cursor.rest

def advance (n : Nat) : Read Unit :=
  modify fun cursor => ⟨cursor.place.right n, cursor.rest.drop n⟩

end SentenceGen.Yaml
