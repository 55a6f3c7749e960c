/-!
# Reading decimals

A decimal has digits, perhaps a point with more digits, and perhaps an exponent.  The double
nearest to it is exact to the last bit.
-/

namespace SentenceGen.Decimal

def natural (digits : List Char) : Nat :=
  digits.foldl (fun n c => n * 10 + (c.toNat - '0'.toNat)) 0

/-- The parts of a decimal: the digits before and after the point, and the exponent. -/
structure Written where
  whole : List Char
  fraction : List Char
  exponent : Int
  deriving Repr, DecidableEq

def natural? (digits : List Char) : Option Nat :=
  if !digits.isEmpty && digits.all Char.isDigit then some (natural digits) else none

def exponent? : List Char → Option Int
  | '-' :: digits => (natural? digits).map fun n => -(n : Int)
  | '+' :: digits => (natural? digits).map Int.ofNat
  | digits => (natural? digits).map Int.ofNat

def written? (s : List Char) : Option Written :=
  let whole := s.takeWhile Char.isDigit
  let rest := s.dropWhile Char.isDigit
  let (fraction, rest) := match rest with
    | '.' :: rest => (rest.takeWhile Char.isDigit, rest.dropWhile Char.isDigit)
    | rest => ([], rest)
  if whole.isEmpty && fraction.isEmpty then none
  else
    match rest with
    | [] => some ⟨whole, fraction, 0⟩
    | mark :: rest =>
      if mark = 'e' ∨ mark = 'E' then (exponent? rest).map (⟨whole, fraction, ·⟩) else none

/-- The double nearest to a written decimal. -/
def Written.toFloat (w : Written) : Float :=
  let exponent := w.exponent - w.fraction.length
  Float.ofScientific (natural (w.whole ++ w.fraction)) (exponent < 0) exponent.natAbs

def parse? : List Char → Option Float
  | '-' :: s => (written? s).map fun w => -w.toFloat
  | '+' :: s => (written? s).map Written.toFloat
  | s => (written? s).map Written.toFloat

end SentenceGen.Decimal
