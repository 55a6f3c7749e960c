import SentenceGen.Decimal.Fixed

/-!
# Notations of whole numbers

A whole number as the double nearest to it, with a fixed number of places, with an exponent, or
without needless zeros.  A point that no digit follows is written only if it is asked for.
-/

namespace SentenceGen.Decimal

/-- The double nearest to a whole number: fifty-three binary digits stay, and a half goes to the
even neighbour.  No double is as large as the 1024th power of two. -/
def nearestDouble? (n : Nat) : Option Nat :=
  let unit := Nat.pow 2 (n.log2 - 52)
  let nearest := roundHalfEven n unit * unit
  if nearest < Nat.pow 2 1024 then some nearest else none

def zeroDigits (n : Nat) : List Char := List.replicate n '0'

/-- A point and digits after it. -/
def fractionOf (point : Bool) (digits : List Char) : List Char :=
  if digits.isEmpty && !point then [] else '.' :: digits

def fixedWhole (places : Nat) (point : Bool) (n : Nat) : List Char :=
  Nat.toDigits 10 n ++ fractionOf point (zeroDigits places)

/-- The first digits of a number, so many of them, and the exponent of the first one.  What is cut
off rounds to nearest; a half goes to the even neighbour. -/
def leadingDigits (count n : Nat) : List Char × Nat :=
  let length := digitCount n
  if length ≤ count then (Nat.toDigits 10 n ++ zeroDigits (count - length), length - 1)
  else
    let rounded := roundHalfEven n (Nat.pow 10 (length - count))
    if rounded = Nat.pow 10 count then (Nat.toDigits 10 (rounded / 10), length)
    else (Nat.toDigits 10 rounded, length - 1)

def exponentOf (exponent : Nat) : List Char := ['e', '+'] ++ (padded 2 exponent).toList

def scientificWhole (places : Nat) (point : Bool) (n : Nat) : List Char :=
  let (digits, exponent) := leadingDigits (places + 1) n
  digits.take 1 ++ fractionOf point (digits.drop 1) ++ exponentOf exponent

def trimZeros (digits : List Char) : List Char := (digits.reverse.dropWhile (· = '0')).reverse

/-- A number with at most so many digits: all of them before the point if they suffice, else with an
exponent.  Zeros behind the point stay only if it is asked for. -/
def generalWhole (precision : Nat) (point : Bool) (n : Nat) : List Char :=
  let precision := max precision 1
  let (digits, exponent) := leadingDigits precision n
  let kept (digits : List Char) := if point then digits else trimZeros digits
  if exponent < precision then
    digits.take (exponent + 1) ++ fractionOf point (kept (digits.drop (exponent + 1)))
  else digits.take 1 ++ fractionOf point (kept (digits.drop 1)) ++ exponentOf exponent

end SentenceGen.Decimal
