/-!
# Doubles as exact numbers

A finite double is a natural number times a power of two, up to its sign.  Everything that must be
exact (comparison with integers, rounding, shortest digits) starts from that form.
-/

namespace SentenceGen.Decimal

/-- The fields of a double: a finite one is `mantissa * 2 ^ exponent` with the given sign. -/
inductive Double where
  | finite (negative : Bool) (mantissa : Nat) (exponent : Int)
  | infinite (negative : Bool)
  | undefined
  deriving Repr, DecidableEq

namespace Double

/-- Reads the fields of the sixty-four bits: one sign, eleven exponent, fifty-two fraction bits. -/
def ofBits (bits : Nat) : Double :=
  let negative := bits / Nat.pow 2 63 % 2 = 1
  let exponent : Nat := bits / Nat.pow 2 52 % Nat.pow 2 11
  let fraction := bits % Nat.pow 2 52
  if exponent = Nat.pow 2 11 - 1 then
    if fraction = 0 then .infinite negative else .undefined
  else if exponent = 0 then .finite negative fraction (-1074)
  else .finite negative (fraction + Nat.pow 2 52) ((exponent : Int) - 1075)

def ofFloat (x : Float) : Double := ofBits x.toBits.toNat

end Double

def binary (mantissa : Nat) (exponent : Int) : Rat :=
  if 0 ≤ exponent then mkRat (mantissa * Nat.pow 2 exponent.toNat) 1
  else mkRat mantissa (Nat.pow 2 (-exponent).toNat)

/-- The point of the real line, closed by two infinities, at which a number lies; `undefined` is
comparable with nothing. -/
inductive Magnitude where
  | finite (value : Rat)
  | infinite (negative : Bool)
  | undefined
  deriving DecidableEq

namespace Magnitude

def ofInt (n : Int) : Magnitude := .finite n

def ofFloat (x : Float) : Magnitude :=
  match Double.ofFloat x with
  | .finite negative mantissa exponent =>
    .finite (if negative then -binary mantissa exponent else binary mantissa exponent)
  | .infinite negative => .infinite negative
  | .undefined => .undefined

/-- Equality of numbers; what is undefined differs even from itself. -/
def equal : Magnitude → Magnitude → Bool
  | .finite a, .finite b => a = b
  | .infinite a, .infinite b => a = b
  | _, _ => false

def less : Magnitude → Magnitude → Bool
  | .finite a, .finite b => a < b
  | .finite _, .infinite negative => !negative
  | .infinite negative, .finite _ => negative
  | .infinite a, .infinite b => a && !b
  | _, _ => false

def atMost (a b : Magnitude) : Bool := a.less b || a.equal b

def integer? : Magnitude → Option Int
  | .finite value => if value.den = 1 then some value.num else none
  | _ => none

/-- The largest integer not above this point, if there is one. -/
def floor? : Magnitude → Option Int
  | .finite value => some value.floor
  | _ => none

@[simp] theorem equal_ofInt (m n : Int) : (ofInt m).equal (ofInt n) = decide (m = n) := by
  simp [ofInt, equal]

@[simp] theorem less_ofInt (m n : Int) : (ofInt m).less (ofInt n) = decide (m < n) := by
  simp only [ofInt, less, Rat.intCast_lt_intCast]

@[simp] theorem integer?_ofInt (n : Int) : (ofInt n).integer? = some n := by
  simp [ofInt, integer?]

end Magnitude

end SentenceGen.Decimal
