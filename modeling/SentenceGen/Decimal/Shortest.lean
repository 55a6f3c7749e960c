import SentenceGen.Decimal.Double

/-!
# Shortest decimals

The text of a double has the fewest digits that read back as the same double and, among those, the
digits nearest to it.  The numbers that read back form the rounding interval, which reaches half way
to the neighbouring doubles and contains its ends iff the mantissa is even.
-/

namespace SentenceGen.Decimal

/-- A non-negative number in decimal form, `digits * 10 ^ exponent`. -/
structure Numeral where
  digits : Nat
  exponent : Int
  deriving Repr, DecidableEq

/-- The numbers that round to a double, in quarters of a unit of its last place, on the scale
`numerator * 2 ^ exponent`. -/
structure RoundingInterval where
  lower : Nat
  value : Nat
  upper : Nat
  closed : Bool
  exponent : Int
  deriving Repr, DecidableEq

namespace RoundingInterval

/-- Below a power of two the neighbour is only half a unit away. -/
def ofMantissa (mantissa : Nat) (exponent : Int) : RoundingInterval :=
  { lower :=
      if mantissa = Nat.pow 2 52 ∧ exponent ≠ -1074 then 4 * mantissa - 1 else 4 * mantissa - 2
    value := 4 * mantissa
    upper := 4 * mantissa + 2
    closed := mantissa % 2 = 0
    exponent := exponent - 2 }

/-- The multiplier and divisor that take the interval's scale to units of `10 ^ exponent`. -/
def scale (i : RoundingInterval) (exponent : Int) : Nat × Nat :=
  (Nat.pow 2 i.exponent.toNat * Nat.pow 10 (-exponent).toNat,
    Nat.pow 2 (-i.exponent).toNat * Nat.pow 10 exponent.toNat)

def contains (i : RoundingInterval) (d : Numeral) : Bool :=
  let (times, divisor) := i.scale d.exponent
  let point := d.digits * divisor
  if i.closed then i.lower * times ≤ point ∧ point ≤ i.upper * times
  else i.lower * times < point ∧ point < i.upper * times

/-- The better of the value's two neighbours on the grid of multiples of `10 ^ exponent`, if one of
them lies in the interval.  A tie goes to the even neighbour. -/
def nearest? (i : RoundingInterval) (exponent : Int) : Option Numeral :=
  let (times, divisor) := i.scale exponent
  let below := i.value * times / divisor
  let rest := i.value * times % divisor
  let low : Numeral := ⟨below, exponent⟩
  let high : Numeral := ⟨below + 1, exponent⟩
  let preferLow := 2 * rest < divisor ∨ (2 * rest = divisor ∧ below % 2 = 0)
  let candidates := if preferLow then [low, high] else [high, low]
  candidates.find? i.contains

end RoundingInterval

/-- The number of decimal digits of `n`, at least one. -/
def digitCount (n : Nat) : Nat := (Nat.toDigits 10 n).length

/-- The exponent of the leading digit of `numerator / denominator`, for positive arguments. -/
def leadingExponent (numerator denominator : Nat) : Int :=
  if denominator ≤ numerator then digitCount (numerator / denominator) - 1
  else -(digitCount ((denominator - 1) / numerator) : Int)

def Numeral.trim (d : Numeral) : Nat → Numeral
  | 0 => d
  | fuel + 1 =>
    if d.digits % 10 = 0 ∧ d.digits ≠ 0 then
      Numeral.trim ⟨d.digits / 10, d.exponent + 1⟩ fuel
    else d

/-- The shortest decimal of `mantissa * 2 ^ exponent`; seventeen digits always suffice. -/
def shortest (mantissa : Nat) (exponent : Int) : Numeral :=
  if mantissa = 0 then ⟨0, 0⟩
  else
    let i := RoundingInterval.ofMantissa mantissa exponent
    let leading :=
      leadingExponent (mantissa * Nat.pow 2 exponent.toNat) (Nat.pow 2 (-exponent).toNat)
    let found := (List.range 17).findSome? fun (n : Nat) => i.nearest? (leading - n)
    (found.getD ⟨mantissa * Nat.pow 2 exponent.toNat, 0⟩).trim 20

/-- How a decimal is spelled: positionally while the exponent of the leading digit lies in a range,
else with a mark, a sign and at least two exponent digits. -/
structure Spelling where
  smallest : Int
  largest : Int
  mark : Char
  deriving Repr, DecidableEq

/-- Numbers are positional from `0.0001` up to sixteen digits, and always show a fraction there. -/
def standard : Spelling := { smallest := -4, largest := 15, mark := 'e' }

private def zeros (n : Nat) : String := String.ofList (List.replicate n '0')

/-- The digits `n`, with zeros in front up to the width. -/
def padded (width n : Nat) : String :=
  let text := toString n
  zeros (width - text.length) ++ text

namespace Spelling

def positional (d : Numeral) : String :=
  let text := toString d.digits
  if 0 ≤ d.exponent then text ++ zeros d.exponent.toNat ++ ".0"
  else
    let fraction := (-d.exponent).toNat
    let all := padded (fraction + 1) d.digits
    (all.take (all.length - fraction)).toString ++ "." ++
      (all.drop (all.length - fraction)).toString

def scientific (style : Spelling) (d : Numeral) : String :=
  let text := toString d.digits
  let leading := d.exponent + text.length - 1
  let fraction := if text.length = 1 then "" else "." ++ (text.drop 1).toString
  let sign := if leading < 0 then "-" else "+"
  (text.take 1).toString ++ fraction ++ style.mark.toString ++ sign ++ padded 2 leading.natAbs

def render (style : Spelling) (d : Numeral) : String :=
  let leading := d.exponent + (toString d.digits).length - 1
  if style.smallest ≤ leading ∧ leading ≤ style.largest then positional d else style.scientific d

end Spelling

def textOf (x : Float) : String :=
  match Double.ofFloat x with
  | .finite negative mantissa exponent =>
    (if negative then "-" else "") ++ standard.render (shortest mantissa exponent)
  | .infinite negative => if negative then "-inf" else "inf"
  | .undefined => "nan"

end SentenceGen.Decimal
