import SentenceGen.Decimal.Shortest

/-!
# Fixed places

A double with a fixed number of places is its exact value rounded to the nearest multiple of a
power of ten; a tie goes to the even neighbour.
-/

namespace SentenceGen.Decimal

/-- The nearest integer to `numerator / denominator`; a half goes to the even neighbour. -/
def roundHalfEven (numerator denominator : Nat) : Nat :=
  let below := numerator / denominator
  let rest := numerator % denominator
  if 2 * rest < denominator ∨ (2 * rest = denominator ∧ below % 2 = 0) then below else below + 1

/-- A double with a number of places after the point.  The sign of a negative number stays even when
all its digits are zero. -/
def fixed (places : Nat) (x : Float) : String :=
  match Double.ofFloat x with
  | .finite negative mantissa exponent =>
    let units := roundHalfEven (mantissa * Nat.pow 2 exponent.toNat * Nat.pow 10 places)
      (Nat.pow 2 (-exponent).toNat)
    let sign := if negative then "-" else ""
    let whole := toString (units / Nat.pow 10 places)
    if places = 0 then sign ++ whole
    else sign ++ whole ++ "." ++ padded places (units % Nat.pow 10 places)
  | .infinite negative => if negative then "-inf" else "inf"
  | .undefined => "nan"

end SentenceGen.Decimal
