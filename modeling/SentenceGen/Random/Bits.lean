/-!
# Random bits

Whole numbers and fractions drawn from a stream of thirty-two bit words.
-/

namespace SentenceGen.Random

class WordSource (ρ : Type) where
  next : ρ → UInt32 × ρ

/-- What a random source draws: numbers of so many bits, and fractions from zero up to one. -/
class BitSource (ρ : Type) where
  bits : Nat → ρ → Nat × ρ
  fraction : ρ → Float × ρ

variable {ρ : Type}

/-- Reads whole words, the least significant first, and the rest from the top of one more word. -/
def drawBits [WordSource ρ] (k : Nat) (r : ρ) : Nat × ρ :=
  if k ≤ 32 then
    let (w, r) := WordSource.next r
    (w.toNat >>> (32 - k), r)
  else
    let (w, r) := WordSource.next r
    let (rest, r) := drawBits (k - 32) r
    (w.toNat + rest <<< 32, r)
termination_by k

/-- Fifty-three bits of two words as a fraction. -/
def drawFraction [WordSource ρ] (r : ρ) : Float × ρ :=
  let (a, r) := WordSource.next r
  let (b, r) := WordSource.next r
  let numerator := (a >>> 5).toUInt64 * (67108864 : UInt64) + (b >>> 6).toUInt64
  (numerator.toFloat / 9007199254740992.0, r)

instance [WordSource ρ] : BitSource ρ where
  bits := drawBits
  fraction := drawFraction

/-- Draws one number of `k` bits, and is done if it is below `n`. -/
def attempt [BitSource ρ] (k n : Nat) (r : ρ) : Id (ρ ⊕ Nat × ρ) :=
  let (value, r) := BitSource.bits k r
  if value < n then .inr (value, r) else .inl r

/-- Draws numbers of `k` bits until one is below `n`.  Nothing is said of the result if none is. -/
def drawUntil [BitSource ρ] (k n : Nat) (r : ρ) : Nat × ρ :=
  haveI : Nonempty (Nat × ρ) := ⟨0, r⟩
  Id.run (repeatM (attempt k n) r)

/-- A number below `n`, every one as likely as the others. -/
def drawBelow [BitSource ρ] (n : Nat) (r : ρ) : Nat × ρ := drawUntil (n.log2 + 1) n r

end SentenceGen.Random
