import SentenceGen.Random.Bits

/-!
# The Mersenne twister

A generator of thirty-two bit words with a period of `2 ^ 19937 - 1`.  Its state is a block of 624
words; when the block is used up it is twisted into the next one, and every word is tempered on its
way out.
-/

namespace SentenceGen.Random

/-- The state block and the words of it that have not been given out. -/
structure Twister where
  block : Array UInt32
  waiting : List UInt32
  deriving Inhabited

namespace Twister

def blockSize : Nat := 624

def period : Nat := 397

def word (block : Array UInt32) (i : Nat) : UInt32 := block.getD (i % blockSize) 0

/-- The block that a single word expands to. -/
def expand (seed : UInt32) : Array UInt32 :=
  (List.range (blockSize - 1)).foldl (fun block i =>
    let previous := block.getD i 0
    let mixed := (1812433253 : UInt32) * (previous ^^^ (previous >>> 30))
    block.push (mixed + (i + 1).toUInt32)) #[seed]

/-- Copies the last word to the front once the end of the block is reached. -/
def wrap (block : Array UInt32) (i : Nat) : Array UInt32 × Nat :=
  if blockSize ≤ i then (block.setIfInBounds 0 (word block (blockSize - 1)), 1) else (block, i)

def mixed (block : Array UInt32) (i : Nat) (factor : UInt32) : UInt32 :=
  let previous := word block (i - 1)
  word block i ^^^ ((previous ^^^ (previous >>> 30)) * factor)

/-- Stirs the words of a key into the block, `steps` times. -/
def stirKey (key : Array UInt32) : Nat → Array UInt32 → Nat → Nat → Array UInt32 × Nat
  | 0, block, i, _ => (block, i)
  | steps + 1, block, i, j =>
    let value := mixed block i (1664525 : UInt32) + key.getD j 0 + j.toUInt32
    let (block, i) := wrap (block.setIfInBounds i value) (i + 1)
    stirKey key steps block i (if key.size ≤ j + 1 then 0 else j + 1)

def stirPlace : Nat → Array UInt32 → Nat → Array UInt32
  | 0, block, _ => block
  | steps + 1, block, i =>
    let value := mixed block i 1566083941 - i.toUInt32
    let (block, i) := wrap (block.setIfInBounds i value) (i + 1)
    stirPlace steps block i

/-- The block that a key, which is not empty, expands to. -/
def ofKey (key : Array UInt32) : Twister :=
  let (block, i) := stirKey key (max blockSize key.size) (expand 19650218) 1 0
  let block := stirPlace (blockSize - 1) block i
  ⟨block.setIfInBounds 0 0x80000000, []⟩

/-- The words of a number, the least significant first; at least one. -/
def keyOf (n : Nat) : Array UInt32 :=
  ((List.range (n.log2 / 32 + 1)).map fun i => (n >>> (32 * i)).toUInt32).toArray

/-- The generator for a seed; the sign of the seed is ignored. -/
def ofSeed (seed : Int) : Twister := ofKey (keyOf seed.natAbs)

def twist (block : Array UInt32) : Array UInt32 :=
  (List.range blockSize).foldl (fun block i =>
    let y := (word block i &&& 0x80000000) ||| (word block (i + 1) &&& 0x7fffffff)
    let odd := if y &&& 1 = 1 then (0x9908b0df : UInt32) else 0
    block.setIfInBounds i (word block (i + period) ^^^ (y >>> 1) ^^^ odd)) block

def temper (y : UInt32) : UInt32 :=
  let y := y ^^^ (y >>> 11)
  let y := y ^^^ ((y <<< 7) &&& 0x9d2c5680)
  let y := y ^^^ ((y <<< 15) &&& 0xefc60000)
  y ^^^ (y >>> 18)

def next (t : Twister) : UInt32 × Twister :=
  match t.waiting with
  | w :: rest => (temper w, { t with waiting := rest })
  | [] =>
    let block := twist t.block
    match block.toList with
    | w :: rest => (temper w, ⟨block, rest⟩)
    | [] => (0, ⟨block, []⟩)

instance : WordSource Twister where
  next := next

end Twister

end SentenceGen.Random
