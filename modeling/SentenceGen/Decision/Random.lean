import SentenceGen.Config
import SentenceGen.Decision.Source
import SentenceGen.Random.Twister

/-!
# Random decisions

Branches and code points are drawn uniformly.  A repetition goes on beyond its minimum with a chance
that shrinks with every step.  Nothing bounds the number of draws, and nothing is said of the answer
to a question whose draws never come to an end.
-/

namespace SentenceGen

open SentenceGen.Random (BitSource Twister)

structure RandomSource (ρ : Type) where
  /-- The seed as it was given. -/
  seed : Datum := .null
  continuation : Float := 0.5
  decay : Float := 0.5
  optional : Float := 0.5
  state : ρ

/-- A number as a double; nothing else is one. -/
def Datum.toFloat : Datum → Float
  | .float x => x
  | d =>
    match d.int? with
    | some n => Float.ofInt n
    | none => 0

namespace RandomSource

variable {ρ : Type}

/-- Whether a maximum, null for none, leaves room above a count. -/
def hasRoom (maximum count : Datum) : Except Fault Bool :=
  if maximum.isNull then .ok true else count.less maximum

/-- Draws a fraction if there is room above the count, and is done if it is not below the chance. -/
def stepUp [BitSource ρ] (decay : Float) (maximum : Datum) :
    Datum × Float × ρ → Id (Datum × Float × ρ ⊕ Except Fault Datum × ρ)
  | (count, chance, r) =>
    match hasRoom maximum count with
    | .error fault => .inr (.error fault, r)
    | .ok false => .inr (.ok count, r)
    | .ok true =>
      let (x, r) := BitSource.fraction r
      if x < chance then
        match count.successor with
        | .error fault => .inr (.error fault, r)
        | .ok next => .inl (next, chance * decay, r)
      else .inr (.ok count, r)

/-- Counts up from `count` while there is room and the fractions drawn stay below the chance. -/
def extend [BitSource ρ] (decay : Float) (maximum count : Datum) (chance : Float) (r : ρ) :
    Except Fault Datum × ρ :=
  haveI : Nonempty (Except Fault Datum × ρ) := ⟨.ok count, r⟩
  Id.run (repeatM (stepUp decay maximum) (count, chance, r))

/-- The integer that bounds a range from above.  A number must be whole; a text is read as an
integer first, and is none itself. -/
def rangeBound (count : Datum) : Except Fault Int :=
  match count with
  | .float x =>
    match Decimal.Double.ofFloat x, count.whole? with
    | .finite .., some n => .ok n
    | .finite .., none => .error .fractionalRange
    | _, _ => .error (.infiniteRange x)
  | .str s =>
    if (Environment.integer? s).isSome then .error .fractionalRange
    else .error (.notSpelled 10 s)
  | _ =>
    match count.int? with
    | some n => .ok n
    | none => .error (.rangeNotNumber count.kind)

/-- Draws a number below the count. -/
def drawBelow [BitSource ρ] (count : Datum) (r : ρ) : Except Fault Datum × ρ :=
  match rangeBound count with
  | .error fault => (.error fault, r)
  | .ok n =>
    if 0 < n then
      let (index, r) := Random.drawBelow n.toNat r
      (.ok (.int index), r)
    else (.error .emptyRange, r)

/-- The candidate at the place drawn. -/
def pick (candidates : Candidates) (drawn : Nat × ρ) : Except Fault Datum × ρ :=
  match candidates.at? drawn.1 with
  | some codepoint => (.ok codepoint, drawn.2)
  | none => (.error .emptyChoice, drawn.2)

/-- Draws one of the candidates. -/
def choose [BitSource ρ] (candidates : Candidates) (r : ρ) : Except Fault Datum × ρ :=
  if 0 < candidates.size then pick candidates (Random.drawBelow candidates.size r)
  else (.error .emptyChoice, r)

/-- What is drawn for a question. -/
def draw [BitSource ρ] (q : Question) (s : RandomSource ρ) : Except Fault Datum × ρ :=
  match q with
  | .alternative count => drawBelow count s.state
  | .repetition bounds _ => extend s.decay bounds.maximum bounds.minimum s.continuation s.state
  | .optional =>
    let (x, state) := BitSource.fraction s.state
    (.ok (.bool (x < s.optional)), state)
  | .codepoint candidates => choose candidates s.state

instance [BitSource ρ] : DecisionSource (RandomSource ρ) where
  name _ := "random"
  shown s := do return s!"RandomDecisionSource(seed={← s.seed.text})"
  ask q s :=
    let (answer, state) := draw q s
    (answer, { s with state })

/-- A source with the given settings, which are checked again.  An integer sows the generator as it
is; what any other seed sows is up to `sowing`, chance where there is no seed. -/
def ofSettings (sowing : Datum → Nat) (settings : DecisionSettings) :
    Except Fault (RandomSource Twister) := do
  settings.check
  unless settings.seed.hashable do throw .unsupportedSeed
  return {
    seed := settings.seed
    continuation := settings.continuation.toFloat
    decay := settings.decay.toFloat
    optional := settings.optional.toFloat
    state := Twister.ofSeed (settings.seed.int?.getD (sowing settings.seed)) }

end RandomSource

end SentenceGen
