import SentenceGen.Decision
import SentenceGen.Rule
import SentenceGen.CharacterClass

/-!
# Decision sources

Every free choice of a generation is a question put to a decision source, so the same engine serves
random, scripted and recorded runs.  A source is a state: asking it yields an answer, which need not
be a sensible one, or a fault, and the next state.
-/

namespace SentenceGen

/-- A repetition met during a generation: its number, counted from zero in the order of meeting, and
the production around it.  A question asked by hand may number its site with anything. -/
structure RepetitionSite where
  index : Datum
  production : Option String := none

/-- What is on offer, in order: a class, or whatever is listed by hand. -/
inductive Candidates where
  | ofClass (c : CharacterClass)
  | listed (items : List Datum)

namespace Candidates

def size : Candidates → Nat
  | .ofClass c => c.size
  | .listed items => items.length

def at? (c : Candidates) (index : Nat) : Option Datum :=
  match c with
  | .ofClass c => c.codepoints[index]?.map fun n => .int n
  | .listed items => items[index]?

/-- Whether a value is on offer.  A class also accepts a text of one character. -/
def contains (c : Candidates) (value : Datum) : Except Fault Bool :=
  match c with
  | .ofClass c => c.contains value
  | .listed items => .ok (items.any value.same)

end Candidates

inductive Question where
  /-- Which of so many branches? -/
  | alternative (count : Datum)
  /-- How many times, within the bounds? -/
  | repetition (bounds : Bounds) (site : RepetitionSite)
  /-- Is the optional rule expanded? -/
  | optional
  /-- Which of the code points? -/
  | codepoint (candidates : Candidates)

namespace Question

def kind : Question → DecisionKind
  | .alternative _ => .alternative
  | .repetition .. => .repetition
  | .optional => .optional
  | .codepoint _ => .codepoint

end Question

class DecisionSource (σ : Type) where
  /-- The short name of the strategy. -/
  name : σ → String
  /-- A description of the state, which may hold a number that cannot be printed. -/
  shown : σ → Except Fault String
  ask : Question → σ → Except Fault Datum × σ

end SentenceGen
