import SentenceGen.Fault

/-!
# Sinks

A sink accepts text.  What is written to it in pieces is handed over one piece at a time, up to the
first one that it does not accept.
-/

namespace SentenceGen

/-- What accepts the text of a sentence; `τ` is its state. -/
abbrev Sink (τ : Type) : Type := String → τ → Except Fault Unit × τ

namespace Sink

variable {τ : Type}

def check : Datum ⊕ Sink τ → Except Fault (Sink τ)
  | .inr sink => .ok sink
  | .inl value => .error (.notSink value.kind)

/-- Hands over texts in turn and tells how long they are together. -/
def writeAll (sink : Sink τ) : List String → τ → Except Fault Nat × τ
  | [], state => (.ok 0, state)
  | text :: rest, state =>
    match sink text state with
    | (.error fault, state) => (.error fault, state)
    | (.ok (), state) =>
      let (written, state) := sink.writeAll rest state
      (written.map (text.length + ·), state)

end Sink

end SentenceGen
