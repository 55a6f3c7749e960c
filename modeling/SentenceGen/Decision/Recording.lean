import SentenceGen.Decision.Script

/-!
# Recordings

A recording forwards every question to another source and writes its answers down as decisions, so
that the run can be repeated from a script.
-/

namespace SentenceGen

structure Recording (σ : Type) where
  inner : σ
  decisions : Array Decision := #[]

namespace Recording

variable {σ : Type}

/-- The decision that an answer to a question amounts to. -/
def decisionOf : Question → Datum → Except Fault Decision
  | .alternative _, answer => .ok (.pick answer)
  | .repetition .., answer => .ok (.repeats answer)
  | .optional, answer => .ok (if answer.truthy then .take else .skip)
  | .codepoint _, answer => Decision.codepoint answer

/-- Asks the source inside; a fault is not written down. -/
def ask [DecisionSource σ] (q : Question) (r : Recording σ) : Except Fault Datum × Recording σ :=
  match DecisionSource.ask q r.inner with
  | (.error fault, inner) => (.error fault, { r with inner })
  | (.ok answer, inner) =>
    match decisionOf q answer with
    | .error fault => (.error fault, { r with inner })
    | .ok d => (.ok answer, { inner, decisions := r.decisions.push d })

def replay (r : Recording σ) : Except Fault Script := Script.ofDecisions r.decisions.toList

instance [DecisionSource σ] : DecisionSource (Recording σ) where
  name r := s!"recording({DecisionSource.name r.inner})"
  shown r := do
    let inner ← DecisionSource.shown r.inner
    return s!"RecordingDecisionSource({inner}, recorded={r.decisions.size})"
  ask := ask

end Recording

end SentenceGen
