import SentenceGen.Datum.Access
import SentenceGen.Fault.Message

/-!
# Decisions

A decision is one entry of a script: the answer to one of the four kinds of question that a
generation asks.  A repetition may be reserved for one site, named by its number.
-/

namespace SentenceGen

inductive DecisionKind where
  | alternative
  | repetition
  | optional
  | codepoint
  deriving DecidableEq, Repr

namespace DecisionKind

def name : DecisionKind → String
  | .alternative => "alternative"
  | .repetition => "repetition"
  | .optional => "optional"
  | .codepoint => "codepoint"

def ofDatum (d : Datum) : Except Fault DecisionKind :=
  match d with
  | .str "alternative" => .ok .alternative
  | .str "repetition" => .ok .repetition
  | .str "optional" => .ok .optional
  | .str "codepoint" => .ok .codepoint
  | _ => .error (Fault.unknownDecisionKind d).told

end DecisionKind

structure Decision where
  kind : DecisionKind
  value : Datum
  /-- The repetition site that the decision is reserved for. -/
  site : Option Datum := none

namespace Decision

def pick (index : Datum) : Decision := ⟨.alternative, index, none⟩

def take : Decision := ⟨.optional, .bool true, none⟩

def skip : Decision := ⟨.optional, .bool false, none⟩

/-- Repeats a number of times, at the next repetition or at the given site. -/
def repeats (count : Datum) (site : Option Datum := none) : Decision := ⟨.repetition, count, site⟩

/-- Chooses a code point, given by its number or as a text of one character. -/
def codepoint (value : Datum) : Except Fault Decision :=
  match value with
  | .str s =>
    match value.codepoint? with
    | some c => .ok ⟨.codepoint, .int c, none⟩
    | none => .error (.codepointNotSingle s)
  | _ => .ok ⟨.codepoint, value, none⟩

/-- The decision in words.  Not every value can be printed, nor every one as a code point. -/
def label (d : Decision) : Except Fault String := do
  match d.kind, d.site with
  | .codepoint, _ => return s!"codepoint({← d.value.codepointLabel})"
  | kind, some site => return s!"{kind.name}({← d.value.text}, on={← site.text})"
  | kind, none => return s!"{kind.name}({← d.value.text})"

def equal (a b : Decision) : Bool :=
  a.kind == b.kind && a.value.same b.value &&
    match a.site, b.site with
    | none, none => true
    | some x, some y => x.same y
    | _, _ => false

end Decision

end SentenceGen
