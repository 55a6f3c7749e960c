import SentenceGen.Decision.Source

/-!
# Scripts

A script answers from a list of decisions.  Entries without a site are used in order, each by a
question of its own kind; an entry with a site is kept for the repetition of that number.
-/

namespace SentenceGen

structure Script where
  /-- The entries still to be used in order. -/
  queue : List Decision := []
  /-- The entries kept for a site. -/
  reserved : List (Datum × Decision) := []
  /-- The number of entries used. -/
  consumed : Nat := 0

namespace Script

/-- Adds an entry; what is reserved must be a repetition, and no site is reserved twice. -/
def add (s : Script) (d : Decision) : Except Fault Script :=
  match d.site with
  | none => .ok { s with queue := s.queue ++ [d] }
  | some site =>
    if d.kind ≠ .repetition then do throw (.keyedNotRepetition (← d.label))
    else do
      site.requireHashable
      if s.reserved.any (·.1.same site) then throw (Fault.siteScriptedTwice site).told
      return { s with reserved := s.reserved ++ [(site, d)] }

def addAll : List (Datum ⊕ Decision) → Script → Except Fault Script
  | [], s => .ok s
  | .inl stray :: _, _ => .error (.notDecision stray.kind)
  | .inr d :: rest, s => do addAll rest (← s.add d)

/-- The script of the given entries, in the order of the questions. -/
def ofEntries (entries : List (Datum ⊕ Decision)) : Except Fault Script := addAll entries {}

def ofDecisions (decisions : List Decision) : Except Fault Script :=
  ofEntries (decisions.map .inr)

def remaining (s : Script) : Nat := s.queue.length + s.reserved.length

/-- Uses the first entry if it is of the given kind. -/
def next (kind : DecisionKind) (s : Script) : Except Fault Decision × Script :=
  match s.queue with
  | [] => (.error (.scriptExhausted (.str kind.name) (.int s.consumed)), s)
  | d :: rest =>
    if d.kind = kind then (.ok d, { s with queue := rest, consumed := s.consumed + 1 })
    else
      match d.label with
      | .ok label =>
        (.error (.scriptMismatch (.str kind.name) (.str label) (.int s.consumed)), s)
      | .error fault => (.error fault, s)

/-- Uses the entry reserved for a site, if there is one. -/
def takeReserved (site : Datum) (s : Script) : Except Fault (Option (Decision × Script)) := do
  unless s.reserved.isEmpty do site.requireHashable
  match s.reserved.find? (·.1.same site) with
  | some (_, d) =>
    return some (d, { s with
      reserved := s.reserved.eraseP (·.1.same site), consumed := s.consumed + 1 })
  | none => return none

/-- A code point on offer; the fault names what was scripted instead. -/
def offered (candidates : Candidates) (d : Decision) : Except Fault Datum := do
  if ← candidates.contains d.value then return d.value
  else throw (.notOffered (← d.label) candidates.size)

def ask (q : Question) (s : Script) : Except Fault Datum × Script :=
  match q with
  | .repetition _ site =>
    match s.takeReserved site.index with
    | .error fault => (.error fault, s)
    | .ok (some (d, s)) => (.ok d.value, s)
    | .ok none =>
      let (answer, s) := s.next .repetition
      (answer.map Decision.value, s)
  | .alternative _ =>
    let (answer, s) := s.next .alternative
    (answer.map Decision.value, s)
  | .optional =>
    let (answer, s) := s.next .optional
    (answer.map fun d => .bool d.value.truthy, s)
  | .codepoint candidates =>
    let (answer, s) := s.next .codepoint
    (answer.bind (offered candidates), s)

instance : DecisionSource Script where
  name _ := "scripted"
  shown s := .ok s!"ScriptedDecisionSource(remaining={s.remaining})"
  ask := ask

end Script

end SentenceGen
