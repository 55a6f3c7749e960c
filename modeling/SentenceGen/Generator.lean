import SentenceGen.Expansion
import SentenceGen.Decision.Random
import SentenceGen.Logging.Operation
import SentenceGen.Sink

/-!
# Generators

A generator holds a grammar, its replacements and its settings, and never changes.  Each run has its
own source, tree and text.  A sink receives the whole text in one piece, and only if the derivation
succeeded.
-/

namespace SentenceGen

structure Generator (κ : Type) where
  grammar : Grammar
  replacements : Replacements (Callback κ)
  config : Config
  classes : List (CharacterSet × CharacterClass)

/-- A call of a generator. -/
structure Call where
  /-- The nesting of rules that it admits when no cutoff is set. -/
  ceiling : Nat := 450
  /-- The number of the call, which tells its contexts from those of other calls. -/
  serial : Nat

namespace Call

/-- A first call, with room for so many rules inside each other. -/
def first (ceiling : Nat) : Call := { ceiling, serial := 0 }

/-- The state that a call begins in. -/
def begin {σ κ : Type} (call : Call) (source : σ) (user : κ) : Expansion σ κ :=
  { call := call.serial, source, user }

section

variable {σ κ : Type} (call : Call) (source : σ) (user : κ)

@[simp] theorem call_begin : (call.begin source user).call = call.serial := rfl

@[simp] theorem tree_begin : (call.begin source user).tree = {} := rfl

@[simp] theorem size_begin : (call.begin source user).size = 0 := rfl

@[simp] theorem productions_begin : (call.begin source user).productions = [] := rfl

@[simp] theorem live_begin : (call.begin source user).live = [] := rfl

@[simp] theorem source_begin : (call.begin source user).source = source := rfl

@[simp] theorem user_begin : (call.begin source user).user = user := rfl

end

end Call

/-- The outcome of a run, with the state that it ended in and what it logged. -/
structure Run (σ κ : Type) where
  outcome : Except Fault Unit
  final : Expansion σ κ
  log : List Logging.Record := []

namespace Generator

variable {κ σ τ : Type}

/-- The classes of the character sets in a list of rules, each set once. -/
def resolveSets (registry : Registry) :
    List Rule → List (CharacterSet × CharacterClass) →
      Except Fault (List (CharacterSet × CharacterClass))
  | [], classes => .ok classes
  | .characters set :: rest, classes =>
    if (classes.lookup set).isSome then resolveSets registry rest classes
    else do resolveSets registry rest (classes ++ [(set, ← registry.ofSet set)])
  | _ :: rest, classes => resolveSets registry rest classes

def rulesOf (g : Grammar) : List Rule := g.productions.flatMap fun entry => entry.2.walk

/-- A generator with the given bindings; the default callback counts as the last of them. -/
def new (grammar : Grammar) (bindings : List (Datum ⊕ Binding (Callback κ)))
    (default : Option (Callback κ)) (config : Config) : Except Fault (Generator κ) := do
  let all := bindings ++ default.toList.map fun callback => .inr (.default callback)
  let replacements ← Replacements.ofBindings grammar.defines all
  let classes ← resolveSets grammar.registry (rulesOf grammar) []
  return { grammar, replacements, config, classes }

def readyRecord (g : Generator κ) : Logging.Record :=
  { level := Logging.debug
    logger := "grammargen.generator.generator"
    message := s!"Generator ready for '{g.grammar.name}' " ++
      s!"({g.grammar.size} productions, {g.replacements.size} replacements)" }

def shown (g : Generator κ) : String :=
  s!"Generator(grammar={Text.quoted g.grammar.name}, replacements={g.replacements.size})"

def plan (g : Generator κ) : Plan κ :=
  { grammar := g.grammar
    replacements := g.replacements
    classes := g.classes
    maxDepth := Cutoff.ofDatum? g.config.limits.maxDepth
    maxSize := Cutoff.ofDatum? g.config.limits.maxOutputSize }

def startOf (g : Generator κ) (start : Option String) : Except Fault String :=
  let start := match start with
    | none | some "" => g.grammar.start
    | some name => name
  if g.grammar.defines start then .ok start
  else .error (.undefinedProduction (.str start) (.str "<start>"))

def freshSource (sowing : Datum → Nat) (g : Generator κ) :
    Except Fault (RandomSource Random.Twister) :=
  RandomSource.ofSettings sowing g.config.decisions

/-- What a call raises for a fault of its expansion.  Exhausted nesting counts as too deep, whoever
ran into it. -/
def surfaced (start : String) (fault : Fault) : Fault :=
  if fault.kind = .recursion then .tooDeep .null (.str start) else fault

/-- Derives a sentence from a production. -/
def derive [DecisionSource σ] (g : Generator κ) (call : Call) (start : String) (source : σ)
    (user : κ) : Except Fault Unit × Expansion σ κ :=
  let (outcome, final) :=
    (Expand.expand g.plan call.ceiling (.nonTerminal start) none).run.run (call.begin source user)
  match outcome with
  | .ok () => (.ok (), { final with tree := final.tree.freeze })
  | .error fault => (.error (surfaced start fault), final)

def operation (g : Generator κ) (start sourceName : String) : Logging.Operation :=
  { logger := "grammargen.generator.generator"
    name := "Generating"
    level := Logging.debug
    details := [("grammar", g.grammar.name), ("start", start), ("decisions", sourceName)] }

def sizeRecord (final : Expansion σ κ) : Logging.Record :=
  { level := Logging.debug
    logger := "grammargen.generator.generator"
    message := s!"Generated {final.size} code points, {final.tree.size} nodes" }

/-- Runs the generator from a production, the grammar's start if none is given. -/
def runWithin [DecisionSource σ] (g : Generator κ) (call : Call) (start : Option String)
    (source : σ) (user : κ) : Run σ κ :=
  match g.startOf start with
  | .error fault => { outcome := .error fault, final := call.begin source user }
  | .ok start =>
    let operation := g.operation start (DecisionSource.name source)
    let (outcome, final) := g.derive call start source user
    let closing := match outcome with
      | .ok () => [sizeRecord final]
      | .error _ => []
    { outcome, final, log := operation.opening ++ operation.ending 0 outcome ++ closing }

/-- Runs the generator with its own random source, which is made once the start is known to exist.
-/
def runFresh (sowing : Datum → Nat) (g : Generator κ) (call : Call) (start : Option String)
    (user : κ) : Except Fault (Run (RandomSource Random.Twister) κ) := do
  let _ ← g.startOf start
  return g.runWithin call start (← g.freshSource sowing) user

end Generator

namespace Run

variable {σ κ τ : Type}

def text (r : Run σ κ) : Except Fault String := r.outcome.map fun _ => r.final.text

/-- The derivation tree of a successful run; its root is the first node. -/
def tree (r : Run σ κ) : Except Fault Tree := r.outcome.map fun _ => r.final.tree

/-- Hands the text of a successful run to a sink and tells its length. -/
def deliver (r : Run σ κ) (sink : Sink τ) (state : τ) : Except Fault Nat × τ :=
  match r.outcome with
  | .error fault => (.error fault, state)
  | .ok () =>
    let (accepted, state) := sink r.final.text state
    (accepted.map fun _ => r.final.size, state)

end Run

end SentenceGen
