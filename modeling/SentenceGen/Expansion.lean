import SentenceGen.Config
import SentenceGen.Grammar
import SentenceGen.Replacement
import SentenceGen.Replacement.Program

/-!
# Expanding rules

The engine turns rules into nodes and text.  Its state outlives a fault: what was built stays built,
and what was counted on the way in is taken back on the way out, so a replacement may go on after a
request of its own has failed.
-/

namespace SentenceGen

/-- The largest count that a setting admits. -/
structure Cutoff where
  /-- The setting as it was given. -/
  given : Datum
  bound : Nat

namespace Cutoff

/-- A number that is no integer admits what lies below it; null and numbers without an end admit
everything. -/
def ofDatum? (d : Datum) : Option Cutoff :=
  (d.magnitude?.bind Decimal.Magnitude.floor?).map fun n => ⟨d, n.toNat⟩

def admits (c : Cutoff) (n : Nat) : Bool := n ≤ c.bound

end Cutoff

/-- What a generation works from. -/
structure Plan (κ : Type) where
  grammar : Grammar
  replacements : Replacements (Callback κ) := {}
  /-- The class of every character set of the grammar. -/
  classes : List (CharacterSet × CharacterClass) := []
  maxDepth : Option Cutoff := none
  maxSize : Option Cutoff := none

/-- The state of one generation. -/
structure Expansion (σ κ : Type) where
  /-- The number of the call that it belongs to. -/
  call : Nat
  tree : Tree := {}
  /-- The text so far, in pieces. -/
  chunks : Array String := #[]
  /-- The length of the text. -/
  size : Nat := 0
  /-- The number of rules being expanded, each inside the one before. -/
  depth : Nat := 0
  /-- The number of repetitions met. -/
  sites : Nat := 0
  /-- The productions being expanded, innermost first. -/
  productions : List String := []
  /-- The contexts whose replacement is running, innermost first. -/
  live : List Context := []
  source : σ
  /-- Data of the replacements. -/
  user : κ

namespace Expansion

def text {σ κ : Type} (s : Expansion σ κ) : String := String.join s.chunks.toList

end Expansion

/-- A step of a generation.  A fault keeps the state. -/
abbrev Expand (σ κ α : Type) : Type := ExceptT Fault (StateM (Expansion σ κ)) α

namespace Expand

variable {σ κ α : Type}

/-- Changes the state on the way out, after a fault too. -/
def leaving (exit : Expansion σ κ → Expansion σ κ) (action : Expand σ κ α) : Expand σ κ α :=
  ExceptT.mk do
    let result ← action.run
    modify exit
    return result

def ask [DecisionSource σ] (question : Question) : Expand σ κ Datum :=
  ExceptT.mk (modifyGet fun s =>
    let (answer, source) := DecisionSource.ask question s.source
    (answer, { s with source }))

def addNode (node : Node) : Expand σ κ NodeId :=
  ExceptT.mk (modifyGet fun s =>
    let (result, tree) := s.tree.add node
    (result, { s with tree }))

/-- Appends text to the output.  Text that crosses the cutoff is a fault, and stays appended. -/
def append (plan : Plan κ) (text : String) : Expand σ κ Unit := do
  modify fun s => { s with chunks := s.chunks.push text, size := s.size + text.length }
  let s ← get
  match plan.maxSize with
  | some cutoff => unless cutoff.admits s.size do throw (.tooLarge cutoff.given (.int s.size))
  | none => pure ()

/-- Records text as a leaf and appends it, unless it is empty. -/
def emit (plan : Plan κ) (text : String) (parent : Option NodeId) : Expand σ κ Unit := do
  let _ ← addNode { kind := .literal, parent, text }
  unless text = "" do append plan text

def branchOf (items : List Rule) (answer : Datum) : Except Fault (Nat × Rule) :=
  match answer.properInt? with
  | some (.ofNat index) =>
    match items[index]? with
    | some item => .ok (index, item)
    | none => .error (Fault.alternativeOutOfRange answer items.length).told
  | _ => .error (Fault.alternativeOutOfRange answer items.length).told

def countOf (bounds : Bounds) (site : RepetitionSite) (answer : Datum) : Except Fault Int :=
  match answer.properInt?.filter bounds.admits with
  | some count => .ok count
  | none => .error (Fault.repetitionOutOfRange answer bounds.minimum bounds.maximum site.index).told

def memberOf (c : CharacterClass) (className : String) (answer : Datum) : Except Fault Nat :=
  match answer.properInt?.filter c.hasInt with
  | some n => .ok n.toNat
  | none => .error (Fault.notInClass answer className).told

def classOf (plan : Plan κ) (set : CharacterSet) : Except Fault CharacterClass :=
  match plan.classes.lookup set with
  | some c => .ok c
  | none => .error (.missingKey (.str set.name))

def nextSite : Expand σ κ RepetitionSite :=
  ExceptT.mk (modifyGet fun s =>
    (.ok { index := .int s.sites, production := s.productions.head? },
      { s with sites := s.sites + 1 }))

/-- The number of the call. -/
def ownCall : Expand σ κ Nat := do return (← get).call

def times : Nat → Expand σ κ Unit → Expand σ κ Unit
  | 0, _ => pure ()
  | n + 1, action => do
    action
    times n action

/-- Refuses a context whose replacement is over. -/
def requireOpen (target : Context) : Expand σ κ Unit := do
  unless (← get).live.contains target do throw (.contextClosed target.name)

def writeTo (plan : Plan κ) (target : Context) (text : Datum) : Expand σ κ Unit := do
  requireOpen target
  match text with
  | .str text => emit plan text (some target.node)
  | _ => throw (.writeNotText text.kind)

section

variable [DecisionSource σ] (plan : Plan κ) (expand : Rule → Option NodeId → Expand σ κ Unit)

def expandIn (target : Context) : Expand σ κ Unit := do
  requireOpen target
  expand (← plan.grammar.production target.name) (some target.node)

/-- Runs a replacement program, serving its requests. -/
def perform : Program κ α → StateM (Expansion σ κ) α
  | .done result => pure result
  | .write target text next => do
    let result ← (writeTo plan target text).run
    perform (next result)
  | .expand target next => do
    let result ← (expandIn plan expand target).run
    perform (next result)
  | .ask question next => do
    let answer ← (ask question).run
    perform (next answer)
  | .look next => do
    let s ← get
    perform (next ⟨s.tree, s.user⟩)
  | .store user next => do
    modify fun s => { s with user }
    perform next

/-- Calls a replacement; its context is open until it is over. -/
def replace (callback : Callback κ) (target : Context) : Expand σ κ Unit := do
  modify fun s => { s with live := target :: s.live }
  leaving (fun s => { s with live := s.live.erase target })
    (ExceptT.mk (perform plan expand (callback target).run))

/-- Expands one rule, `expand` being the expansion of the rules inside it. -/
def step (rule : Rule) (parent : Option NodeId) : Expand σ κ Unit :=
  match rule with
  | .literal text => emit plan text parent
  | .sequence items => do
    let node ← addNode { kind := .sequence, parent }
    items.forM fun item => expand item (some node)
  | .alternative items => do
    let answer ← ask (.alternative (.int items.length))
    let (index, item) ← branchOf items answer
    let node ← addNode { kind := .alternative, parent, value := .int index }
    expand item (some node)
  | .optional item => do
    let answer ← ask .optional
    let node ← addNode { kind := .optional, parent, value := .bool answer.truthy }
    if answer.truthy then expand item (some node)
  | .repetition item bounds => do
    let site ← nextSite
    let answer ← ask (.repetition bounds site)
    let count ← countOf bounds site answer
    let node ← addNode { kind := .repetition, parent, value := .int count }
    times count.toNat (expand item (some node))
  | .nonTerminal name => do
    let body ← plan.grammar.production name
    let node ← addNode { kind := .nonTerminal, parent, name := some name }
    modify fun s => { s with productions := name :: s.productions }
    leaving (fun s => { s with productions := s.productions.tail }) <|
      match plan.replacements.find? name with
      | none => expand body (some node)
      | some callback => do replace plan expand callback ⟨← ownCall, node, name⟩
  | .characters set => do
    let members ← classOf plan set
    let answer ← ask (.codepoint (.ofClass members))
    let codepoint ← memberOf members set.name answer
    let text := (Char.ofNat codepoint).toString
    let _ ← addNode
      { kind := .character, parent, name := some set.name, text, value := .int codepoint }
    append plan text
  | .stray value => throw (.unknownRule value.kind)

/-- Counts one level of nesting around an action; a level that crosses the cutoff is a fault. -/
def nested (action : Expand σ κ Unit) : Expand σ κ Unit := do
  modify fun s => { s with depth := s.depth + 1 }
  leaving (fun s => { s with depth := s.depth - 1 }) do
    let s ← get
    match plan.maxDepth with
    | some cutoff =>
      unless cutoff.admits s.depth do
        throw (.tooDeep cutoff.given (s.productions.head?.elim .null .str))
    | none => pure ()
    action

end

/-- Expands a rule under a parent, at most `fuel` rules deep. -/
def expand [DecisionSource σ] (plan : Plan κ) :
    Nat → Rule → Option NodeId → Expand σ κ Unit
  | 0, _, _ => throw .nestingExhausted
  | fuel + 1, rule, parent => nested plan (step plan (expand plan fuel) rule parent)

end Expand

end SentenceGen
