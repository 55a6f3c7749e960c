import SentenceGen.CharacterClass.Registry
import SentenceGen.Logging.Record

/-!
# Grammars

A grammar is a table of named productions with a start.  It is made by a builder, which collects
productions in any order and checks, when it builds, that every name in them resolves.
-/

namespace SentenceGen

/-- Productions in the order of definition, with the classes that their character sets name. -/
structure Grammar where
  name : String
  start : String
  productions : List (String × Rule)
  registry : Registry

namespace Grammar

def body? (g : Grammar) (name : String) : Option Rule := g.productions.lookup name

def production (g : Grammar) (name : String) : Except Fault Rule :=
  match g.body? name with
  | some body => .ok body
  | none => .error (.undefinedProduction (.str name) .null)

def defines (g : Grammar) (name : String) : Bool := (g.body? name).isSome

/-- The body of the production under a key, which should be a text. -/
def productionAt (g : Grammar) (key : Datum) : Except Fault Rule := do
  match ← key.name? with
  | some name => g.production name
  | none => throw (.undefinedProduction key .null)

def size (g : Grammar) : Nat := g.productions.length

def shown (g : Grammar) : String :=
  s!"Grammar(name={Text.quoted g.name}, start={Text.quoted g.start}, productions={g.size})"

def builtRecord (g : Grammar) : Logging.Record :=
  { level := Logging.debug
    logger := "grammargen.grammar.model"
    message := s!"Built grammar '{g.name}' with {g.size} productions" }

end Grammar

/-- The rules given to each production so far. -/
structure Builder where
  start : String
  name : String
  registry : Registry
  pending : List (String × List Rule) := []

namespace Builder

/-- A builder without productions; the name defaults to the start. -/
def new (start : String) (name : Option String) (registry : Registry) : Builder :=
  let name := match name with
    | none | some "" => start
    | some name => name
  { start, name, registry }

def rulesOf? (b : Builder) (name : String) : Option (List Rule) := b.pending.lookup name

def defines (b : Builder) (name : String) : Bool := (b.rulesOf? name).isSome

def append (name : String) (rules : List Rule) :
    List (String × List Rule) → List (String × List Rule)
  | [] => [(name, rules)]
  | entry :: rest =>
    if name == entry.1 then (entry.1, entry.2 ++ rules) :: rest
    else entry :: append name rules rest

/-- Gives a production more rules, which are alternatives to those that it has. -/
def production (b : Builder) (name : String) (rules : List Rule) : Except Fault Builder :=
  if rules.isEmpty then .error (.productionWithoutRules name)
  else
    match rules.findSome? Rule.stray? with
    | some value => .error (.productionNotRule name value.kind)
    | none => .ok { b with pending := append name rules b.pending }

/-- Copies productions one after the other, up to the first one whose name is taken. -/
def copy : List (String × Rule) → Builder → Except Fault Unit × Builder
  | [], b => (.ok (), b)
  | (name, body) :: rest, b =>
    if b.defines name then (.error (.duplicateProduction (.str name)), b)
    else copy rest { b with pending := b.pending ++ [(name, [body])] }

def includeGrammar (b : Builder) (g : Grammar) : Except Fault Unit × Builder := copy g.productions b

/-- The body that a list of rules makes: one rule alone is the body, several are alternatives. -/
def bodyOf : List Rule → Rule
  | [rule] => rule
  | rules => .alternative rules

def bodies (b : Builder) : List (String × Rule) :=
  b.pending.map fun entry => (entry.1, bodyOf entry.2)

/-- Whether the names in one rule resolve; `production` is where the rule stands. -/
def checkRule (b : Builder) (production : String) : Rule → Except Fault Unit
  | .nonTerminal name =>
    if b.defines name then .ok ()
    else .error (.undefinedProduction (.str name) (.str production))
  | .characters set => do
    let members ← b.registry.ofSet set
    if members.isEmpty then .error (.emptyCharacterSet set.name production) else .ok ()
  | _ => .ok ()

/-- Checks all rules and freezes them into a grammar. -/
def build (b : Builder) : Except Fault Grammar := do
  if b.defines b.start then
    b.bodies.forM fun entry => entry.2.walk.forM (b.checkRule entry.1)
    return { name := b.name, start := b.start, productions := b.bodies, registry := b.registry }
  else .error (.undefinedProduction (.str b.start) (.str "<start>"))

end Builder

end SentenceGen
