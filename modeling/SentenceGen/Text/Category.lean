/-!
# General categories

Every code point has exactly one general category.  A table of them is a list of runs: consecutive
stretches of code points, from zero on, that share a category.  Written down, a run is the two
letters of its category followed by its length, which is left out when it is one.
-/

namespace SentenceGen.Text

inductive Category where
  | Lu | Ll | Lt | Lm | Lo
  | Mn | Mc | Me
  | Nd | Nl | No
  | Pc | Pd | Ps | Pe | Pi | Pf | Po
  | Sm | Sc | Sk | So
  | Zs | Zl | Zp
  | Cc | Cf | Cs | Co | Cn
  deriving DecidableEq, Repr

namespace Category

def all : List Category :=
  [.Lu, .Ll, .Lt, .Lm, .Lo, .Mn, .Mc, .Me, .Nd, .Nl, .No, .Pc, .Pd, .Ps, .Pe, .Pi, .Pf, .Po,
    .Sm, .Sc, .Sk, .So, .Zs, .Zl, .Zp, .Cc, .Cf, .Cs, .Co, .Cn]

def letters : Category → Char × Char
  | .Lu => ('L', 'u') | .Ll => ('L', 'l') | .Lt => ('L', 't') | .Lm => ('L', 'm')
  | .Lo => ('L', 'o') | .Mn => ('M', 'n') | .Mc => ('M', 'c') | .Me => ('M', 'e')
  | .Nd => ('N', 'd') | .Nl => ('N', 'l') | .No => ('N', 'o') | .Pc => ('P', 'c')
  | .Pd => ('P', 'd') | .Ps => ('P', 's') | .Pe => ('P', 'e') | .Pi => ('P', 'i')
  | .Pf => ('P', 'f') | .Po => ('P', 'o') | .Sm => ('S', 'm') | .Sc => ('S', 'c')
  | .Sk => ('S', 'k') | .So => ('S', 'o') | .Zs => ('Z', 's') | .Zl => ('Z', 'l')
  | .Zp => ('Z', 'p') | .Cc => ('C', 'c') | .Cf => ('C', 'f') | .Cs => ('C', 's')
  | .Co => ('C', 'o') | .Cn => ('C', 'n')

def ofLetters? (first second : Char) : Option Category :=
  all.find? (fun c => c.letters = (first, second))

def name (c : Category) : String := String.ofList [c.letters.1, c.letters.2]

def ofName? (name : String) : Option Category :=
  match name.toList with
  | [first, second] => ofLetters? first second
  | _ => none

end Category

/-- A stretch of code points that share a category. -/
structure Run where
  category : Category
  length : Nat
  deriving DecidableEq, Repr

namespace Run

def ofChars? : List Char → Option Run
  | first :: second :: digits =>
    (Category.ofLetters? first second).map fun category =>
      ⟨category, if digits.isEmpty then 1
        else digits.foldl (fun n c => n * 10 + (c.toNat - '0'.toNat)) 0⟩
  | _ => none

/-- The category at `position`, counted from the first code point of the runs. -/
def categoryAt : List Run → Nat → Category
  | [], _ => .Cn
  | run :: rest, position =>
    if position < run.length then run.category else categoryAt rest (position - run.length)

/-- The code points of a category in ascending order; the first run starts at `start`. -/
def members (category : Category) : List Run → Nat → List Nat
  | [], _ => []
  | run :: rest, start =>
    if run.category = category then
      List.range' start run.length ++ members category rest (start + run.length)
    else members category rest (start + run.length)

end Run

end SentenceGen.Text
