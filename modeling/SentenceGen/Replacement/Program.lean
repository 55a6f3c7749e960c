import SentenceGen.Decision.Source
import SentenceGen.Tree.Render

/-!
# Replacement programs

A replacement takes the place of the default expansion of a production.  It is a program over a
few requests: write text, expand the production's own rule, ask the decision source, look at the
tree, keep data of its own.  A program makes finitely many requests on every path.  A request that
fails reports its fault to the program, which may go on.
-/

namespace SentenceGen

/-- What a replacement is called with: the non-terminal that it stands for. -/
structure Context where
  /-- The number of the generator's call.  No two calls have the same. -/
  call : Nat
  node : NodeId
  name : String
  deriving DecidableEq, Repr

/-- What a program sees when it looks: the tree as it stands and the caller's own data. -/
structure View (κ : Type) where
  tree : Tree
  user : κ

/-- A program that yields an `α`; its own data are a `κ`. -/
inductive Program (κ α : Type) : Type where
  | done (result : α)
  /-- Writes a value, which should be a text, as output of the context's non-terminal. -/
  | write (target : Context) (text : Datum) (next : Except Fault Unit → Program κ α)
  /-- Expands the context's production by its own rule. -/
  | expand (target : Context) (next : Except Fault Unit → Program κ α)
  | ask (question : Question) (next : Except Fault Datum → Program κ α)
  | look (next : View κ → Program κ α)
  | store (user : κ) (next : Program κ α)

namespace Program

variable {κ α β γ : Type}

def bind : Program κ α → (α → Program κ β) → Program κ β
  | .done a, f => f a
  | .write target text next, f => .write target text fun r => (next r).bind f
  | .expand target next, f => .expand target fun r => (next r).bind f
  | .ask question next, f => .ask question fun r => (next r).bind f
  | .look next, f => .look fun v => (next v).bind f
  | .store user next, f => .store user (next.bind f)

instance : Monad (Program κ) where
  pure := .done
  bind := bind

@[simp] theorem bind_eq (p : Program κ α) (f : α → Program κ β) : p >>= f = p.bind f := rfl

theorem bind_done (p : Program κ α) : p.bind .done = p := by
  induction p with
  | done => rfl
  | write _ _ _ ih | expand _ _ ih | ask _ _ ih | look _ ih => simp [bind, ih]
  | store _ _ ih => simp [bind, ih]

theorem bind_assoc (p : Program κ α) (f : α → Program κ β) (g : β → Program κ γ) :
    (p.bind f).bind g = p.bind fun a => (f a).bind g := by
  induction p with
  | done => rfl
  | write _ _ _ ih | expand _ _ ih | ask _ _ ih | look _ ih => simp [bind, ih]
  | store _ _ ih => simp [bind, ih]

instance : LawfulMonad (Program κ) :=
  LawfulMonad.mk' _ bind_done (fun _ _ => rfl) bind_assoc

end Program

/-- A program that may stop with a fault. -/
abbrev Action (κ α : Type) : Type := ExceptT Fault (Program κ) α

/-- What a production may be bound to. -/
abbrev Callback (κ : Type) : Type := Context → Action κ Unit

namespace Action

variable {κ α : Type}

def write (target : Context) (text : Datum) : Action κ Unit :=
  ExceptT.mk (.write target text .done)

/-- Expands the production's own rule, as if it had no replacement. -/
def expandDefault (target : Context) : Action κ Unit := ExceptT.mk (.expand target .done)

def ask (question : Question) : Action κ Datum := ExceptT.mk (.ask question .done)

def look : Action κ (View κ) := ExceptT.mk (.look fun v => .done (.ok v))

def store (user : κ) : Action κ Unit := ExceptT.mk (.store user (.done (.ok ())))

def isSurrogate (codepoint : Datum) : Except Fault Bool := do
  if ← (Datum.int 0xD800).atMost codepoint then codepoint.atMost (.int 0xDFFF) else return false

def characterOf (codepoint : Datum) : Except Fault String :=
  match codepoint.int? with
  | none => .error (.notInteger codepoint.kind)
  | some n =>
    if n < -0x80000000 ∨ 0x80000000 ≤ n then .error .codepointOverflow
    else if n < 0 ∨ 0x10FFFF < n then .error .codepointOutOfRange
    else .ok (Char.ofNat n.toNat).toString

/-- Writes one code point; surrogates are no output. -/
def writeCodepoint (target : Context) (codepoint : Datum) : Action κ Unit := do
  if ← isSurrogate codepoint then throw (.surrogateWritten (← codepoint.codepointLabel))
  write target (.str (← characterOf codepoint))

end Action

end SentenceGen
