import SentenceGen.Fault
import SentenceGen.Text.Blank
import SentenceGen.Text.CategoryTable

/-!
# Environment variables

Numbers that settings fall back to.  A number may be surrounded by white space (separator controls
excepted), carry one sign, use the decimal digits of any script and single underscores between
digits.
-/

namespace SentenceGen

abbrev Environment := List (String × String)

namespace Environment

def fallbacks : List String :=
  ["GRAMMARGEN_SEED", "GRAMMARGEN_MAX_DEPTH", "GRAMMARGEN_MAX_OUTPUT_SIZE"]

/-- Reads digits, most significant first, with single underscores between them. -/
def digits? : List Char → Option (List Nat)
  | [] => none
  | [c] => (Text.digitValue? c.toNat).map ([·])
  | c :: '_' :: rest => do return (← Text.digitValue? c.toNat) :: (← digits? rest)
  | c :: rest => do return (← Text.digitValue? c.toNat) :: (← digits? rest)

def natural? (s : List Char) : Option Nat := do
  let digits ← digits? s
  guard (digits.length ≤ maximumDigits)
  return digits.foldl (fun n d => n * 10 + d) 0

def integer? (s : String) : Option Int :=
  match Text.trimMargins s.toList with
  | '-' :: rest => (natural? rest).map fun n => -(n : Int)
  | '+' :: rest => (natural? rest).map Int.ofNat
  | rest => (natural? rest).map Int.ofNat

/-- The integer in a variable; null if the variable is unset or blank. -/
def integer (env : Environment) (name : String) : Except Fault Datum :=
  match env.lookup name with
  | none => .ok .null
  | some value =>
    if value.toList.all Text.isBlank then .ok .null
    else
      match integer? value with
      | some n => .ok (.int n)
      | none => .error (.environmentNotInteger name value)

end Environment

end SentenceGen
