import SentenceGen.Decimal.Shortest
import SentenceGen.Fault
import SentenceGen.Text.Quoted

/-!
# Printing plain data

A datum is shown with its texts quoted; on its own a text is spelled bare.  An integer, alone or
inside a collection, can have too many digits to be printed.
-/

namespace SentenceGen.Datum

/-- The decimal digits of an integer, with its sign. -/
def numeral (n : Int) : Except Fault String :=
  if (Nat.toDigits 10 n.natAbs).length ≤ maximumDigits then .ok (toString n)
  else .error (.tooManyDigits none)

mutual

/-- The datum with its texts in quotes. -/
def shown : Datum → Except Fault String
  | .null => .ok "None"
  | .bool b => .ok (if b then "True" else "False")
  | .int n => numeral n
  | .float x => .ok (Decimal.textOf x)
  | .str s => .ok (Text.quoted s)
  | .list items => do return "[" ++ ", ".intercalate (← shownItems items) ++ "]"
  | .map entries => do return "\x7b" ++ ", ".intercalate (← shownEntries entries) ++ "\x7d"

def shownItems : List Datum → Except Fault (List String)
  | [] => .ok []
  | item :: rest => do return (← shown item) :: (← shownItems rest)

def shownEntries : List (Datum × Datum) → Except Fault (List String)
  | [] => .ok []
  | (key, value) :: rest => do
    return ((← shown key) ++ ": " ++ (← shown value)) :: (← shownEntries rest)

end

/-- The datum as it stands in a sentence: a text is left bare. -/
def text : Datum → Except Fault String
  | .str s => .ok s
  | d => d.shown

@[simp] theorem text_str (s : String) : text (.str s) = .ok s := rfl

@[simp] theorem text_int (n : Int) : text (.int n) = numeral n := by simp [text, shown]

end SentenceGen.Datum
