import SentenceGen.Fault
import SentenceGen.Text.Quoted

/-!
# Using plain data

Operations that only some data support.  Each refuses the others with the fault that says why.
-/

namespace SentenceGen.Datum

/-- The members of a collection: items of a list, characters of a text, keys of a map. -/
def members : Datum → Except Fault (List Datum)
  | .list items => .ok items
  | .str s => .ok (s.toList.map fun c => .str c.toString)
  | .map entries => .ok (entries.map (·.1))
  | d => .error (.notIterable d.kind)

def requireHashable (d : Datum) : Except Fault Unit :=
  if d.hashable then .ok () else .error (.unhashable d.kind)

/-- The name that a key is; a key that is no text is no name. -/
def name? (key : Datum) : Except Fault (Option String) := do
  key.requireHashable
  return key.str?

/-- Whether `a` is below `b`: numbers by value, texts by their code points. -/
def less (a b : Datum) : Except Fault Bool :=
  match a, b with
  | .str a, .str b => .ok (decide (a < b))
  | _, _ =>
    match a.magnitude?, b.magnitude? with
    | some x, some y => .ok (x.less y)
    | _, _ => .error (.notOrdered "<" a.kind b.kind)

def insertSorted (d : Datum) : List Datum → Except Fault (List Datum)
  | [] => .ok [d]
  | other :: rest => do
    if ← d.less other then return d :: other :: rest
    else return other :: (← insertSorted d rest)

/-- Puts data into ascending order; they must be comparable. -/
def sort (data : List Datum) : Except Fault (List Datum) := data.foldrM insertSorted []

def atMost (a b : Datum) : Except Fault Bool :=
  match a.magnitude?, b.magnitude? with
  | some x, some y => .ok (x.atMost y)
  | _, _ => .error (.notOrdered "<=" a.kind b.kind)

/-- The next datum in a count that started at this one. -/
def successor : Datum → Except Fault Datum
  | .float x => .ok (.float (x + 1.0))
  | .str _ => .error (.notJoinable "str")
  | .list _ => .error (.notIterable "int")
  | d =>
    match d.int? with
    | some n => .ok (.int (n + 1))
    | none => .error (.notAddable d.kind)

/-- The place that an index names in a container of the given size.  A negative index counts from
the end, and no index is read beyond sixty-four bits. -/
def position (container : String) (size : Nat) (index : Datum) : Except Fault Nat :=
  match index.int? with
  | none => .error (.notIndex container index.kind)
  | some n =>
    if n < -0x8000000000000000 ∨ 0x8000000000000000 ≤ n then .error .indexOverflow
    else
      let place := if n < 0 then n + size else n
      if 0 ≤ place ∧ place < size then .ok place.toNat else .error (.indexOutOfRange container)

/-- The code point of a text of one character. -/
def codepoint? : Datum → Option Nat
  | .str s =>
    match s.toList with
    | [c] => some c.toNat
    | _ => none
  | _ => none

/-- A code point as `U+0041`: capital digits, zeros between the sign and the digits up to four
places in all.  -/
def codepointLabel : Datum → Except Fault String
  | .float _ => .error (.noHexadecimal "float")
  | .str _ => .error (.noHexadecimal "str")
  | d =>
    match d.int? with
    | some n =>
      let sign := if n < 0 then "-" else ""
      let digits := Text.hexadecimal (4 - sign.length) n.natAbs
      .ok ("U+" ++ sign ++ (String.ofList digits).toUpper)
    | none => .error (.noFormat d.kind)

@[simp] theorem requireHashable_int (n : Int) : requireHashable (.int n) = .ok () := rfl

@[simp] theorem less_int (m n : Int) : less (.int m) (.int n) = .ok (decide (m < n)) := by
  simp [less]

@[simp] theorem successor_int (n : Int) : successor (.int n) = .ok (.int (n + 1)) := rfl

theorem codepointLabel_ok {d : Datum} (integral : d.int?.isSome) :
    ∃ label, codepointLabel d = .ok label := by
  cases d with
  | bool b => exact ⟨_, rfl⟩
  | int n => exact ⟨_, rfl⟩
  | _ => cases integral

end SentenceGen.Datum
