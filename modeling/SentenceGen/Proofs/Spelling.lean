import Mathlib.Algebra.Group.Nat.Defs
import SentenceGen.CharacterClass
import SentenceGen.Datum.Reader

/-!
# Unambiguous spelling

Quoted texts, numbers and code points can be read back whatever follows them.  A quoted text ends at
its first quote that is not escaped, and what is spelled without a sign ends where the sign comes.
-/

namespace SentenceGen.Text

open Datum

/-- Up to the first sign that stops them, two texts that start alike are the same. -/
theorem append_inj_of_stops {stops : Char → Prop} {l m x y : List Char} (left : ∀ c ∈ l, ¬ stops c)
    (right : ∀ c ∈ m, ¬ stops c) (stopped : ∃ c ∈ x.head?, stops c)
    (stoppedToo : ∃ c ∈ y.head?, stops c) (same : l ++ x = m ++ y) : l = m ∧ x = y := by
  induction l generalizing m with
  | nil =>
    cases m with
    | nil => exact ⟨rfl, same⟩
    | cons b m =>
      obtain rfl : x = b :: (m ++ y) := same
      obtain ⟨_, ⟨⟩, stop⟩ := stopped
      exact absurd stop (right b List.mem_cons_self)
  | cons a l ih =>
    rw [List.forall_mem_cons] at left
    cases m with
    | nil =>
      obtain rfl : a :: (l ++ x) = y := same
      obtain ⟨_, ⟨⟩, stop⟩ := stoppedToo
      exact absurd stop left.1
    | cons b m =>
      rw [List.forall_mem_cons] at right
      obtain ⟨rfl, rest⟩ := List.cons.inj same
      obtain ⟨rfl, further⟩ := ih left.2 right.2 rest
      exact ⟨rfl, further⟩

/-! ### Hexadecimal digits -/

theorem mem_toDigits {n : Nat} {c : Char} (member : c ∈ Nat.toDigits 16 n) :
    ∃ d < 16, c = Nat.digitChar d := by
  induction n using Nat.strongRecOn with
  | ind n ih =>
    rw [Nat.toDigits_eq_if (by decide)] at member
    by_cases small : n < 16
    · rw [if_pos small] at member
      exact ⟨n, small, List.mem_singleton.mp member⟩
    · rw [if_neg small] at member
      rcases List.mem_append.mp member with before | last
      · exact ih (n / 16) (by omega) before
      · exact ⟨n % 16, Nat.mod_lt n (by decide), List.mem_singleton.mp last⟩

theorem mem_hexadecimal {width n : Nat} {c : Char} (member : c ∈ hexadecimal width n) :
    ∃ d < 16, c = Nat.digitChar d := by
  rcases List.mem_append.mp member with zero | digit
  · exact ⟨0, by decide, List.eq_of_mem_replicate zero⟩
  · exact mem_toDigits digit

theorem length_hexadecimal {width n : Nat} (wide : 0 < width) (small : n < 16 ^ width) :
    (hexadecimal width n).length = width := by
  have short := (Nat.length_toDigits_le_iff (by decide) wide).mpr small
  rw [hexadecimal, List.length_append, List.length_replicate]
  omega

/-- The digits may be written in capitals. -/
def KeepsDigits (f : Char → Char) : Prop :=
  ∀ d < 16, Reader.hexadecimal [f (Nat.digitChar d)] = d

theorem keepsDigits_id : KeepsDigits id := by
  unfold KeepsDigits
  decide

theorem keepsDigits_toUpper : KeepsDigits Char.toUpper := by
  unfold KeepsDigits
  decide

theorem read_append_singleton (digits : List Char) (c : Char) :
    Reader.hexadecimal (digits ++ [c]) =
      Reader.hexadecimal digits * 16 + Reader.hexadecimal [c] := by
  simp [Reader.hexadecimal, List.foldl_append]

theorem read_toDigits {f : Char → Char} (keeps : KeepsDigits f) (n : Nat) :
    Reader.hexadecimal ((Nat.toDigits 16 n).map f) = n := by
  induction n using Nat.strongRecOn with
  | ind n ih =>
    rw [Nat.toDigits_eq_if (by decide)]
    by_cases small : n < 16
    · rw [if_pos small]
      exact keeps n small
    · rw [if_neg small, List.map_append, List.map_singleton, read_append_singleton,
        ih (n / 16) (by omega), keeps (n % 16) (Nat.mod_lt n (by decide))]
      exact Nat.div_add_mod' n 16

theorem read_zeros {c : Char} (zero : Reader.hexadecimal [c] = 0) (k : Nat) (digits : List Char) :
    Reader.hexadecimal (List.replicate k c ++ digits) = Reader.hexadecimal digits := by
  induction k with
  | zero => rfl
  | succ k ih =>
    rw [← ih, List.replicate_succ, List.cons_append]
    unfold Reader.hexadecimal at zero ⊢
    rw [List.foldl_cons, List.foldl_nil] at zero
    rw [List.foldl_cons, zero]

theorem read_hexadecimal {f : Char → Char} (keeps : KeepsDigits f) (width n : Nat) :
    Reader.hexadecimal ((hexadecimal width n).map f) = n := by
  have zero : Reader.hexadecimal [f '0'] = 0 := keeps 0 (by decide)
  rw [hexadecimal, List.map_append, List.map_replicate, read_zeros zero, read_toDigits keeps]

/-! ### Quoted text -/

/-- Reads one character, which may be escaped, and leaves the rest. -/
def readEscape : List Char → Option (Char × List Char)
  | '\\' :: 'n' :: rest => some ('\n', rest)
  | '\\' :: 'r' :: rest => some ('\r', rest)
  | '\\' :: 't' :: rest => some ('\t', rest)
  | '\\' :: 'x' :: rest => some (Char.ofNat (Reader.hexadecimal (rest.take 2)), rest.drop 2)
  | '\\' :: 'u' :: rest => some (Char.ofNat (Reader.hexadecimal (rest.take 4)), rest.drop 4)
  | '\\' :: 'U' :: rest => some (Char.ofNat (Reader.hexadecimal (rest.take 8)), rest.drop 8)
  | '\\' :: c :: rest => some (c, rest)
  | c :: rest => some (c, rest)
  | [] => none

theorem take_hexadecimal {width n : Nat} (wide : 0 < width) (small : n < 16 ^ width)
    (rest : List Char) :
    Reader.hexadecimal ((hexadecimal width n ++ rest).take width) = n ∧
      (hexadecimal width n ++ rest).drop width = rest := by
  have length := length_hexadecimal wide small
  have read := read_hexadecimal keepsDigits_id width n
  rw [List.map_id] at read
  rw [List.take_left' length, List.drop_left' length]
  exact ⟨read, rfl⟩

theorem readEscape_coded (c : Char) (rest : List Char) :
    readEscape (coded c ++ rest) = some (c, rest) := by
  have back : Char.ofNat c.toNat = c := Char.ofNat_toNat c
  unfold coded
  split
  next small =>
    obtain ⟨read, left⟩ := take_hexadecimal (by decide : 0 < 2) small rest
    simp [readEscape, read, left, back]
  next =>
    split
    next small =>
      obtain ⟨read, left⟩ := take_hexadecimal (by decide : 0 < 4) small rest
      simp [readEscape, read, left, back]
    next =>
      have small : c.toNat < 16 ^ 8 := Nat.lt_of_le_of_lt (isScalar_of_char c).1 (by decide)
      obtain ⟨read, left⟩ := take_hexadecimal (by decide : 0 < 8) small rest
      simp [readEscape, read, left, back]

def IsQuote (quote : Char) : Prop := quote = '\'' ∨ quote = '"'

theorem isQuote_quoteFor (text : List Char) : IsQuote (quoteFor text) := by
  unfold quoteFor
  split
  · exact .inr rfl
  · exact .inl rfl

theorem readEscape_of_ne {c : Char} (other : c ≠ '\\') (rest : List Char) :
    readEscape (c :: rest) = some (c, rest) := by
  unfold readEscape
  split <;> simp_all

/-- What is escaped is read back, whatever follows. -/
theorem readEscape_escape {quote : Char} (isQuote : IsQuote quote) (c : Char) (rest : List Char) :
    readEscape (escape quote c ++ rest) = some (c, rest) := by
  unfold escape
  by_cases special : c = quote ∨ c = '\\'
  · rw [if_pos special]
    rcases special with rfl | rfl
    · rcases isQuote with rfl | rfl <;> rfl
    · rfl
  rw [if_neg special]
  by_cases newline : c = '\n'
  · rw [if_pos newline, newline]
    rfl
  rw [if_neg newline]
  by_cases returned : c = '\r'
  · rw [if_pos returned, returned]
    rfl
  rw [if_neg returned]
  by_cases tab : c = '\t'
  · rw [if_pos tab, tab]
    rfl
  rw [if_neg tab]
  by_cases printable : isPrintable c.toNat = true
  · rw [if_pos printable]
    exact readEscape_of_ne (fun backslash => special (.inr backslash)) rest
  · rw [if_neg printable]
    exact readEscape_coded c rest

theorem escape_self (quote : Char) : escape quote quote = ['\\', quote] := by
  rw [escape, if_pos (.inl rfl)]

/-- A quote is escaped, so the first one that is not closes the text. -/
theorem escape_append_ne_quote {quote : Char} (isQuote : IsQuote quote) (c : Char)
    (rest x : List Char) : escape quote c ++ rest ≠ quote :: x := by
  intro same
  have other : quote ≠ '\\' := by
    rintro rfl
    rcases isQuote with quote | quote <;> cases quote
  have read := readEscape_escape isQuote c rest
  rw [same, readEscape_of_ne other] at read
  obtain rfl : quote = c := congrArg Prod.fst (Option.some.inj read)
  rw [escape_self] at same
  exact other (List.cons.inj same).1.symm

theorem flatMap_escape_inj {quote : Char} (isQuote : IsQuote quote) {s t x y : List Char}
    (same : s.flatMap (escape quote) ++ quote :: x = t.flatMap (escape quote) ++ quote :: y) :
    s = t ∧ x = y := by
  induction s generalizing t with
  | nil =>
    cases t with
    | nil => exact ⟨rfl, (List.cons.inj same).2⟩
    | cons d t =>
      rw [List.flatMap_cons, List.append_assoc] at same
      exact absurd same.symm (escape_append_ne_quote isQuote d _ x)
  | cons c s ih =>
    rw [List.flatMap_cons, List.append_assoc] at same
    cases t with
    | nil => exact absurd same (escape_append_ne_quote isQuote c _ y)
    | cons d t =>
      rw [List.flatMap_cons, List.append_assoc] at same
      have read := readEscape_escape isQuote c (s.flatMap (escape quote) ++ quote :: x)
      rw [same, readEscape_escape isQuote d] at read
      obtain ⟨rfl, rest⟩ := Prod.mk.inj (Option.some.inj read)
      obtain ⟨rfl, further⟩ := ih rest.symm
      exact ⟨rfl, further⟩

theorem quotedChars_inj {s t x y : List Char} (same : quotedChars s ++ x = quotedChars t ++ y) :
    s = t ∧ x = y := by
  simp only [quotedChars, List.cons_append, List.append_assoc] at same
  obtain ⟨quotes, rest⟩ := List.cons.inj same
  rw [← quotes] at rest
  exact flatMap_escape_inj (isQuote_quoteFor s) rest

/-! ### Numbers and code points -/

theorem isDigit_of_mem_repr {n : Nat} {c : Char} (member : c ∈ n.repr.toList) :
    c.isDigit = true := by
  rw [Nat.repr_eq_ofList_toDigits, String.toList_ofList] at member
  exact Nat.isDigit_of_mem_toDigits (by decide) (by decide) member

theorem repr_inj {m n : Nat} (same : m.repr = n.repr) : m = n := by
  rw [Nat.repr_eq_ofList_toDigits, Nat.repr_eq_ofList_toDigits] at same
  have digits : Nat.toDigits 10 m = Nat.toDigits 10 n := by
    have chars := congrArg String.toList same
    rwa [String.toList_ofList, String.toList_ofList] at chars
  have read : Nat.ofDigitChars 10 (Nat.toDigits 10 m) 0 = m := Nat.ofDigitChars_ten_toDigits
  rw [digits, Nat.ofDigitChars_ten_toDigits] at read
  exact read.symm

theorem toString_int (n : Int) :
    toString n = if 0 ≤ n then n.toNat.repr else "-" ++ (-n).toNat.repr := by
  rw [Int.toString_eq_repr, Int.repr_eq_if]

theorem mem_toString_int {n : Int} {c : Char} (member : c ∈ (toString n).toList) :
    c.isDigit = true ∨ c = '-' := by
  rw [toString_int] at member
  by_cases nonneg : 0 ≤ n
  · rw [if_pos nonneg] at member
    exact .inl (isDigit_of_mem_repr member)
  · rw [if_neg nonneg, String.toList_append] at member
    rcases List.mem_append.mp member with sign | digit
    · exact .inr (List.mem_singleton.mp sign)
    · exact .inl (isDigit_of_mem_repr digit)

/-- A number without a sign is not spelled as one with a sign. -/
theorem repr_ne_minus (m n : Nat) : m.repr ≠ "-" ++ n.repr := by
  intro same
  have sign : '-' ∈ ("-" ++ n.repr).toList := by simp
  rw [← same] at sign
  cases isDigit_of_mem_repr sign

theorem toString_int_inj {m n : Int} (same : toString m = toString n) : m = n := by
  rw [toString_int, toString_int] at same
  by_cases nonneg : 0 ≤ m <;> by_cases nonnegToo : 0 ≤ n
  · rw [if_pos nonneg, if_pos nonnegToo] at same
    have magnitude := repr_inj same
    omega
  · rw [if_pos nonneg, if_neg nonnegToo] at same
    exact absurd same (repr_ne_minus _ _)
  · rw [if_neg nonneg, if_pos nonnegToo] at same
    exact absurd same.symm (repr_ne_minus _ _)
  · rw [if_neg nonneg, if_neg nonnegToo] at same
    have magnitude := repr_inj ((String.append_right_inj "-").mp same)
    omega

theorem codepointLabel_natCast (n : Nat) :
    (Datum.int n).codepointLabel = .ok ("U+" ++ (String.ofList (hexadecimal 4 n)).toUpper) := by
  have nonneg : ¬ (n : Int) < 0 := by omega
  simp [Datum.codepointLabel, Datum.int?, nonneg]

theorem toList_codepointLabel (n : Nat) :
    ("U+" ++ (String.ofList (hexadecimal 4 n)).toUpper).toList =
      'U' :: '+' :: (hexadecimal 4 n).map Char.toUpper := by
  simp only [String.toList_append, String.toUpper, String.toList_map, String.toList_ofList]
  rfl

theorem toUpper_hexadecimal_inj {width m n : Nat}
    (same : (hexadecimal width m).map Char.toUpper = (hexadecimal width n).map Char.toUpper) :
    m = n := by
  have read := read_hexadecimal keepsDigits_toUpper width m
  rw [same, read_hexadecimal keepsDigits_toUpper] at read
  exact read.symm

end SentenceGen.Text
