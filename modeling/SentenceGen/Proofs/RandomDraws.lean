import SentenceGen.Proofs.Answers

/-!
# Random draws

A random source draws until it has an answer, so its draws may never come to an end.  What it draws
within so many tries is defined by recursion on the tries, and is what it draws if they are enough.
Numbers are drawn until one is small enough, and a bounded repetition draws no more fractions than
it has room.
-/

namespace SentenceGen

/-! ### Loops -/

/-- What is made by repeating a step, if so many tries are enough. -/
def repeatWithin {α β : Type} (step : α → Id (α ⊕ β)) : Nat → α → Option β
  | 0, _ => none
  | tries + 1, a =>
    match step a with
    | .inl next => repeatWithin step tries next
    | .inr made => some made

theorem repeatM_of_within {α β : Type} {_ : Nonempty β} {step : α → Id (α ⊕ β)} {tries : Nat}
    {a : α} {made : β} (ended : repeatWithin step tries a = some made) :
    Id.run (repeatM step a) = made := by
  induction tries generalizing a with
  | zero => cases ended
  | succ tries ih =>
    rw [repeatM_eq_of_monadTail, Id.run_bind]
    rw [repeatWithin] at ended
    cases stepped : step a with
    | inl next =>
      rw [stepped] at ended
      exact ih ended
    | inr done =>
      rw [stepped] at ended
      exact Option.some.inj ended

namespace Random

variable {ρ : Type} [BitSource ρ]

/-! ### Numbers -/

/-- What is drawn of numbers of `k` bits below `n`, if so many tries are enough. -/
def drawWithin (k n tries : Nat) (r : ρ) : Option (Nat × ρ) := repeatWithin (attempt k n) tries r

theorem drawWithin_succ (k n tries : Nat) (r : ρ) :
    drawWithin k n (tries + 1) r =
      if (BitSource.bits k r).1 < n then some (BitSource.bits k r)
      else drawWithin k n tries (BitSource.bits k r).2 := by
  simp only [drawWithin, repeatWithin, attempt]
  by_cases small : (BitSource.bits k r).1 < n
  · rw [if_pos small, if_pos small]
  · rw [if_neg small, if_neg small]

theorem drawUntil_of_within {k n tries : Nat} {r : ρ} {drawn : Nat × ρ}
    (ended : drawWithin k n tries r = some drawn) : drawUntil k n r = drawn :=
  repeatM_of_within ended

/-- What is left after so many numbers of `k` bits. -/
def afterBits (k : Nat) : Nat → ρ → ρ
  | 0, r => r
  | drawn + 1, r => afterBits k drawn (BitSource.bits k r).2

theorem drawWithin_ok {k n tries : Nat} {r : ρ} {drawn : Nat × ρ}
    (ended : drawWithin k n tries r = some drawn) :
    drawn.1 < n ∧ ∃ numbers, drawn.2 = afterBits k numbers r := by
  induction tries generalizing r with
  | zero => cases ended
  | succ tries ih =>
    rw [drawWithin_succ] at ended
    by_cases small : (BitSource.bits k r).1 < n
    · rw [if_pos small] at ended
      obtain rfl := Option.some.inj ended
      exact ⟨small, 1, rfl⟩
    · rw [if_neg small] at ended
      obtain ⟨less, numbers, left⟩ := ih ended
      exact ⟨less, numbers + 1, left⟩

theorem drawWithin_eq_none_iff {k n tries : Nat} {r : ρ} :
    drawWithin k n tries r = none ↔ ∀ i < tries, n ≤ (BitSource.bits k (afterBits k i r)).1 := by
  induction tries generalizing r with
  | zero => exact ⟨fun _ i less => (Nat.not_lt_zero i less).elim, fun _ => rfl⟩
  | succ tries ih =>
    rw [drawWithin_succ, Nat.forall_lt_succ_left]
    by_cases small : (BitSource.bits k r).1 < n
    · rw [if_pos small]
      exact ⟨nofun, fun large => absurd large.1 (Nat.not_le.mpr small)⟩
    · rw [if_neg small, ih]
      exact (and_iff_right (Nat.not_lt.mp small)).symm

/-- Every number that can be drawn is too large. -/
def Exceeds (n : Nat) (r : ρ) : Prop :=
  ∀ i, n ≤ (BitSource.bits (n.log2 + 1) (afterBits (n.log2 + 1) i r)).1

theorem exceeds_iff {n : Nat} {r : ρ} :
    Exceeds n r ↔ ∀ tries, drawWithin (n.log2 + 1) n tries r = none := by
  constructor
  · intro large tries
    exact drawWithin_eq_none_iff.mpr fun i _ => large i
  · intro never i
    exact drawWithin_eq_none_iff.mp (never (i + 1)) i (Nat.lt_succ_self i)

/-- What is left after so many fractions. -/
def afterFractions : Nat → ρ → ρ
  | 0, r => r
  | drawn + 1, r => afterFractions drawn (BitSource.fraction r).2

end Random

namespace RandomSource

open SentenceGen.Random (BitSource afterBits afterFractions)

variable {ρ : Type} [BitSource ρ]

/-! ### Repetitions -/

/-- What a count is extended to, if so many tries are enough. -/
def extendWithin (decay : Float) (maximum : Datum) (tries : Nat) (count : Datum) (chance : Float)
    (r : ρ) : Option (Except Fault Datum × ρ) :=
  repeatWithin (stepUp decay maximum) tries (count, chance, r)

theorem extendWithin_of_full {decay : Float} {maximum count : Datum}
    (full : hasRoom maximum count = .ok false) (tries : Nat) (chance : Float) (r : ρ) :
    extendWithin decay maximum (tries + 1) count chance r = some (.ok count, r) := by
  simp only [extendWithin, repeatWithin, stepUp, full]

theorem extendWithin_of_room {decay : Float} {maximum : Datum} {count : Nat}
    (room : hasRoom maximum (.int count) = .ok true) (tries : Nat) (chance : Float) (r : ρ) :
    extendWithin decay maximum (tries + 1) (.int count) chance r =
      if (BitSource.fraction r).1 < chance then
        extendWithin decay maximum tries (.int (count + 1 : Nat)) (chance * decay)
          (BitSource.fraction r).2
      else some (.ok (.int count), (BitSource.fraction r).2) := by
  simp only [extendWithin, repeatWithin, stepUp, room, Datum.successor_int]
  by_cases further : (BitSource.fraction r).1 < chance
  · rw [if_pos further, if_pos further]
    rfl
  · rw [if_neg further, if_neg further]

theorem extend_of_within {decay : Float} {maximum count : Datum} {tries : Nat} {chance : Float}
    {r : ρ} {ended : Except Fault Datum × ρ}
    (drawn : extendWithin decay maximum tries count chance r = some ended) :
    extend decay maximum count chance r = ended :=
  repeatM_of_within drawn

theorem hasRoom_int (most count : Nat) :
    hasRoom (.int most) (.int count) = .ok (decide (count < most)) := by
  simp [hasRoom, Datum.isNull]

theorem hasRoom_cases {maximum : Datum} {count : Nat} (caps : maximum.Caps count) :
    hasRoom maximum (.int count) = .ok true ∧ maximum.Caps (count + 1) ∨
      hasRoom maximum (.int count) = .ok false := by
  rcases caps with rfl | ⟨most, rfl, _⟩
  · exact .inl ⟨rfl, .inl rfl⟩
  · rw [hasRoom_int]
    by_cases more : count < most
    · rw [decide_eq_true more]
      exact .inl ⟨rfl, .inr ⟨most, rfl, more⟩⟩
    · rw [decide_eq_false more]
      exact .inr rfl

/-- A count stays within its bounds, and takes a fraction for every step that it has room for. -/
theorem extendWithin_ok (decay : Float) {maximum : Datum} {count tries : Nat}
    (caps : maximum.Caps count) {chance : Float} {r : ρ} {ended : Except Fault Datum × ρ}
    (drawn : extendWithin decay maximum tries (.int count) chance r = some ended) :
    ∃ reached : Nat, ended.1 = .ok (.int reached) ∧ count ≤ reached ∧ maximum.Caps reached ∧
      ∃ fractions, ended.2 = afterFractions fractions r ∧
        ∀ most : Nat, maximum = .int most → fractions ≤ most - count := by
  induction tries generalizing count chance r with
  | zero => cases drawn
  | succ tries ih =>
    rcases hasRoom_cases caps with ⟨room, capsNext⟩ | full
    · have less (most : Nat) (given : maximum = .int most) : count < most := by
        rcases capsNext with null | ⟨other, same, less⟩
        · rw [given] at null
          cases null
        · rw [given] at same
          obtain rfl : most = other := Int.ofNat.inj (Datum.int.inj same)
          exact less
      rw [extendWithin_of_room room] at drawn
      by_cases further : (BitSource.fraction r).1 < chance
      · rw [if_pos further] at drawn
        obtain ⟨reached, same, le, capsEnd, fractions, left, fewer⟩ := ih capsNext drawn
        refine ⟨reached, same, Nat.le_of_succ_le le, capsEnd, fractions + 1, left, ?_⟩
        intro most given
        have less := less most given
        have fewer := fewer most given
        omega
      · rw [if_neg further] at drawn
        obtain rfl := Option.some.inj drawn
        refine ⟨count, rfl, Nat.le_refl _, caps, 1, rfl, fun most given => ?_⟩
        exact Nat.sub_pos_of_lt (less most given)
    · rw [extendWithin_of_full full] at drawn
      obtain rfl := Option.some.inj drawn
      exact ⟨count, rfl, Nat.le_refl _, caps, 0, rfl, fun _ _ => Nat.zero_le _⟩

/-- A bounded count needs no more tries than it has room. -/
theorem extendWithin_isSome (decay : Float) {count most tries : Nat} (room : most - count < tries)
    (chance : Float) (r : ρ) :
    (extendWithin decay (.int most) tries (.int count) chance r).isSome = true := by
  induction tries generalizing count chance r with
  | zero => exact (Nat.not_lt_zero _ room).elim
  | succ tries ih =>
    have room_eq := hasRoom_int most count
    by_cases less : count < most
    · rw [decide_eq_true less] at room_eq
      rw [extendWithin_of_room room_eq]
      by_cases further : (BitSource.fraction r).1 < chance
      · rw [if_pos further]
        have fewer : most - (count + 1) < tries := by omega
        exact ih fewer _ _
      · rw [if_neg further]
        rfl
    · rw [decide_eq_false less] at room_eq
      rw [extendWithin_of_full room_eq]
      rfl

/-- The chance after so many steps. -/
def chanceAfter (decay : Float) : Nat → Float → Float
  | 0, chance => chance
  | steps + 1, chance => chanceAfter decay steps (chance * decay)

theorem extendWithin_eq_none_iff {decay : Float} {count tries : Nat} {chance : Float} {r : ρ} :
    extendWithin decay .null tries (.int count) chance r = none ↔
      ∀ i < tries, (BitSource.fraction (afterFractions i r)).1 < chanceAfter decay i chance := by
  induction tries generalizing count chance r with
  | zero => exact ⟨fun _ i less => (Nat.not_lt_zero i less).elim, fun _ => rfl⟩
  | succ tries ih =>
    rw [extendWithin_of_room rfl, Nat.forall_lt_succ_left]
    by_cases further : (BitSource.fraction r).1 < chance
    · rw [if_pos further, ih]
      exact (and_iff_right further).symm
    · rw [if_neg further]
      exact ⟨nofun, fun below => absurd below.1 further⟩

/-! ### Questions -/

/-- What is drawn for a question, if so many tries are enough. -/
def drawWithin (tries : Nat) (q : Question) (s : RandomSource ρ) :
    Option (Except Fault Datum × ρ) :=
  match q with
  | .alternative count =>
    match rangeBound count with
    | .error fault => some (.error fault, s.state)
    | .ok n =>
      if 0 < n then
        (Random.drawWithin (n.toNat.log2 + 1) n.toNat tries s.state).map fun drawn =>
          (.ok (.int drawn.1), drawn.2)
      else some (.error .emptyRange, s.state)
  | .repetition bounds _ =>
    extendWithin s.decay bounds.maximum tries bounds.minimum s.continuation s.state
  | .optional => some (draw .optional s)
  | .codepoint candidates =>
    if 0 < candidates.size then
      (Random.drawWithin (candidates.size.log2 + 1) candidates.size tries s.state).map
        (pick candidates)
    else some (.error .emptyChoice, s.state)

theorem draw_of_within {q : Question} {s : RandomSource ρ} {tries : Nat}
    {ended : Except Fault Datum × ρ} (within : drawWithin tries q s = some ended) :
    draw q s = ended := by
  cases q with
  | alternative count =>
    rw [draw, drawBelow]
    rw [drawWithin] at within
    cases bound : rangeBound count with
    | error fault =>
      rw [bound] at within
      exact Option.some.inj within
    | ok n =>
      rw [bound] at within
      simp only at within ⊢
      by_cases positive : 0 < n
      · rw [if_pos positive, Option.map_eq_some_iff] at within
        obtain ⟨drawn, fitting, rfl⟩ := within
        rw [if_pos positive, Random.drawBelow, Random.drawUntil_of_within fitting]
      · rw [if_neg positive] at within ⊢
        exact Option.some.inj within
  | repetition bounds site => exact extend_of_within within
  | optional => exact Option.some.inj within
  | codepoint candidates =>
    rw [draw, choose]
    rw [drawWithin] at within
    by_cases offered : 0 < candidates.size
    · rw [if_pos offered, Option.map_eq_some_iff] at within
      obtain ⟨drawn, fitting, rfl⟩ := within
      rw [if_pos offered, Random.drawBelow, Random.drawUntil_of_within fitting]
    · rw [if_neg offered] at within ⊢
      exact Option.some.inj within

/-- The draws for a question never come to an end: every number is too large, or there is no upper
bound and every fraction is below its chance. -/
def Endless (q : Question) (s : RandomSource ρ) : Prop :=
  match q with
  | .alternative count => ∃ n : Nat, count = .int n ∧ Random.Exceeds n s.state
  | .repetition bounds _ =>
    bounds.maximum = .null ∧
      ∀ i, (BitSource.fraction (afterFractions i s.state)).1 < chanceAfter s.decay i s.continuation
  | .optional => False
  | .codepoint candidates => Random.Exceeds candidates.size s.state

theorem drawWithin_alternative {n : Nat} (positive : 0 < n) (tries : Nat) (s : RandomSource ρ) :
    drawWithin tries (.alternative (.int n)) s =
      (Random.drawWithin (n.log2 + 1) n tries s.state).map fun drawn =>
        (.ok (.int drawn.1), drawn.2) := by
  have bound : rangeBound (.int n) = .ok (n : Int) := rfl
  have positive : 0 < (n : Int) := Int.natCast_pos.mpr positive
  simp only [drawWithin, bound, if_pos positive, Int.toNat_natCast]

/-- The draws for a sensible question never end just if no number of tries is enough. -/
theorem endless_iff {q : Question} (sensible : q.Sensible) {s : RandomSource ρ} :
    Endless q s ↔ ∀ tries, drawWithin tries q s = none := by
  cases q with
  | alternative count =>
    obtain ⟨n, positive, rfl⟩ := sensible
    simp only [drawWithin_alternative positive, Option.map_eq_none_iff, ← Random.exceeds_iff]
    constructor
    · rintro ⟨other, same, large⟩
      obtain rfl : n = other := Int.ofNat.inj (Datum.int.inj same)
      exact large
    · exact fun large => ⟨n, rfl, large⟩
  | repetition bounds site =>
    obtain ⟨least, minimum, maximum | ⟨most, maximum, _⟩⟩ := sensible
    · simp only [drawWithin, Endless, minimum, maximum, extendWithin_eq_none_iff, true_and]
      exact ⟨fun below _ i _ => below i, fun never i => never (i + 1) i (Nat.lt_succ_self i)⟩
    · simp only [drawWithin, Endless, minimum, maximum]
      have ended := extendWithin_isSome s.decay (Nat.lt_succ_self (most - least)) s.continuation
        s.state
      exact ⟨nofun, fun never => by simp [never] at ended⟩
  | optional => exact ⟨False.elim, fun never => (nomatch never 0)⟩
  | codepoint candidates =>
    have offered : 0 < candidates.size := sensible
    simp only [drawWithin, if_pos offered, Option.map_eq_none_iff, ← Random.exceeds_iff]
    rfl

end RandomSource

/-- The answer takes no more draws than it may: numbers only, or so many fractions. -/
def Question.Spends {ρ : Type} [Random.BitSource ρ] (r left : ρ) : Question → Prop
  | .alternative _ | .codepoint _ => ∃ k numbers, left = Random.afterBits k numbers r
  | .optional => left = Random.afterFractions 1 r
  | .repetition bounds _ =>
    ∃ fractions, left = Random.afterFractions fractions r ∧
      ∀ least most : Nat, bounds.minimum = .int least → bounds.maximum = .int most →
        fractions ≤ most - least

namespace RandomSource

variable {ρ : Type} [Random.BitSource ρ]

/-- What is drawn for a sensible question is within its bounds, and so are the draws. -/
theorem drawWithin_ok {q : Question} (sensible : q.Sensible) {s : RandomSource ρ} {tries : Nat}
    {ended : Except Fault Datum × ρ} (within : drawWithin tries q s = some ended) :
    (∃ answer, ended.1 = .ok answer ∧ q.Admits answer) ∧ q.Spends s.state ended.2 := by
  cases q with
  | alternative count =>
    obtain ⟨n, positive, rfl⟩ := sensible
    rw [drawWithin_alternative positive, Option.map_eq_some_iff] at within
    obtain ⟨drawn, fitting, rfl⟩ := within
    obtain ⟨less, numbers, left⟩ := Random.drawWithin_ok fitting
    exact ⟨⟨_, rfl, n, _, rfl, less, rfl⟩, _, numbers, left⟩
  | repetition bounds site =>
    obtain ⟨least, minimum, caps⟩ := sensible
    rw [drawWithin, minimum] at within
    obtain ⟨reached, same, le, capsEnd, fractions, left, fewer⟩ :=
      extendWithin_ok s.decay caps within
    refine ⟨⟨_, same, reached, ⟨least, minimum, le, capsEnd⟩, rfl⟩, fractions, left, ?_⟩
    intro other most minimum' maximum
    obtain rfl : least = other := Int.ofNat.inj (Datum.int.inj (minimum.symm.trans minimum'))
    exact fewer most maximum
  | optional =>
    obtain rfl := Option.some.inj within
    exact ⟨⟨_, rfl, _, rfl⟩, rfl⟩
  | codepoint candidates =>
    have offered : 0 < candidates.size := sensible
    rw [drawWithin, if_pos offered, Option.map_eq_some_iff] at within
    obtain ⟨drawn, fitting, rfl⟩ := within
    obtain ⟨less, numbers, left⟩ := Random.drawWithin_ok fitting
    obtain ⟨codepoint, listed⟩ := candidates.at?_of_lt less
    rw [pick, listed]
    exact ⟨⟨_, rfl, _, listed⟩, _, numbers, left⟩

/-- A sensible question is answered within its bounds, unless the draws for it never end. -/
theorem ask_ok {q : Question} (sensible : q.Sensible) {s : RandomSource ρ}
    (ends : ¬Endless q s) :
    (∃ answer, (DecisionSource.ask q s).1 = .ok answer ∧ q.Admits answer) ∧
      q.Spends s.state (DecisionSource.ask q s).2.state := by
  rw [endless_iff sensible, not_forall] at ends
  obtain ⟨tries, ended⟩ := ends
  obtain ⟨drawn, within⟩ := Option.ne_none_iff_exists'.mp ended
  obtain rfl := draw_of_within within
  exact drawWithin_ok sensible within

end RandomSource

end SentenceGen
