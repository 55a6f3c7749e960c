import SentenceGen.Proofs.Callings

/-!
# Contexts of callbacks that are over

The context of a callback is closed when the callback returns or raises, and stays closed.  From
then on every request on it is refused and changes nothing.  A code point is looked at before the
context is, so one that no text can have is refused for that reason even then.
-/

namespace SentenceGen

/-! ### Code points that are written -/

namespace Action

variable {κ : Type} {codepoint : Datum} {n : Int}

/-- A number that is the code point of a character. -/
def IsScalar (codepoint : Datum) : Prop :=
  ∃ n : Nat, codepoint.int? = some (n : Int) ∧ n.isValidChar

/-- The text that is written for a code point. -/
def textOf (codepoint : Datum) : Except Fault String := do
  if ← isSurrogate codepoint then throw (.surrogateWritten (← codepoint.codepointLabel))
  characterOf codepoint

theorem run_writeCodepoint (target : Context) (codepoint : Datum) :
    (writeCodepoint target codepoint : Action κ Unit).run =
      match textOf codepoint with
      | .ok text => (write target (.str text)).run
      | .error fault => .done (.error fault) := by
  unfold writeCodepoint textOf
  cases isSurrogate codepoint with
  | error fault => rfl
  | ok surrogate =>
    cases surrogate with
    | true => cases codepoint.codepointLabel <;> rfl
    | false => cases characterOf codepoint <;> rfl

theorem magnitude?_of_int? (integral : codepoint.int? = some n) :
    codepoint.magnitude? = some (.ofInt n) := by
  cases codepoint with
  | bool | int => exact congrArg (Option.map _) integral
  | _ => cases integral

theorem isSurrogate_of_int? (integral : codepoint.int? = some n) :
    isSurrogate codepoint = .ok (decide (0xD800 ≤ n ∧ n ≤ 0xDFFF)) := by
  have atMost (a b : Int) :
      (Decimal.Magnitude.ofInt a).atMost (.ofInt b) = decide (a ≤ b) := by
    simp [Decimal.Magnitude.atMost, ← Bool.decide_or, ← Int.le_iff_lt_or_eq]
  have first : (Datum.int 0xD800).atMost codepoint = .ok (decide (0xD800 ≤ n)) := by
    simp only [Datum.atMost, Datum.magnitude?_int, magnitude?_of_int? integral, atMost]
  have second : codepoint.atMost (.int 0xDFFF) = .ok (decide (n ≤ 0xDFFF)) := by
    simp only [Datum.atMost, Datum.magnitude?_int, magnitude?_of_int? integral, atMost]
  unfold isSurrogate
  rw [first]
  by_cases above : 0xD800 ≤ n
  · simp [above, second, bind, Except.bind]
  · simp [above, bind, Except.bind, pure, Except.pure]

theorem textOf_of_scalar (scalar : IsScalar codepoint) :
    ∃ text, textOf codepoint = .ok text := by
  obtain ⟨n, integral, valid⟩ := scalar
  have apart : ¬ ((0xD800 : Int) ≤ n ∧ (n : Int) ≤ 0xDFFF) := by
    rcases valid with low | ⟨high, _⟩ <;> omega
  have narrow : ¬ ((n : Int) < -0x80000000 ∨ (0x80000000 : Int) ≤ n) := by
    rcases valid with low | ⟨_, high⟩ <;> omega
  have inside : ¬ ((n : Int) < 0 ∨ (0x10FFFF : Int) < n) := by
    rcases valid with low | ⟨_, high⟩ <;> omega
  refine ⟨(Char.ofNat n).toString, ?_⟩
  simp only [textOf, isSurrogate_of_int? integral, apart, decide_false, characterOf, integral,
    if_neg narrow, if_neg inside]
  rfl

theorem isSurrogate_float (x : Float) : ∃ surrogate, isSurrogate (.float x) = .ok surrogate := by
  have number : (Datum.float x).magnitude? = some (.ofFloat x) := rfl
  unfold isSurrogate
  simp only [Datum.atMost, Datum.magnitude?_int, number, bind, Except.bind]
  split
  · exact ⟨_, rfl⟩
  · exact ⟨false, rfl⟩

/-- What is no code point of a character is refused for its value or its type. -/
theorem textOf_of_not_scalar (other : ¬ IsScalar codepoint) :
    ∃ fault, textOf codepoint = .error fault ∧
      (fault.kind = .value ∨ fault.kind = .type ∨ fault.kind = .overflow) := by
  cases integral : codepoint.int? with
  | some n =>
    by_cases surrogate : 0xD800 ≤ n ∧ n ≤ 0xDFFF
    · obtain ⟨label, labelled⟩ := Datum.codepointLabel_ok (d := codepoint) (by rw [integral]; rfl)
      refine ⟨.surrogateWritten label, ?_, .inl rfl⟩
      simp only [textOf, isSurrogate_of_int? integral, surrogate, labelled]
      rfl
    · have passed : textOf codepoint = characterOf codepoint := by
        simp only [textOf, isSurrogate_of_int? integral, surrogate, decide_false]
        rfl
      rw [passed]
      simp only [characterOf, integral]
      split
      next => exact ⟨_, rfl, .inr (.inr rfl)⟩
      next =>
        split
        next => exact ⟨_, rfl, .inl rfl⟩
        next wide inside =>
          refine absurd ⟨n.toNat, ?_, ?_⟩ other
          · rw [integral, Int.toNat_of_nonneg (by omega)]
          · change n.toNat < 0xD800 ∨ 0xDFFF < n.toNat ∧ n.toNat < 0x110000
            omega
  | none =>
    cases codepoint with
    | bool | int => cases integral
    | float x =>
      obtain ⟨surrogate, looked⟩ := isSurrogate_float x
      rw [textOf, looked]
      cases surrogate with
      | true => exact ⟨.noHexadecimal "float", rfl, .inl rfl⟩
      | false => exact ⟨.notInteger "float", rfl, .inr (.inl rfl)⟩
    | _ => exact ⟨.notOrdered "<=" "int" _, rfl, .inr (.inl rfl)⟩

end Action

/-! ### Closed contexts -/

namespace Expand

variable {σ κ : Type} [DecisionSource σ]

/-- Every request on the context is refused in this state because the context is closed, but a code
point that no text can have with a fault about it, and the state stays as it is. -/
structure Denies (plan : Plan κ) (s : Expansion σ κ) (target : Context) : Prop where
  write (expandOne : Rule → Option NodeId → Expand σ κ Unit) (text : Datum) :
    (serve plan expandOne (Action.write target text).run).exec s =
      (.error (.contextClosed target.name), s)
  expandDefault (expandOne : Rule → Option NodeId → Expand σ κ Unit) :
    (serve plan expandOne (Action.expandDefault target).run).exec s =
      (.error (.contextClosed target.name), s)
  writeCodepoint (expandOne : Rule → Option NodeId → Expand σ κ Unit) {codepoint : Datum} :
    Action.IsScalar codepoint →
      (serve plan expandOne (Action.writeCodepoint target codepoint).run).exec s =
        (.error (.contextClosed target.name), s)
  otherCodepoint (expandOne : Rule → Option NodeId → Expand σ κ Unit) {codepoint : Datum} :
    ¬ Action.IsScalar codepoint → ∃ fault,
      (serve plan expandOne (Action.writeCodepoint target codepoint).run).exec s =
          (.error fault, s) ∧
        (fault.kind = .value ∨ fault.kind = .type ∨ fault.kind = .overflow)

theorem denies_of_not_mem (plan : Plan κ) {s : Expansion σ κ} {target : Context}
    (closed : target ∉ s.live) : Denies plan s target := by
  have shut : s.live.contains target = false := by simpa using closed
  have written (expandOne : Rule → Option NodeId → Expand σ κ Unit) (text : Datum) :
      (serve plan expandOne (Action.write target text).run).exec s =
        (.error (.contextClosed target.name), s) := by
    change (writeTo plan target text).exec s = _
    rw [exec_writeTo, shut]
    rfl
  constructor
  case write => exact written
  case expandDefault =>
    intro expandOne
    change (expandIn plan expandOne target).exec s = _
    rw [expandIn, exec_bind, exec_requireOpen, shut]
    rfl
  case writeCodepoint =>
    intro expandOne codepoint scalar
    obtain ⟨text, spelled⟩ := Action.textOf_of_scalar scalar
    rw [Action.run_writeCodepoint, spelled]
    exact written expandOne (.str text)
  case otherCodepoint =>
    intro expandOne codepoint other
    obtain ⟨fault, refused, kind⟩ := Action.textOf_of_not_scalar other
    refine ⟨fault, ?_, kind⟩
    rw [Action.run_writeCodepoint, refused]
    rfl

end Expand

namespace Generator

open Expand

variable {σ κ : Type} [DecisionSource σ]

/-- A context of a call is closed whenever a run of another call can be seen. -/
theorem denies_of_other_call (g : Generator κ) (call : Call) (start : Option String) (source : σ)
    (user : κ) {target : Context} (other : target.call ≠ call.serial) :
    (∀ event ∈ (g.chronicle call start source user).2.events, ∀ now, event.now? = some now →
        Denies g.plan now target) ∧
      Denies g.plan (g.runWithin call start source user).final target := by
  have told := g.told_chronicle call start source user
  refine ⟨fun event member now shown => ?_, ?_⟩
  · exact denies_of_not_mem g.plan fun live =>
      other ((told.within event member).1 now target shown live)
  · have closed : (g.runWithin call start source user).final.live = [] := by
      rw [(g.runWithin_chronicle call start source user).2]
      exact told.live_eq
    exact denies_of_not_mem g.plan (by rw [closed]; exact List.not_mem_nil)

/-- Every callback that is called in a run ends, and from then on every request on its context is
denied: whenever the run can be seen, when it has ended, and in every run of another call, of
whichever generator. -/
theorem contexts_end (g : Generator κ) (call : Call) (start : Option String) (source : σ)
    (user : κ) :
    let r := g.runWithin call start source user
    let chronicle := g.chronicle call start source user
    (r.outcome = chronicle.1 ∧ r.final = chronicle.2.bare) ∧
      (∀ callback target, .called callback target ∈ chronicle.2.events →
        .finished target ∈ chronicle.2.events) ∧
      (∀ before target after, chronicle.2.events = before ++ .finished target :: after →
        (∀ event ∈ after, ∀ now, event.now? = some now → Denies g.plan now target) ∧
          Denies g.plan r.final target) ∧
      ∀ callback target, .called callback target ∈ chronicle.2.events →
        ∀ {τ ι : Type} [DecisionSource τ] (h : Generator ι) (other : Call)
          (start : Option String) (source : τ) (user : ι), other.serial ≠ call.serial →
          (∀ event ∈ (h.chronicle other start source user).2.events, ∀ now,
            event.now? = some now → Denies h.plan now target) ∧
            Denies h.plan (h.runWithin other start source user).final target := by
  intro r chronicle
  have told := g.told_chronicle call start source user
  have same := g.runWithin_chronicle call start source user
  refine ⟨same, told.ends, fun before target after split => ⟨fun event later now shown => ?_, ?_⟩,
    fun callback target member {τ ι} _ h other start source user apart => ?_⟩
  · have shut := told.shut
    rw [show (g.chronicle call start source user).2.events = _ from split] at shut
    have ordered := (List.pairwise_append.mp shut).2.1
    exact denies_of_not_mem g.plan
      (List.rel_of_pairwise_cons ordered later target now rfl shown)
  · have closed : r.final.live = [] := by
      rw [same.2]
      exact told.live_eq
    exact denies_of_not_mem g.plan (by rw [closed]; exact List.not_mem_nil)
  · have own : target.call = call.serial := (told.within _ member).2 target rfl
    exact h.denies_of_other_call other start source user (by rw [own]; exact apart.symm)

/-- The callback of the inner production keeps its context, and that of the outer one writes to it
when the inner one is over. -/
def leaking : Generator (Option Context) where
  grammar :=
    { name := "a", start := "a", registry := ⟨[], false⟩
      productions := [("a", .nonTerminal "b"), ("b", .literal "x")] }
  replacements.named :=
    [("a", fun own => do
        Action.expandDefault own
        for kept in (← Action.look).user do
          try Action.write kept (.str "y")
          catch _ => Action.write own (.str "!")),
      ("b", fun own => Action.store (some own))]
  config := {}
  classes := []

/-- The context of the inner production in the first call. -/
def leaked : Context := ⟨0, 1, "b"⟩

/-- While the second call runs, its own callbacks have the same places, but the context that was
kept in the first one is denied as before. -/
theorem leaking_contexts_end :
    let r := leaking.runWithin (.first 20) none ({} : Script) none
    let events := (leaking.chronicle (.first 20) none ({} : Script) none).2.events
    let again : Call := { ceiling := 20, serial := 1 }
    let later := (leaking.chronicle again none ({} : Script) (some leaked)).2.events
    (r.final.user = some leaked ∧ r.final.text = "!") ∧ .finished leaked ∈ events ∧
      (∃ before after, events = before ++ .finished leaked :: after ∧
        (∃ event ∈ after, ∃ now, event.now? = some now ∧ now.tree.size = 2 ∧
          Denies leaking.plan now leaked) ∧
        Denies leaking.plan r.final leaked) ∧
      ∃ event ∈ later, ∃ now, event.now? = some now ∧ ⟨1, 1, "b"⟩ ∈ now.live ∧
        Denies leaking.plan now leaked := by
  intro r events again later
  obtain ⟨-, ends, denied, others⟩ := leaking.contexts_end (.first 20) none ({} : Script) none
  have called : events[6]? = some (.called (fun own => Action.store (some own)) leaked) := rfl
  have split : events = events.take 9 ++ .finished leaked :: events.drop 10 := rfl
  obtain ⟨during, ended⟩ := denied _ leaked _ split
  have told := List.mem_of_getElem? called
  refine ⟨⟨rfl, by decide +kernel⟩, ends _ leaked told, ⟨_, _, split, ?_, ended⟩, ?_⟩
  · have seen : ((events.drop 10)[2]?.bind Event.now?).map (·.tree.size) = some 2 := by
      decide +kernel
    obtain ⟨now, shown, size⟩ := Option.map_eq_some_iff.mp seen
    obtain ⟨event, found, shown⟩ := Option.bind_eq_some_iff.mp shown
    have member := List.mem_of_getElem? found
    exact ⟨event, member, now, shown, size, during event member now shown⟩
  · obtain ⟨closed, -⟩ := others _ leaked told leaking again none ({} : Script) (some leaked) nofun
    have seen : (later[7]?.bind Event.now?).map (·.live) = some [⟨1, 1, "b"⟩, ⟨1, 0, "a"⟩] := by
      decide +kernel
    obtain ⟨now, shown, live⟩ := Option.map_eq_some_iff.mp seen
    obtain ⟨event, found, shown⟩ := Option.bind_eq_some_iff.mp shown
    have member := List.mem_of_getElem? found
    refine ⟨event, member, now, shown, ?_, closed event member now shown⟩
    rw [live]
    exact List.mem_cons_self

/-- The context is over, but a surrogate is refused for its value. -/
theorem leaking_surrogate_refused :
    let r := leaking.runWithin (.first 20) none ({} : Script) none
    .finished leaked ∈ (leaking.chronicle (.first 20) none ({} : Script) none).2.events ∧
      ∀ expandOne, ∃ fault,
        (serve leaking.plan expandOne (Action.writeCodepoint leaked (.int 0xD800)).run).exec
            r.final = (.error fault, r.final) ∧
          fault.kind = .value ∧ fault.kind ≠ .runtime := by
  refine ⟨?_, fun _ => ⟨_, rfl, rfl, nofun⟩⟩
  have gone : (leaking.chronicle (.first 20) none ({} : Script) none).2.events[9]? =
      some (.finished leaked) := rfl
  exact List.mem_of_getElem? gone

end Generator

end SentenceGen
