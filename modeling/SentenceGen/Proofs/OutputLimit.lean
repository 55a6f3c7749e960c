import SentenceGen.Proofs.Guarantee
import SentenceGen.Proofs.Replay

/-!
# The output cutoff

Text is appended before it is measured.  So a text that is too large stays in the output, and only
the fault tells of it: a run delivers no more than the cutoff admits as long as no callback catches
that fault.
-/

namespace SentenceGen

/-- The request failed because the text was too large. -/
def Reply.Overran (reply : Reply) : Prop := ∃ limit size, reply.fault? = some (.tooLarge limit size)

namespace Expand

variable {σ κ α : Type}

/-! ### The length of the text -/

/-- The size is the length of the text. -/
def Counted (s : Expansion σ κ) : Prop := s.size = s.text.length

theorem counts [DecisionSource σ] (plan : Plan κ) :
    Guarantee (σ := σ) plan fun s _ t => Counted s → Counted t where
  refl _ _ counted := counted
  trans first second counted := second (first counted)
  adds _ _ _ counted := counted
  appends s text counted := by
    have counted : s.size = s.text.length := counted
    simp [Counted, Expansion.text, String.join_append, counted]
  asks _ _ _ counted := counted
  meets _ counted := counted
  deepens inside := inside
  enters _ inside := inside
  opens _ inside := inside

theorem counted_expand [DecisionSource σ] (plan : Plan κ) (fuel : Nat) (rule : Rule)
    (parent : Option NodeId) {s : Expansion σ κ} (counted : Counted s) :
    Counted ((expand plan fuel rule parent).exec s).2 := by
  have serves := (counts plan).servesAll (σ := σ) (fun _ _ counted => counted) (fun kept => kept)
  exact (counts plan).expand serves fuel rule parent s counted

/-! ### Text within the cutoff -/

/-- The output cutoff admits a length. -/
def Fitting (plan : Plan κ) (n : Nat) : Prop := ∀ cutoff ∈ plan.maxSize, cutoff.admits n = true

theorem Fitting.mono {plan : Plan κ} {m n : Nat} (h : Fitting plan n) (le : m ≤ n) :
    Fitting plan m :=
  fun cutoff given => Cutoff.admits_mono (h cutoff given) le

theorem appendOutcome_eq_ok {plan : Plan κ} {size : Nat} :
    appendOutcome plan size = .ok () ↔ Fitting plan size := by
  unfold appendOutcome Fitting
  cases plan.maxSize with
  | none => simp
  | some cutoff =>
    by_cases admitted : cutoff.admits size = true
    · simp [admitted]
    · simp [admitted]

theorem tooLarge_of_appendOutcome {plan : Plan κ} {size : Nat} {fault : Fault}
    (h : appendOutcome plan size = .error fault) :
    ∃ cutoff ∈ plan.maxSize, fault = .tooLarge cutoff.given (.int size) := by
  unfold appendOutcome at h
  split at h
  next cutoff given =>
    split at h
    · cases h
    · cases h
      exact ⟨cutoff, given, rfl⟩
  next => cases h

/-- Text that fitted still fits, unless the log tells that it does not, or the fault on its way. -/
structure Contained (plan : Plan κ) (s : Expansion σ (κ × List Reply)) (ended : Option Fault)
    (t : Expansion σ (κ × List Reply)) : Prop where
  log : s.user.2 ⊆ t.user.2
  fits : Fitting plan s.size → Fitting plan t.size ∨ (∃ reply ∈ t.user.2, reply.Overran) ∨
    ∃ limit size, ended = some (.tooLarge limit size)

variable {plan : Plan κ} {s t u : Expansion σ (κ × List Reply)} {ended : Option Fault}

theorem Contained.trans (first : Contained plan s none t) (second : Contained plan t ended u) :
    Contained plan s ended u where
  log := List.Subset.trans first.log second.log
  fits fitting := by
    rcases first.fits fitting with fits | ⟨reply, member, overran⟩ | ⟨_, _, ⟨⟩⟩
    · exact second.fits fits
    · exact .inr (.inl ⟨reply, second.log member, overran⟩)

theorem contained_of_eq (size_eq : t.size = s.size) (log_eq : t.user.2 = s.user.2) :
    Contained plan s ended t where
  log := by rw [log_eq]; exact List.Subset.refl _
  fits fitting := .inl (by rw [size_eq]; exact fitting)

/-- Once the reply is in the log, its fault may be forgotten. -/
theorem Contained.noted {reply : Reply} (h : Contained plan s reply.fault? t) :
    Contained plan s none { t with user := (t.user.1, t.user.2 ++ [reply]) } where
  log _ member := List.mem_append_left _ (h.log member)
  fits fitting := by
    rcases h.fits fitting with fits | ⟨reply, member, overran⟩ | overran
    · exact .inl fits
    · exact .inr (.inl ⟨reply, List.mem_append_left _ member, overran⟩)
    · exact .inr (.inl ⟨reply, List.mem_append_right _ (List.mem_singleton_self reply), overran⟩)

variable [DecisionSource σ]

theorem contains (plan : Plan κ) : Guarantee (σ := σ) plan.watched (Contained plan) where
  refl _ _ := contained_of_eq rfl rfl
  trans := Contained.trans
  adds _ _ _ := contained_of_eq rfl rfl
  appends s text :=
    { log := List.Subset.refl _
      fits _ := by
        cases appended : appendOutcome plan.watched (s.size + text.length) with
        | ok _ => exact .inl (appendOutcome_eq_ok.mp appended)
        | error fault =>
          obtain ⟨cutoff, _, rfl⟩ := tooLarge_of_appendOutcome appended
          exact .inr (.inr ⟨cutoff.given, _, rfl⟩) }
  asks _ _ _ := contained_of_eq rfl rfl
  meets _ := contained_of_eq rfl rfl
  deepens inside := ⟨inside.log, inside.fits⟩
  enters _ inside := ⟨inside.log, inside.fits⟩
  opens _ inside := ⟨inside.log, inside.fits⟩

theorem contained_perform {expandOne : Rule → Option NodeId → Expand σ (κ × List Reply) Unit}
    (each : ∀ rule parent, Meets (Contained plan) (expandOne rule parent)) (program : Program κ α)
    (ended : Option Fault) (s : Expansion σ (κ × List Reply)) :
    Contained plan s ended ((perform plan.watched expandOne program.watched).run s).2 := by
  induction program generalizing s with
  | done result => exact contained_of_eq rfl rfl
  | write target text next ih =>
    have wrote : Contained plan s (Reply.written _).fault? _ :=
      (contains plan).writeTo target text s
    exact wrote.noted.trans (ih _ _)
  | expand target next ih =>
    have expanded : Contained plan s (Reply.expanded _).fault? _ :=
      (contains plan).expandIn each target s
    exact expanded.noted.trans (ih _ _)
  | ask question next ih =>
    have asked : Contained plan s (Reply.answered question _).fault? _ :=
      (contains plan).ask question s
    exact asked.noted.trans (ih _ _)
  | look next ih => exact ih _ s
  | store user next ih =>
    have stored : Contained plan s none { s with user := (user, s.user.2) } :=
      contained_of_eq rfl rfl
    exact stored.trans (ih _)

theorem contained_serve : ServesAll (σ := σ) plan.watched (Contained plan) := by
  intro expandOne each name callback found target s
  have found : (plan.replacements.map Callback.watched).find? name = some callback := found
  rw [Replacements.find?_map] at found
  obtain ⟨original, _, rfl⟩ := Option.map_eq_some_iff.mp found
  exact contained_perform each (original target).run _ s

end Expand

namespace Generator

open Expand

variable {σ κ : Type} [DecisionSource σ]

/-- A text that is delivered is no longer than the cutoff admits, unless a callback was told that it
was too large and the run went on. -/
theorem length_text_le (g : Generator κ) {bound : Nat}
    (limited : g.config.limits.maxOutputSize = .int bound) (call : Call) (start : Option String)
    (source : σ) (user : κ) {text : String}
    (delivered : (g.runWithin call start source user).text = .ok text) :
    text.length ≤ bound ∨
      ∃ reply ∈ (g.watched.runWithin call start source (user, [])).final.user.2,
        reply.Overran := by
  have delivered : ((g.watched.runWithin call start source (user, [])).outcome.map fun _ =>
      (g.watched.runWithin call start source (user, [])).final.text) = .ok text := by
    rw [runWithin_watched g call start source user []] at delivered
    exact delivered
  cases outcome : (g.watched.runWithin call start source (user, [])).outcome with
  | error fault =>
    rw [outcome] at delivered
    cases delivered
  | ok _ =>
    rw [outcome] at delivered
    obtain ⟨name, _, derived⟩ := runWithin_ok outcome
    obtain ⟨last, ran, final⟩ := derive_ok derived
    rw [final] at delivered ⊢
    have text_eq : last.text = text := Except.ok.inj delivered
    have counted : last.size = last.text.length := by
      have counted := counted_expand g.watched.plan call.ceiling (.nonTerminal name) none
        (s := call.begin source (user, [])) rfl
      rw [ran] at counted
      exact counted
    have contained := (contains g.plan).expand contained_serve call.ceiling (.nonTerminal name) none
      (call.begin source (user, []))
    rw [show g.plan.watched = g.watched.plan from rfl, ran] at contained
    have cutoff : g.plan.maxSize = some ⟨.int bound, bound⟩ := by
      rw [plan, limited, Cutoff.ofDatum?_int]
    rcases contained.fits (by simp [Fitting, Cutoff.admits]) with fits | overran | ⟨_, _, ⟨⟩⟩
    · have fits : last.size ≤ bound := by simpa [Fitting, cutoff, Cutoff.admits] using fits
      exact .inl (by rw [← text_eq, ← counted]; exact fits)
    · exact .inr overran

/-- Its callback catches whatever comes of a write of four characters. -/
def heedless (bound : Nat) : Generator Unit where
  grammar :=
    { name := "s", start := "s", registry := ⟨[], false⟩, productions := [("s", .literal "x")] }
  replacements.default := some fun own => do
    try Action.write own (.str "abcd")
    catch _ => pure ()
  config := { limits := { maxOutputSize := .int bound } }
  classes := []

theorem heedless_text_ok {bound : Nat}
    (delivered : ((heedless bound).runWithin (.first 20) none ({} : Script) ()).text.toOption =
      some "abcd") :
    ((heedless bound).runWithin (.first 20) none ({} : Script) ()).text = .ok "abcd" := by
  cases text : ((heedless bound).runWithin (.first 20) none ({} : Script) ()).text with
  | error fault =>
    rw [text] at delivered
    cases delivered
  | ok text =>
    rw [text] at delivered
    exact congrArg Except.ok (Option.some.inj delivered)

theorem heedless_length_text_le :
    ((heedless 4).runWithin (.first 20) none ({} : Script) ()).text = .ok "abcd" ∧
      ("abcd".length ≤ 4 ∨
        ∃ reply ∈ ((heedless 4).watched.runWithin (.first 20) none ({} : Script)
            ((), [])).final.user.2,
          reply.Overran) := by
  have delivered : ((heedless 4).runWithin (.first 20) none ({} : Script) ()).text = .ok "abcd" :=
    heedless_text_ok (by decide +kernel)
  exact ⟨delivered, (heedless 4).length_text_le rfl (.first 20) none ({} : Script) () delivered⟩

/-- A fault that is caught lets the text through that it was raised for. -/
theorem heedless_text_too_long :
    (heedless 2).config.limits.maxOutputSize = .int 2 ∧
      ∃ text, ((heedless 2).runWithin (.first 20) none ({} : Script) ()).text = .ok text ∧
        2 < text.length :=
  ⟨rfl, "abcd", heedless_text_ok (by decide +kernel), by decide⟩

end Generator

end SentenceGen
