import SentenceGen.Generator
import SentenceGen.Proofs.Scripts

/-!
# Watched runs

What went wrong inside a run, and was caught there, cannot be told from its outcome.  A watched
program does what the program does and keeps a log of the replies to its requests beside its data.
-/

namespace SentenceGen

/-- What a source owes to a question by its type: an integer or a truth value. -/
def Question.Declares (q : Question) (answer : Datum) : Prop :=
  match q with
  | .alternative _ | .repetition .. | .codepoint _ => answer.int?.isSome
  | .optional => ∃ b, answer = .bool b

instance decidableDeclares (q : Question) (answer : Datum) : Decidable (q.Declares answer) :=
  match q with
  | .alternative _ | .repetition .. | .codepoint _ =>
    inferInstanceAs (Decidable (answer.int?.isSome = true))
  | .optional =>
    match answer with
    | .bool b => .isTrue ⟨b, rfl⟩
    | .null | .int _ | .float _ | .str _ | .list _ | .map _ => .isFalse nofun

theorem Question.settled_of_declares {q : Question} {answer : Datum} (h : q.Declares answer) :
    q.settled answer = answer := by
  cases q with
  | optional =>
    obtain ⟨b, rfl⟩ := h
    rfl
  | _ => rfl

instance decidableAccepted (q : Question) (value : Datum) : Decidable (Script.Accepted q value) :=
  match q with
  | .alternative _ | .repetition .. | .optional => .isTrue trivial
  | .codepoint candidates =>
    match contained : candidates.contains value with
    | .ok true => .isTrue contained
    | .ok false | .error _ => .isFalse fun offered => nomatch contained.symm.trans offered

/-- A code point that is recorded as the answer is answered again from the record. -/
def Question.Repeatable (q : Question) (answer : Datum) : Prop :=
  match q with
  | .codepoint _ => q.Declares answer ∧ Script.Accepted q answer
  | _ => True

theorem Question.repeatable_of_declares {q : Question} {answer : Datum} (h : q.Declares answer)
    (offered : Script.Accepted q answer) : q.Repeatable answer := by
  cases q with
  | codepoint candidates => exact ⟨h, offered⟩
  | _ => trivial

inductive Reply where
  | written (result : Except Fault Unit)
  | expanded (result : Except Fault Unit)
  | answered (question : Question) (result : Except Fault Datum)

def Reply.fault? : Reply → Option Fault
  | .written result | .expanded result => faultOf result
  | .answered _ result => faultOf result

/-- The request was served without a fault, and a question by a value of the type it is owed. -/
def Reply.Fine : Reply → Prop
  | .written result | .expanded result => result = .ok ()
  | .answered question result => ∃ answer, result = .ok answer ∧ question.Declares answer

instance decidableFine (reply : Reply) : Decidable reply.Fine :=
  match reply with
  | .written (.ok ()) | .expanded (.ok ()) => .isTrue rfl
  | .written (.error _) | .expanded (.error _) => .isFalse nofun
  | .answered question (.ok answer) =>
    decidable_of_iff (question.Declares answer)
      ⟨fun declared => ⟨answer, rfl, declared⟩,
        fun ⟨_, same, declared⟩ => Except.ok.inj same ▸ declared⟩
  | .answered _ (.error _) => .isFalse nofun

/-- The reply is no code point that was not on offer. -/
def Reply.Offered : Reply → Prop
  | .answered question (.ok answer) => Script.Accepted question answer
  | _ => True

instance decidableOffered (reply : Reply) : Decidable reply.Offered :=
  match reply with
  | .answered question (.ok answer) =>
    inferInstanceAs (Decidable (Script.Accepted question answer))
  | .written _ | .expanded _ | .answered _ (.error _) => .isTrue trivial

theorem Reply.Fine.repeatable {question : Question} {result : Except Fault Datum}
    (fine : (Reply.answered question result).Fine)
    (offered : (Reply.answered question result).Offered) :
    ∃ answer, result = .ok answer ∧ question.Repeatable answer := by
  obtain ⟨answer, rfl, declared⟩ := fine
  exact ⟨answer, rfl, Question.repeatable_of_declares declared offered⟩

namespace Program

variable {κ α : Type}

def note (reply : Reply) (rest : Program (κ × List Reply) α) : Program (κ × List Reply) α :=
  .look fun view => .store (view.user.1, view.user.2 ++ [reply]) rest

def watched : Program κ α → Program (κ × List Reply) α
  | .done result => .done result
  | .write target text next => .write target text fun r => note (.written r) (next r).watched
  | .expand target next => .expand target fun r => note (.expanded r) (next r).watched
  | .ask question next => .ask question fun r => note (.answered question r) (next r).watched
  | .look next => .look fun view => (next ⟨view.tree, view.user.1⟩).watched
  | .store user next => .look fun view => .store (user, view.user.2) next.watched

end Program

def Callback.watched {κ : Type} (callback : Callback κ) : Callback (κ × List Reply) :=
  fun target => ExceptT.mk (callback target).run.watched

namespace Replacements

variable {β γ : Type}

def map (f : β → γ) (r : Replacements β) : Replacements γ where
  named := r.named.map fun entry => (entry.1, f entry.2)
  default := r.default.map f

theorem lookup_map (f : β → γ) (name : String) (entries : List (String × β)) :
    (entries.map fun entry => (entry.1, f entry.2)).lookup name =
      (entries.lookup name).map f := by
  induction entries with
  | nil => rfl
  | cons entry rest ih =>
    rw [List.map_cons, List.lookup_cons, List.lookup_cons]
    cases name == entry.1 with
    | true => rfl
    | false => exact ih

theorem find?_map (f : β → γ) (r : Replacements β) (name : String) :
    (r.map f).find? name = (r.find? name).map f := by
  simp only [find?, own?, map, lookup_map]
  cases r.named.lookup name <;> rfl

end Replacements

def Plan.watched {κ : Type} (plan : Plan κ) : Plan (κ × List Reply) where
  grammar := plan.grammar
  replacements := plan.replacements.map Callback.watched
  classes := plan.classes
  maxDepth := plan.maxDepth
  maxSize := plan.maxSize

def Generator.watched {κ : Type} (g : Generator κ) : Generator (κ × List Reply) where
  grammar := g.grammar
  replacements := g.replacements.map Callback.watched
  config := g.config
  classes := g.classes

/-- The state without its log and with another source. -/
def Expansion.retold {σ₁ σ₂ κ : Type} (s : Expansion σ₁ (κ × List Reply)) (source : σ₂) :
    Expansion σ₂ κ where
  call := s.call
  tree := s.tree
  chunks := s.chunks
  size := s.size
  depth := s.depth
  sites := s.sites
  productions := s.productions
  live := s.live
  source
  user := s.user.1

/-- How the source of a watched run, given the log so far, goes with the source of a run that is not
watched.  Where faults are not tolerated, all replies in the log are fine and were on offer, and an
answer may come back as what the engine takes from it. -/
structure Retells {σ₁ σ₂ : Type} [DecisionSource σ₁] [DecisionSource σ₂] (tolerant : Prop)
    (Agree : List Reply → σ₁ → σ₂ → Prop) : Prop where
  noted {log : List Reply} {reply : Reply} {x₁ : σ₁} {x₂ : σ₂} :
    Agree (log ++ [reply]) x₁ x₂ → Agree log x₁ x₂ ∧ (tolerant ∨ reply.Fine ∧ reply.Offered)
  asked {log : List Reply} {q : Question} {result : Except Fault Datum} {x₁ y₁ : σ₁} {y₂ : σ₂} :
    (tolerant ∨ ∃ answer, result = .ok answer ∧ q.Repeatable answer) →
      DecisionSource.ask q x₁ = (result, y₁) → Agree log y₁ y₂ →
      ∃ x₂ again, Agree log x₁ x₂ ∧ DecisionSource.ask q x₂ = (again, y₂) ∧
        (again = result ∨ ¬ tolerant ∧ again = result.map q.settled)

namespace Expand

variable {σ₁ σ₂ κ α β : Type}

/-! ### Actions on what both states share -/

/-- The actions do the same to states that differ in source and log, and leave those alone. -/
def Neutral (a₁ : Expand σ₁ (κ × List Reply) α) (a₂ : Expand σ₂ κ α) : Prop :=
  ∀ s, ∃ outcome t, a₁.exec s = (outcome, t) ∧ t.source = s.source ∧ t.user = s.user ∧
    ∀ source, a₂.exec (s.retold source) = (outcome, t.retold source)

variable {a₁ : Expand σ₁ (κ × List Reply) α} {a₂ : Expand σ₂ κ α}
  {k₁ : α → Expand σ₁ (κ × List Reply) β} {k₂ : α → Expand σ₂ κ β}

theorem Neutral.bind (first : Neutral a₁ a₂) (second : ∀ a, Neutral (k₁ a) (k₂ a)) :
    Neutral (a₁ >>= k₁) (a₂ >>= k₂) := by
  intro s
  obtain ⟨outcome, t, ran, source_eq, user_eq, again⟩ := first s
  cases outcome with
  | error fault =>
    exact ⟨.error fault, t, exec_bind_of_error ran, source_eq, user_eq,
      fun x => exec_bind_of_error (again x)⟩
  | ok a =>
    obtain ⟨outcome, u, ranOn, source_eqOn, user_eqOn, againOn⟩ := second a t
    refine ⟨outcome, u, ?_, source_eqOn.trans source_eq, user_eqOn.trans user_eq, fun x => ?_⟩
    · rw [exec_bind_of_ok ran, ranOn]
    · rw [exec_bind_of_ok (again x), againOn]

theorem neutral_pure (a : α) :
    Neutral (pure a : Expand σ₁ (κ × List Reply) α) (pure a : Expand σ₂ κ α) :=
  fun s => ⟨.ok a, s, rfl, rfl, rfl, fun _ => rfl⟩

theorem neutral_throw (fault : Fault) :
    Neutral (throw fault : Expand σ₁ (κ × List Reply) α) (throw fault : Expand σ₂ κ α) :=
  fun s => ⟨.error fault, s, rfl, rfl, rfl, fun _ => rfl⟩

theorem neutral_lift (result : Except Fault α) :
    Neutral (liftM result : Expand σ₁ (κ × List Reply) α) (liftM result : Expand σ₂ κ α) :=
  fun s => ⟨result, s, rfl, rfl, rfl, fun _ => rfl⟩

theorem neutral_nextSite :
    Neutral (nextSite : Expand σ₁ (κ × List Reply) _) (nextSite : Expand σ₂ κ _) :=
  fun s => ⟨_, _, exec_nextSite s, rfl, rfl, fun _ => rfl⟩

theorem neutral_ownCall :
    Neutral (ownCall : Expand σ₁ (κ × List Reply) _) (ownCall : Expand σ₂ κ _) :=
  fun s => ⟨_, _, exec_ownCall s, rfl, rfl, fun _ => rfl⟩

theorem neutral_addNode (node : Node) :
    Neutral (addNode node : Expand σ₁ (κ × List Reply) _) (addNode node : Expand σ₂ κ _) :=
  fun s => ⟨_, _, exec_addNode node s, rfl, rfl, fun _ => rfl⟩

theorem neutral_append (plan : Plan κ) (text : String) :
    Neutral (append plan.watched text : Expand σ₁ _ Unit) (append plan text : Expand σ₂ κ Unit) :=
  fun s => ⟨_, _, exec_append plan.watched text s, rfl, rfl, fun _ => exec_append plan text _⟩

theorem neutral_emit (plan : Plan κ) (text : String) (parent : Option NodeId) :
    Neutral (emit plan.watched text parent : Expand σ₁ _ Unit)
      (emit plan text parent : Expand σ₂ κ Unit) := by
  apply (neutral_addNode _).bind
  intro _
  split
  · exact neutral_pure _
  · exact neutral_append plan text

theorem neutral_requireOpen (target : Context) :
    Neutral (requireOpen target : Expand σ₁ (κ × List Reply) Unit)
      (requireOpen target : Expand σ₂ κ Unit) :=
  fun s => ⟨_, _, exec_requireOpen target s, rfl, rfl, fun _ => exec_requireOpen target _⟩

theorem neutral_writeTo (plan : Plan κ) (target : Context) (text : Datum) :
    Neutral (writeTo plan.watched target text : Expand σ₁ _ Unit)
      (writeTo plan target text : Expand σ₂ κ Unit) := by
  apply (neutral_requireOpen target).bind
  intro _
  cases text with
  | str text => exact neutral_emit plan text _
  | _ => exact neutral_throw _

/-! ### Retraced actions

The runs are followed from their end to their start.  The log only grows, so it is the log at the
end that tells whether all replies were fine.
-/

/-- The second state is the first one without its log, and their sources go together. -/
def InStep (Agree : List Reply → σ₁ → σ₂ → Prop) (s₁ : Expansion σ₁ (κ × List Reply))
    (s₂ : Expansion σ₂ κ) : Prop :=
  ∃ source, Agree s₁.user.2 s₁.source source ∧ s₂ = s₁.retold source

/-- Whatever goes with the end of the watched action is the end of the other action from a state
that goes with the start. -/
def Retraces (tolerant : Prop) (Agree : List Reply → σ₁ → σ₂ → Prop)
    (a₁ : Expand σ₁ (κ × List Reply) α) (a₂ : Expand σ₂ κ α) : Prop :=
  ∀ ⦃s₁ outcome t₁ t₂⦄, a₁.exec s₁ = (outcome, t₁) → (tolerant ∨ ∃ a, outcome = .ok a) →
    InStep Agree t₁ t₂ → ∃ s₂, InStep Agree s₁ s₂ ∧ a₂.exec s₂ = (outcome, t₂)

variable {tolerant : Prop} {Agree : List Reply → σ₁ → σ₂ → Prop}

theorem Neutral.retraces (h : Neutral a₁ a₂) : Retraces tolerant Agree a₁ a₂ := by
  rintro s₁ outcome t₁ _ ran _ ⟨x, agree, rfl⟩
  obtain ⟨outcome', t, ran', source_eq, user_eq, again⟩ := h s₁
  rw [ran] at ran'
  cases ran'
  rw [source_eq, user_eq] at agree
  exact ⟨s₁.retold x, ⟨x, agree, rfl⟩, again x⟩

theorem Retraces.bind (first : Retraces tolerant Agree a₁ a₂)
    (second : ∀ a, Retraces tolerant Agree (k₁ a) (k₂ a)) :
    Retraces tolerant Agree (a₁ >>= k₁) (a₂ >>= k₂) := by
  intro s₁ outcome t₁ t₂ ran good inStep
  rcases ranFirst : a₁.exec s₁ with ⟨fault | a, u₁⟩
  · rw [exec_bind_of_error ranFirst] at ran
    cases ran
    obtain tolerated | ⟨_, ⟨⟩⟩ := good
    obtain ⟨s₂, start, again⟩ := first ranFirst (.inl tolerated) inStep
    exact ⟨s₂, start, exec_bind_of_error again⟩
  · rw [exec_bind_of_ok ranFirst] at ran
    obtain ⟨u₂, middle, againOn⟩ := second a ran good inStep
    obtain ⟨s₂, start, again⟩ := first ranFirst (.inr ⟨a, rfl⟩) middle
    refine ⟨s₂, start, ?_⟩
    rw [exec_bind_of_ok again, againOn]

/-- Changes of state that are the same and concern neither source nor log. -/
def Parallel (f₁ : Expansion σ₁ (κ × List Reply) → Expansion σ₁ (κ × List Reply))
    (f₂ : Expansion σ₂ κ → Expansion σ₂ κ) : Prop :=
  ∀ s, (f₁ s).source = s.source ∧ (f₁ s).user = s.user ∧
    ∀ x, f₂ (s.retold x) = (f₁ s).retold x

variable {f₁ : Expansion σ₁ (κ × List Reply) → Expansion σ₁ (κ × List Reply)}
  {f₂ : Expansion σ₂ κ → Expansion σ₂ κ}

theorem Parallel.retraces (parallel : Parallel f₁ f₂) :
    Retraces tolerant Agree (modify f₁ : Expand _ _ PUnit) (modify f₂ : Expand _ _ PUnit) := by
  apply Neutral.retraces
  intro s
  obtain ⟨source_eq, user_eq, same⟩ := parallel s
  exact ⟨.ok ⟨⟩, f₁ s, rfl, source_eq, user_eq, fun x => by rw [exec_modify, same]⟩

theorem Retraces.leaving (h : Retraces tolerant Agree a₁ a₂) (parallel : Parallel f₁ f₂) :
    Retraces tolerant Agree (leaving f₁ a₁) (leaving f₂ a₂) := by
  rintro s₁ outcome t₁ _ ran good ⟨x, agree, rfl⟩
  rcases ranInside : a₁.exec s₁ with ⟨outcome', u₁⟩
  rw [exec_leaving, ranInside] at ran
  cases ran
  obtain ⟨source_eq, user_eq, same⟩ := parallel u₁
  rw [source_eq, user_eq] at agree
  obtain ⟨s₂, start, again⟩ := h ranInside good ⟨x, agree, rfl⟩
  refine ⟨s₂, start, ?_⟩
  rw [exec_leaving, again, same]

theorem retraces_forM {act₁ : Rule → Expand σ₁ (κ × List Reply) Unit}
    {act₂ : Rule → Expand σ₂ κ Unit} (items : List Rule)
    (each : ∀ item, Retraces tolerant Agree (act₁ item) (act₂ item)) :
    Retraces tolerant Agree (items.forM act₁) (items.forM act₂) := by
  induction items with
  | nil => exact (neutral_pure _).retraces
  | cons item rest ih => exact (each item).bind fun _ => ih

variable {plan : Plan κ} {expandOne₁ : Rule → Option NodeId → Expand σ₁ (κ × List Reply) Unit}
  {expandOne₂ : Rule → Option NodeId → Expand σ₂ κ Unit}

theorem retraces_expandIn
    (each : ∀ rule parent,
      Retraces tolerant Agree (expandOne₁ rule parent) (expandOne₂ rule parent))
    (target : Context) :
    Retraces tolerant Agree (expandIn plan.watched expandOne₁ target)
      (expandIn plan expandOne₂ target) := by
  apply (neutral_requireOpen target).retraces.bind
  intro _
  apply (neutral_lift _).retraces.bind
  intro body
  exact each body _

theorem retraces_nested {a₁ : Expand σ₁ (κ × List Reply) Unit} {a₂ : Expand σ₂ κ Unit}
    (h : Retraces tolerant Agree a₁ a₂) :
    Retraces tolerant Agree (nested plan.watched a₁) (nested plan a₂) := by
  intro s₁ outcome t₁ t₂ ran good inStep
  rw [exec_nested] at ran
  split at ran
  next entered =>
    rcases ranInside : a₁.exec { s₁ with depth := s₁.depth + 1 } with ⟨outcome', u₁⟩
    rw [ranInside] at ran
    cases ran
    obtain ⟨x, agree, rfl⟩ := inStep
    obtain ⟨_, ⟨y, start, rfl⟩, again⟩ := h ranInside good ⟨x, agree, rfl⟩
    refine ⟨s₁.retold y, ⟨y, start, rfl⟩, ?_⟩
    have repeated : a₂.exec { s₁.retold y with depth := (s₁.retold y).depth + 1 } = _ := again
    have enteredAgain :
      levelOutcome plan ((s₁.retold y).depth + 1) (s₁.retold y).productions = .ok () := entered
    rw [exec_nested, enteredAgain]
    simp only [repeated]
    rfl
  next fault refused =>
    cases ran
    obtain ⟨x, agree, rfl⟩ := inStep
    have refusedAgain :
      levelOutcome plan ((s₁.retold x).depth + 1) (s₁.retold x).productions = .error fault :=
        refused
    refine ⟨s₁.retold x, ⟨x, agree, rfl⟩, ?_⟩
    rw [exec_nested, refusedAgain]

variable [DecisionSource σ₁] [DecisionSource σ₂]

/-- A question whose answer counts only as the engine takes it, and is refused if it cannot be
repeated. -/
theorem retraces_ask {k₁ : Datum → Expand σ₁ (κ × List Reply) β} {k₂ : Datum → Expand σ₂ κ β}
    (h : Retells tolerant Agree) (q : Question)
    (settled : ∀ answer, k₂ (q.settled answer) = k₂ answer)
    (repeatable : ∀ {answer s b t}, (k₁ answer).exec s = (.ok b, t) → q.Repeatable answer)
    (next : ∀ answer, Retraces tolerant Agree (k₁ answer) (k₂ answer)) :
    Retraces tolerant Agree (ask q >>= k₁) (ask q >>= k₂) := by
  intro s₁ outcome t₁ t₂ ran good inStep
  rcases asked : DecisionSource.ask q s₁.source with ⟨fault | answer, y₁⟩
  · rw [exec_bind_of_error (exec_ask_of_eq asked)] at ran
    cases ran
    obtain ⟨y₂, agree, rfl⟩ := inStep
    obtain tolerated | ⟨_, ⟨⟩⟩ := good
    obtain ⟨x₂, again, start, askedAgain, same⟩ := h.asked (.inl tolerated) asked agree
    obtain rfl : again = .error fault := same.resolve_right fun ⟨strict, _⟩ => strict tolerated
    have repeated : DecisionSource.ask q (s₁.retold x₂).source = _ := askedAgain
    exact ⟨s₁.retold x₂, ⟨x₂, start, rfl⟩, exec_bind_of_error (exec_ask_of_eq repeated)⟩
  · rw [exec_bind_of_ok (exec_ask_of_eq asked)] at ran
    obtain ⟨_, ⟨y₂, agree, rfl⟩, ranOn⟩ := next answer ran good inStep
    have kept : tolerant ∨ q.Repeatable answer :=
      good.imp_right fun ⟨_, done⟩ => repeatable (ran.trans (by rw [done]))
    obtain ⟨x₂, again, start, askedAgain, same⟩ := 
      h.asked (kept.imp_right fun can => ⟨answer, rfl, can⟩) asked agree
    have repeated : DecisionSource.ask q (s₁.retold x₂).source = _ := askedAgain
    refine ⟨s₁.retold x₂, ⟨x₂, start, rfl⟩, ?_⟩
    obtain rfl | ⟨_, rfl⟩ := same
    · rw [exec_bind_of_ok (exec_ask_of_eq repeated)]
      exact ranOn
    · have repeated : _ = (Except.ok (q.settled answer), y₂) := repeated
      rw [exec_bind_of_ok (exec_ask_of_eq repeated), settled]
      exact ranOn

theorem run_perform_note (reply : Reply) (rest : Program (κ × List Reply) α)
    (s : Expansion σ₁ (κ × List Reply)) :
    (perform plan.watched expandOne₁ (.note reply rest)).run s =
      (perform plan.watched expandOne₁ rest).run
        { s with user := (s.user.1, s.user.2 ++ [reply]) } := rfl

/-- The watched program is retraced with whatever result, because its log tells of every fault. -/
theorem retraces_perform (h : Retells tolerant Agree)
    (each : ∀ rule parent,
      Retraces tolerant Agree (expandOne₁ rule parent) (expandOne₂ rule parent))
    (program : Program κ α) {s₁ t₁ : Expansion σ₁ (κ × List Reply)} {t₂ : Expansion σ₂ κ} {a : α}
    (ran : (perform plan.watched expandOne₁ program.watched).run s₁ = (a, t₁))
    (inStep : InStep Agree t₁ t₂) :
    ∃ s₂, InStep Agree s₁ s₂ ∧ (perform plan expandOne₂ program).run s₂ = (a, t₂) := by
  induction program generalizing s₁ with
  | done result =>
    cases ran
    exact ⟨t₂, inStep, rfl⟩
  | write target text next ih =>
    rcases wrote : (writeTo plan.watched target text).exec s₁ with ⟨result, u₁⟩
    rw [Program.watched, run_perform_write, wrote, run_perform_note] at ran
    obtain ⟨_, ⟨x, agree, rfl⟩, again⟩ := ih result ran
    obtain ⟨before, fine⟩ := h.noted agree
    obtain ⟨s₂, start, wroteAgain⟩ :=
      (neutral_writeTo plan target text).retraces wrote (fine.imp_right fun ok => ⟨(), ok.1⟩)
        ⟨x, before, rfl⟩
    refine ⟨s₂, start, ?_⟩
    rw [run_perform_write, wroteAgain]
    exact again
  | expand target next ih =>
    rcases expanded : (expandIn plan.watched expandOne₁ target).exec s₁ with ⟨result, u₁⟩
    rw [Program.watched, run_perform_expand, expanded, run_perform_note] at ran
    obtain ⟨_, ⟨x, agree, rfl⟩, again⟩ := ih result ran
    obtain ⟨before, fine⟩ := h.noted agree
    obtain ⟨s₂, start, expandedAgain⟩ :=
      retraces_expandIn each target expanded (fine.imp_right fun ok => ⟨(), ok.1⟩)
        ⟨x, before, rfl⟩
    refine ⟨s₂, start, ?_⟩
    rw [run_perform_expand, expandedAgain]
    exact again
  | ask question next ih =>
    rcases asked : DecisionSource.ask question s₁.source with ⟨result, y₁⟩
    rw [Program.watched, run_perform_ask, exec_ask_of_eq asked, run_perform_note] at ran
    obtain ⟨_, ⟨y₂, agree, rfl⟩, again⟩ := ih result ran
    obtain ⟨before, fine⟩ := h.noted agree
    have kept : tolerant ∨ ∃ answer, result = .ok answer ∧ question.Repeatable answer :=
      fine.imp_right fun ⟨served, offered⟩ => served.repeatable offered
    obtain ⟨x₂, result', start, askedAgain, same⟩ := h.asked kept asked before
    have result_eq : result' = result := by
      obtain same | ⟨strict, settled⟩ := same
      · exact same
      · obtain ⟨answer, rfl, declared⟩ := (fine.resolve_left strict).1
        rw [settled, Except.map, Question.settled_of_declares declared]
    rw [result_eq] at askedAgain
    have repeated : DecisionSource.ask question (s₁.retold x₂).source = _ := askedAgain
    refine ⟨s₁.retold x₂, ⟨x₂, start, rfl⟩, ?_⟩
    rw [run_perform_ask, exec_ask_of_eq repeated]
    exact again
  | look next ih =>
    obtain ⟨_, ⟨x, agree, rfl⟩, again⟩ := ih _ ran
    exact ⟨s₁.retold x, ⟨x, agree, rfl⟩, again⟩
  | store user next ih =>
    obtain ⟨_, ⟨x, agree, rfl⟩, again⟩ := ih ran
    exact ⟨s₁.retold x, ⟨x, agree, rfl⟩, again⟩

theorem retraces_replace (h : Retells tolerant Agree)
    (each : ∀ rule parent,
      Retraces tolerant Agree (expandOne₁ rule parent) (expandOne₂ rule parent))
    (callback : Callback κ) (target : Context) :
    Retraces tolerant Agree (replace plan.watched expandOne₁ callback.watched target)
      (replace plan expandOne₂ callback target) := by
  refine (Parallel.retraces ?_).bind fun _ => Retraces.leaving ?_ ?_
  · exact fun s => ⟨rfl, rfl, fun _ => rfl⟩
  · intro s₁ outcome t₁ t₂ ran _ inStep
    exact retraces_perform h each _ ran inStep
  · exact fun s => ⟨rfl, rfl, fun _ => rfl⟩

theorem repeatable_of_memberOf {members : CharacterClass} {name : String} {answer : Datum}
    {codepoint : Nat} (h : memberOf members name answer = .ok codepoint) :
    (Question.codepoint (.ofClass members)).Repeatable answer := by
  obtain ⟨rfl, member⟩ := memberOf_ok h
  exact ⟨rfl, Candidates.contains_of_mem member⟩

theorem retraces_step (h : Retells tolerant Agree)
    (each : ∀ rule parent,
      Retraces tolerant Agree (expandOne₁ rule parent) (expandOne₂ rule parent))
    (rule : Rule) (parent : Option NodeId) :
    Retraces tolerant Agree (step plan.watched expandOne₁ rule parent)
      (step plan expandOne₂ rule parent) := by
  cases rule with
  | literal text => exact (neutral_emit plan text parent).retraces
  | sequence items =>
    apply (neutral_addNode _).retraces.bind
    intro id
    exact retraces_forM items fun item => each item (some id)
  | alternative items =>
    refine retraces_ask h _ (fun _ => rfl) (fun _ => trivial) fun answer => ?_
    apply (neutral_lift _).retraces.bind
    rintro ⟨index, item⟩
    exact (neutral_addNode _).retraces.bind fun id => each item (some id)
  | optional item =>
    refine retraces_ask h _ (fun _ => rfl) (fun _ => trivial) fun answer => ?_
    apply (neutral_addNode _).retraces.bind
    intro id
    split
    · exact each item (some id)
    · exact (neutral_pure _).retraces
  | repetition item bounds =>
    apply neutral_nextSite.retraces.bind
    intro site
    refine retraces_ask h _ (fun _ => rfl) (fun _ => trivial) fun answer => ?_
    apply (neutral_lift _).retraces.bind
    intro count
    apply (neutral_addNode _).retraces.bind
    intro id
    rw [times_eq_forM fun item => expandOne₁ item (some id),
      times_eq_forM fun item => expandOne₂ item (some id)]
    exact retraces_forM _ fun item => each item (some id)
  | nonTerminal name =>
    apply (neutral_lift _).retraces.bind
    intro body
    apply (neutral_addNode _).retraces.bind
    intro id
    refine (Parallel.retraces ?_).bind fun _ => Retraces.leaving ?_ ?_
    · exact fun s => ⟨rfl, rfl, fun _ => rfl⟩
    · have found : plan.watched.replacements.find? name = _ :=
        plan.replacements.find?_map Callback.watched name
      rw [found]
      cases plan.replacements.find? name with
      | none => exact each body (some id)
      | some callback =>
        apply neutral_ownCall.retraces.bind
        intro call
        exact retraces_replace h each callback ⟨call, id, name⟩
    · exact fun s => ⟨rfl, rfl, fun _ => rfl⟩
  | characters set =>
    apply (neutral_lift _).retraces.bind
    intro members
    refine retraces_ask h _ (fun _ => rfl) ?_ fun answer => ?_
    · intro answer s b t done
      obtain ⟨codepoint, u, chosen, _⟩ := exec_bind_ok.mp done
      exact repeatable_of_memberOf (lift_ok chosen).1
    · apply (neutral_lift _).retraces.bind
      intro codepoint
      apply (neutral_addNode _).retraces.bind
      intro id
      exact (neutral_append plan _).retraces
  | stray value => exact (neutral_throw _).retraces

/-- Expanding a rule with watched callbacks is retraced by expanding it with the callbacks. -/
theorem retraces_expand (h : Retells tolerant Agree) (plan : Plan κ) (fuel : Nat) (rule : Rule)
    (parent : Option NodeId) :
    Retraces tolerant Agree (expand plan.watched fuel rule parent)
      (expand plan fuel rule parent) := by
  induction fuel generalizing rule parent with
  | zero => exact (neutral_throw _).retraces
  | succ fuel ih => exact retraces_nested (retraces_step h ih rule parent)

end Expand

end SentenceGen
