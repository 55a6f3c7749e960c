import SentenceGen.Proofs.Calls

/-!
# Names on both sides

Including a grammar stops at the first name that the builder has already, and what was copied before
stays.  Rules that are given to a name later are never refused, so a name that comes from both sides
is noticed only if the grammar with it is included last.
-/

namespace SentenceGen

namespace Builder

variable {b : Builder} {call : Call} {calls : List Call} {name : String}

theorem defines_append_alone (b : Builder) (entries : List (String × Rule)) (name : String) :
    defines { b with pending := b.pending ++ entries.map alone } name = true ↔
      b.defines name = true ∨ name ∈ entries.map (·.1) := by
  have names : (entries.map alone).map (·.1) = entries.map (·.1) := by
    rw [List.map_map]
    rfl
  rw [defines_iff, defines_iff, List.map_append, List.mem_append, names]

/-- Productions with new names are copied one and all. -/
theorem copy_append {before : List (String × Rule)} (distinct : (before.map (·.1)).Nodup)
    (fresh : ∀ entry ∈ before, b.defines entry.1 = false) (rest : List (String × Rule)) :
    copy (before ++ rest) b = copy rest { b with pending := b.pending ++ before.map alone } := by
  induction before generalizing b with
  | nil =>
    rw [List.map_nil, List.append_nil]
    rfl
  | cons entry tail ih =>
    obtain ⟨new, distinct⟩ := List.nodup_cons.mp distinct
    obtain ⟨first, others⟩ := List.forall_mem_cons.mp fresh
    have untaken : ¬ b.defines entry.1 = true := Bool.eq_false_iff.mp first
    have further : ∀ other ∈ tail,
        defines { b with pending := b.pending ++ [entry].map alone } other.1 = false := by
      intro other listed
      refine Bool.eq_false_iff.mpr fun taken => ?_
      rcases (defines_append_alone b [entry] other.1).mp taken with before | same
      · exact Bool.eq_false_iff.mp (others other listed) before
      · have again : other.1 ∈ tail.map (·.1) := List.mem_map_of_mem listed
        rw [List.mem_singleton.mp same] at again
        exact new again
    rw [List.cons_append, copy, if_neg untaken]
    refine (ih distinct further).trans ?_
    simp only [List.map_cons, List.map_nil, List.append_assoc, List.singleton_append]

/-- All productions are copied, or those before the first one whose name the builder has. -/
theorem inclusion_cases (b : Builder) {g : Grammar} (built : g.Built) :
    (∀ entry ∈ g.productions, b.defines entry.1 = false) ∧
        b.includeGrammar g =
          (.ok (), { b with pending := b.pending ++ g.productions.map alone }) ∨
      ∃ before entry rest, g.productions = before ++ entry :: rest ∧
        (∀ entry ∈ before, b.defines entry.1 = false) ∧ b.defines entry.1 = true ∧
        b.includeGrammar g =
          (.error (.duplicateProduction (.str entry.1)),
            { b with pending := b.pending ++ before.map alone }) := by
  have distinct := built.distinct
  cases clash : g.productions.find? fun entry => b.defines entry.1 with
  | none =>
    have fresh : ∀ entry ∈ g.productions, b.defines entry.1 = false := by
      intro entry listed
      exact Bool.eq_false_iff.mpr (List.find?_eq_none.mp clash entry listed)
    have copied := copy_append distinct fresh []
    rw [List.append_nil] at copied
    exact .inl ⟨fresh, copied⟩
  | some entry =>
    obtain ⟨taken, before, rest, split, fresh⟩ := List.find?_eq_some_iff_append.mp clash
    have fresh : ∀ entry ∈ before, b.defines entry.1 = false :=
      fun entry listed => by simpa using fresh entry listed
    rw [split, List.map_append] at distinct
    have copied := copy_append (List.nodup_append.mp distinct).1 fresh (entry :: rest)
    have still : defines { b with pending := b.pending ++ before.map alone } entry.1 = true :=
      (defines_append_alone b before entry.1).mpr (.inl taken)
    rw [copy, if_pos still, ← split] at copied
    exact .inr ⟨before, entry, rest, split, fresh, taken, copied⟩

/-- What was copied shows in the grammar that is built. -/
theorem build_append_alone_iff {whole : Grammar} (built : b.build = .ok whole)
    (entries : List (String × Rule)) :
    build { b with pending := b.pending ++ entries.map alone } = .ok whole ↔ entries = [] := by
  constructor
  · intro same
    obtain ⟨_, rfl, _⟩ := build_ok built
    obtain ⟨_, bodies_eq, _⟩ := build_ok same
    have lengths := congrArg (fun g : Grammar => g.productions.length) bodies_eq
    simpa [bodies] using lengths
  · rintro rfl
    rw [List.map_nil, List.append_nil]
    exact built

/-- A built grammar is included as a whole if the builder has none of its names.  Otherwise it is
included up to the first name that the builder has, and the builder is as it was only if that is the
first name of all. -/
theorem inclusion_stops (b : Builder) {g : Grammar} (built : g.Built) :
    (∀ entry ∈ g.productions, b.defines entry.1 = false) ∧
        b.includeGrammar g =
          (.ok (), { b with pending := b.pending ++ g.productions.map alone }) ∨
      ∃ before name body rest, g.productions = before ++ (name, body) :: rest ∧
        (∀ entry ∈ before, b.defines entry.1 = false) ∧ b.defines name = true ∧
        b.includeGrammar g =
          (.error (.duplicateProduction (.str name)),
            { b with pending := b.pending ++ before.map alone }) ∧
        ((b.includeGrammar g).2 = b ↔ before = []) ∧
        ∀ whole, b.build = .ok whole →
          ((b.includeGrammar g).2.build = .ok whole ↔ before = []) := by
  rcases inclusion_cases b built with whole | ⟨before, entry, rest, split, fresh, taken, stopped⟩
  · exact .inl whole
  · refine .inr ⟨before, entry.1, entry.2, rest, split, fresh, taken, stopped, ?_, ?_⟩
    · rw [stopped]
      constructor
      · intro same
        have pending := congrArg Builder.pending same
        exact List.map_eq_nil_iff.mp (List.append_right_eq_self.mp pending)
      · rintro rfl
        rw [List.map_nil, List.append_nil]
    · intro whole built
      rw [stopped]
      exact build_append_alone_iff built before

/-- Two productions without references. -/
def letters : Grammar where
  name := "a"
  start := "a"
  productions := [("a", .literal "y"), ("b", .literal "z")]
  registry := .standard

theorem letters_built : letters.Built := by
  refine ⟨"a", none, .standard,
    [.production "a" [.literal "y"], .production "b" [.literal "z"]], build_of_checked rfl ?_⟩
  simp [after, perform, production, append, new, bodies, bodyOf, Rule.walk, Rule.walkFrom,
    Rule.children, checkRule, Rule.stray?]

/-- A builder that has the second letter already. -/
def secondLetter : Builder := (new "b" none .standard).after [.production "b" [.literal "x"]]

theorem secondLetter_inclusion_stops :
    letters.Built ∧ ∃ before name body rest, letters.productions = before ++ (name, body) :: rest ∧
      secondLetter.defines name = true ∧
        ((secondLetter.includeGrammar letters).2 = secondLetter ↔ before = []) := by
  refine ⟨letters_built, ?_⟩
  rcases inclusion_stops secondLetter letters_built with ⟨fresh, _⟩ |
    ⟨before, name, body, rest, split, _, taken, _, same, _⟩
  · have has : secondLetter.defines "b" = true := rfl
    have lacks : secondLetter.defines "b" = false := fresh ("b", .literal "z") (by simp [letters])
    cases has.symm.trans lacks
  · exact ⟨before, name, body, rest, split, taken, same⟩

/-- The second letter is refused when the first one has been copied, and the first one stays. -/
theorem secondLetter_half_included :
    letters.Built ∧
      (secondLetter.includeGrammar letters).1 = .error (.duplicateProduction (.str "b")) ∧
      secondLetter.pending = [("b", [.literal "x"])] ∧
      (secondLetter.includeGrammar letters).2.pending =
        [("b", [.literal "x"]), ("a", [.literal "y"])] ∧
      ∃ whole other, secondLetter.build = .ok whole ∧
        (secondLetter.includeGrammar letters).2.build = .ok other ∧
        whole.size = 1 ∧ other.size = 2 := by
  have left : (secondLetter.includeGrammar letters).2.pending =
      [("b", [.literal "x"]), ("a", [.literal "y"])] := rfl
  refine ⟨letters_built, rfl, rfl, left, _, _, build_of_checked rfl ?_, build_of_checked rfl ?_,
    rfl, rfl⟩
  · simp [secondLetter, after, perform, production, append, new, bodies, bodyOf, Rule.walk,
      Rule.walkFrom, Rule.children, checkRule, Rule.stray?]
  · simp [bodies, left, bodyOf, Rule.walk, Rule.walkFrom, Rule.children, checkRule]

/-! ### Whether a name on both sides is noticed -/

/-- The call gives rules to a name, or includes a grammar that has it. -/
def Call.Gives (name : String) : Call → Prop
  | .production given rules => name = given ∧ Acceptable rules
  | .inclusion g => g.defines name = true

/-- The later call includes a grammar with a name that the earlier one gives. -/
def Call.Collides (earlier later : Call) : Prop :=
  ∃ g name, later = .inclusion g ∧ earlier.Gives name ∧ g.defines name = true

/-- The call includes a grammar with a name that the builder has. -/
def Meets (b : Builder) (call : Call) : Prop :=
  ∃ g name, call = .inclusion g ∧ b.defines name = true ∧ g.defines name = true

/-- A name is noticed to be defined already. -/
def Noticed (outcome : Except Fault Unit) : Prop :=
  ∃ name, outcome = .error (.duplicateProduction (.str name))

theorem inclusion_of_noticed (noticed : Noticed (b.perform call).1) : ∃ g, call = .inclusion g := by
  cases call with
  | inclusion g => exact ⟨g, rfl⟩
  | production name rules =>
    obtain ⟨taken, noticed⟩ := noticed
    rcases b.perform_production name rules with ⟨_, accepted⟩ | ⟨_, fault, refused, other⟩
    · rw [accepted] at noticed
      cases noticed
    · rw [refused] at noticed
      exact absurd (Except.error.inj noticed) (other _)

theorem noticed_perform_iff (built : ∀ g, call = .inclusion g → g.Built) :
    Noticed (b.perform call).1 ↔ b.Meets call := by
  cases call with
  | production name rules =>
    constructor
    · intro noticed
      obtain ⟨_, ⟨⟩⟩ := inclusion_of_noticed noticed
    · rintro ⟨_, _, ⟨⟩, _⟩
  | inclusion g =>
    rcases inclusion_cases b (built g rfl) with ⟨fresh, included⟩ |
      ⟨before, entry, rest, split, _, taken, stopped⟩
    · rw [perform, included]
      constructor
      · rintro ⟨_, ⟨⟩⟩
      · rintro ⟨_, name, ⟨⟩, taken, defined⟩
        obtain ⟨entry, listed, rfl⟩ := List.mem_map.mp (Grammar.defines_iff.mp defined)
        exact absurd taken (Bool.eq_false_iff.mp (fresh entry listed))
    · rw [perform, stopped]
      have listed : entry ∈ g.productions := split ▸ List.mem_append_right _ List.mem_cons_self
      have defined := Grammar.defines_iff.mpr (List.mem_map_of_mem listed)
      exact ⟨fun _ => ⟨g, entry.1, rfl, taken, defined⟩, fun _ => ⟨entry.1, rfl⟩⟩

theorem defines_perform (built : ∀ g, call = .inclusion g → g.Built)
    (unnoticed : ¬ Noticed (b.perform call).1) :
    (b.perform call).2.defines name = true ↔ b.defines name = true ∨ call.Gives name := by
  cases call with
  | production given rules =>
    rcases b.perform_production given rules with ⟨acceptable, taken⟩ | ⟨not, _, refused, _⟩
    · have names : name ∈ (append given rules b.pending).map (·.1) ↔
          name ∈ b.pending.map (·.1) ∨ name = given := by
        rw [map_fst_append]
        split
        next known => exact ⟨.inl, fun h => h.elim id fun same => same ▸ known⟩
        next => rw [List.mem_append, List.mem_singleton]
      rw [taken, defines_iff, defines_iff, names, Call.Gives, and_iff_left acceptable]
    · rw [refused, Call.Gives]
      exact ⟨.inl, fun h => h.resolve_right fun gives => not gives.2⟩
  | inclusion g =>
    rcases inclusion_cases b (built g rfl) with ⟨_, included⟩ | ⟨_, other, _, _, _, _, stopped⟩
    · rw [perform, included, Call.Gives, Grammar.defines_iff]
      exact defines_append_alone b g.productions name
    · rw [perform, stopped] at unnoticed
      exact absurd ⟨other.1, rfl⟩ unnoticed

theorem meets_perform_iff {later : Call} (built : ∀ g, call = .inclusion g → g.Built)
    (unnoticed : ¬ Noticed (b.perform call).1) :
    (b.perform call).2.Meets later ↔ b.Meets later ∨ call.Collides later := by
  constructor
  · rintro ⟨g, name, rfl, taken, defined⟩
    rcases (defines_perform built unnoticed).mp taken with before | gives
    · exact .inl ⟨g, name, rfl, before, defined⟩
    · exact .inr ⟨g, name, rfl, gives, defined⟩
  · rintro (⟨g, name, rfl, before, defined⟩ | ⟨g, name, rfl, gives, defined⟩)
    · exact ⟨g, name, rfl, (defines_perform built unnoticed).mpr (.inl before), defined⟩
    · exact ⟨g, name, rfl, (defines_perform built unnoticed).mpr (.inr gives), defined⟩

/-- Some name is noticed if the builder has it when a call comes, or if calls collide. -/
theorem exists_noticed_iff (built : ∀ g, .inclusion g ∈ calls → g.Built) :
    (∃ outcome ∈ b.outcomes calls, Noticed outcome) ↔
      (∃ call ∈ calls, b.Meets call) ∨
        ∃ earlier later, [earlier, later].Sublist calls ∧ earlier.Collides later := by
  induction calls generalizing b with
  | nil => simp [outcomes]
  | cons call rest ih =>
    have first : ∀ g, call = .inclusion g → g.Built :=
      fun g same => built g (same ▸ List.mem_cons_self)
    have now : Noticed (b.perform call).1 ↔ b.Meets call := noticed_perform_iff first
    have further := ih (b := (b.perform call).2) fun g listed =>
      built g (List.mem_cons_of_mem _ listed)
    by_cases noticed : Noticed (b.perform call).1
    · refine ⟨fun _ => .inl ⟨call, List.mem_cons_self, now.mp noticed⟩, fun _ => ?_⟩
      exact ⟨_, List.mem_cons_self, noticed⟩
    · rw [outcomes, List.exists_mem_cons_iff, or_iff_right noticed, further]
      constructor
      · rintro (⟨later, listed, found⟩ | ⟨earlier, later, both, collide⟩)
        · rcases (meets_perform_iff first noticed).mp found with before | collide
          · exact .inl ⟨later, List.mem_cons_of_mem _ listed, before⟩
          · exact .inr ⟨call, later, (List.singleton_sublist.mpr listed).cons_cons call, collide⟩
        · exact .inr ⟨earlier, later, both.cons call, collide⟩
      · rintro (⟨later, listed, found⟩ | ⟨earlier, later, both, collide⟩)
        · rcases List.mem_cons.mp listed with rfl | listed
          · exact absurd (now.mpr found) noticed
          · exact .inl ⟨later, listed, (meets_perform_iff first noticed).mpr (.inl found)⟩
        · cases both with
          | cons _ both => exact .inr ⟨earlier, later, both, collide⟩
          | cons_cons _ alone =>
            have listed := List.singleton_sublist.mp alone
            exact .inl ⟨later, listed, (meets_perform_iff first noticed).mpr (.inr collide)⟩

/-- From a new builder on, a name is noticed exactly if a grammar with it is included after a call
that gives it.  It is always the inclusion that fails; rules that come later are just more rules. -/
theorem noticed_iff_collides (start : String) (given : Option String) (registry : Registry)
    (built : ∀ g, .inclusion g ∈ calls → g.Built) :
    let b := new start given registry
    ((∃ outcome ∈ b.outcomes calls, Noticed outcome) ↔
        ∃ earlier later, [earlier, later].Sublist calls ∧ earlier.Collides later) ∧
      ∀ entry ∈ calls.zip (b.outcomes calls), Noticed entry.2 → ∃ g, entry.1 = .inclusion g := by
  intro b
  constructor
  · have unmet : ¬ ∃ call ∈ calls, b.Meets call := by
      rintro ⟨_, _, _, _, _, taken, _⟩
      cases taken
    rw [exists_noticed_iff built, or_iff_right unmet]
  · clear built
    generalize b = b
    induction calls generalizing b with
    | nil =>
      intro entry listed
      rw [List.zip_nil_left] at listed
      exact absurd listed List.not_mem_nil
    | cons call rest ih =>
      refine List.forall_mem_cons.mpr ⟨inclusion_of_noticed, ?_⟩
      exact ih _

def digits : Grammar where
  name := "digit"
  start := "digit"
  productions := [("digit", .literal "0")]
  registry := .standard

theorem digits_built : digits.Built := by
  refine ⟨"digit", none, .standard, [.production "digit" [.literal "0"]], build_of_checked rfl ?_⟩
  simp [after, perform, production, append, new, bodies, bodyOf, Rule.walk, Rule.walkFrom,
    Rule.children, checkRule, Rule.stray?]

theorem digits_noticed :
    let calls : List Call := [.production "digit" [.literal "1"], .inclusion digits]
    (∀ g, .inclusion g ∈ calls → g.Built) ∧
      ∃ outcome ∈ (new "digit" none .standard).outcomes calls, Noticed outcome := by
  intro calls
  have built : ∀ g, .inclusion g ∈ calls → g.Built := by
    intro g listed
    obtain rfl : g = digits := by simpa [calls] using listed
    exact digits_built
  have collide : Call.Collides (.production "digit" [.literal "1"]) (.inclusion digits) :=
    ⟨digits, "digit", rfl, ⟨rfl, rfl, rfl⟩, rfl⟩
  have noticed := (noticed_iff_collides "digit" none .standard built).1
  exact ⟨built, noticed.mpr ⟨_, _, .refl _, collide⟩⟩

/-- In the other order nothing is noticed, and the included production has one rule more. -/
theorem digits_unnoticed :
    let calls : List Call := [.inclusion digits, .production "digit" [.literal "1"]]
    digits.Built ∧ digits.defines "digit" = true ∧
      (∀ outcome ∈ (new "digit" none .standard).outcomes calls, ¬ Noticed outcome) ∧
      ((new "digit" none .standard).after calls).pending =
        [("digit", [.literal "0", .literal "1"])] := by
  intro calls
  have accepted : (new "digit" none .standard).outcomes calls = [.ok (), .ok ()] := rfl
  refine ⟨digits_built, rfl, ?_, rfl⟩
  rw [accepted]
  simp [Noticed]

end Builder

end SentenceGen
