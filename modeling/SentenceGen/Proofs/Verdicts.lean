import SentenceGen.Proofs.Calls

/-!
# Which grammars are built

A grammar is built if its start and all names in its bodies resolve, and every character set has a
member.  The builder visits the productions in the order in which they were mentioned first, and
each body in preorder, so what it raises is about the first rule that does not resolve.
-/

namespace SentenceGen

theorem exists_split_cons {α : Type} {P : List α → α → Prop} {first : α} {rest : List α} :
    (∃ before item after, first :: rest = before ++ item :: after ∧ P before item) ↔
      P [] first ∨
        ∃ before item after, rest = before ++ item :: after ∧ P (first :: before) item := by
  constructor
  · rintro ⟨before, item, after, split, holds⟩
    cases before with
    | nil =>
      obtain ⟨rfl, _⟩ := List.cons.inj split
      exact .inl holds
    | cons other before =>
      obtain ⟨rfl, rfl⟩ := List.cons.inj split
      exact .inr ⟨before, item, after, rfl, holds⟩
  · rintro (holds | ⟨before, item, after, rfl, holds⟩)
    · exact ⟨[], first, rest, rfl, holds⟩
    · exact ⟨first :: before, item, after, rfl, holds⟩

/-- A check of all items fails with the fault of the first item that fails. -/
theorem forM_eq_error {α : Type} {items : List α} {check : α → Except Fault Unit} {fault : Fault} :
    items.forM check = .error fault ↔ ∃ before item after, items = before ++ item :: after ∧
      (∀ other ∈ before, check other = .ok ()) ∧ check item = .error fault := by
  induction items with
  | nil =>
    refine ⟨nofun, ?_⟩
    rintro ⟨before, item, after, split, _⟩
    exact absurd split.symm (List.append_ne_nil_of_right_ne_nil before (List.cons_ne_nil _ _))
  | cons item rest ih =>
    rw [exists_split_cons]
    simp only [List.forall_mem_cons]
    change (check item >>= fun _ => rest.forM check) = .error fault ↔ _
    cases checked : check item with
    | error raised => simp [Bind.bind, Except.bind]
    | ok _ =>
      simp only [reduceCtorEq, and_false, false_or, true_and]
      exact ih

namespace Builder

/-! ### Offences -/

/-- All rules in some bodies, with the productions that they stand in, in the order of checking. -/
def occurrences (bodies : List (String × Rule)) : List (String × Rule) :=
  bodies.flatMap fun entry => entry.2.preorder.map fun rule => (entry.1, rule)

/-- The rule does not resolve, and the fault says why. -/
inductive Offends (registry : Registry) (bodies : List (String × Rule)) (production : String) :
    Rule → Fault → Prop where
  | undefined {name : String} (unknown : name ∉ bodies.map (·.1)) :
      Offends registry bodies production (.nonTerminal name)
        (.undefinedProduction (.str name) (.str production))
  | unknownClass {set : CharacterSet} (unresolved : registry.resolve? set.name = none) :
      Offends registry bodies production (.characters set)
        (.unknownCharacterClass (.str set.name))
  | emptySet {set : CharacterSet} {c : CharacterClass}
      (resolved : registry.resolve? set.name = some c)
      (excluded : ∀ codepoint ∈ c, (codepoint : Int) ∈ set.points) :
      Offends registry bodies production (.characters set) (.emptyCharacterSet set.name production)

/-- The fault is that of the first rule that does not resolve. -/
def FirstOffence (registry : Registry) (bodies : List (String × Rule)) (fault : Fault) : Prop :=
  ∃ before entry after, occurrences bodies = before ++ entry :: after ∧
    (∀ other ∈ before, ∀ fault, ¬ Offends registry bodies other.1 other.2 fault) ∧
      Offends registry bodies entry.1 entry.2 fault

/-- The start and every name in the bodies resolve, and every character set has a member. -/
structure WellFormed (start : String) (registry : Registry) (bodies : List (String × Rule)) :
    Prop where
  started : start ∈ bodies.map (·.1)
  referenced : ∀ entry ∈ bodies, ∀ name, (Rule.nonTerminal name).Within entry.2 →
    name ∈ bodies.map (·.1)
  populated : ∀ entry ∈ bodies, ∀ set, (Rule.characters set).Within entry.2 →
    ∃ c, registry.resolve? set.name = some c ∧ ∃ codepoint ∈ c, (codepoint : Int) ∉ set.points

variable {b : Builder} {production : String} {rule : Rule} {fault : Fault}

theorem defines_iff_mem_bodies {name : String} :
    b.defines name = true ↔ name ∈ b.bodies.map (·.1) := by
  rw [defines_iff, map_fst_bodies]

theorem isEmpty_remove_iff {c : CharacterClass} {exclude : List Int} :
    (c.remove exclude).isEmpty = true ↔ ∀ codepoint ∈ c, (codepoint : Int) ∈ exclude := by
  have members : (c.remove exclude).isEmpty = true ↔ ∀ codepoint, codepoint ∉ c.remove exclude :=
    List.isEmpty_iff.trans List.eq_nil_iff_forall_not_mem
  simp only [members, CharacterClass.mem_remove, not_and, not_not]

theorem checkRule_eq_error : b.checkRule production rule = .error fault ↔
    Offends b.registry b.bodies production rule fault := by
  cases rule with
  | nonTerminal name =>
    rw [checkRule]
    by_cases defined : b.defines name = true
    · rw [if_pos defined]
      constructor
      · rintro ⟨⟩
      · rintro ⟨unknown⟩
        exact absurd defined (defines_iff_mem_bodies.not.mpr unknown)
    · rw [if_neg defined]
      constructor
      · rintro ⟨⟩
        exact .undefined (defines_iff_mem_bodies.not.mp defined)
      · rintro ⟨⟩
        rfl
  | characters set =>
    rw [checkRule, Registry.ofSet, Registry.resolve]
    cases resolved : b.registry.resolve? set.name with
    | none =>
      constructor
      · rintro ⟨⟩
        exact .unknownClass resolved
      · rintro (_ | _ | ⟨found, _⟩)
        · rfl
        · cases resolved.symm.trans found
    | some c =>
      change (if (c.remove set.points).isEmpty = true then _ else _) = _ ↔ _
      by_cases excluded : ∀ codepoint ∈ c, (codepoint : Int) ∈ set.points
      · rw [if_pos (isEmpty_remove_iff.mpr excluded)]
        constructor
        · rintro ⟨⟩
          exact .emptySet resolved excluded
        · rintro (_ | ⟨unresolved⟩ | _)
          · cases resolved.symm.trans unresolved
          · rfl
      · rw [if_neg (isEmpty_remove_iff.not.mpr excluded)]
        constructor
        · rintro ⟨⟩
        · rintro (_ | ⟨unresolved⟩ | ⟨found, all⟩)
          · cases resolved.symm.trans unresolved
          · cases resolved.symm.trans found
            exact absurd all excluded
  | _ =>
    constructor
    · rintro ⟨⟩
    · rintro ⟨⟩

theorem checkRule_eq_ok : b.checkRule production rule = .ok () ↔
    ∀ fault, ¬ Offends b.registry b.bodies production rule fault := by
  simp only [← checkRule_eq_error]
  cases b.checkRule production rule <;> simp

/-! ### Verdicts -/

theorem occurrences_cons (entry : String × Rule) (rest : List (String × Rule)) :
    occurrences (entry :: rest) =
      entry.2.preorder.map (fun rule => (entry.1, rule)) ++ occurrences rest :=
  List.flatMap_cons

theorem forM_bodies_eq (b : Builder) (bodies : List (String × Rule)) :
    (bodies.forM fun entry => entry.2.walk.forM (b.checkRule entry.1)) =
      (occurrences bodies).forM fun entry => b.checkRule entry.1 entry.2 := by
  induction bodies with
  | nil => rfl
  | cons entry rest ih =>
    change (entry.2.walk.forM (b.checkRule entry.1) >>= fun _ => rest.forM _) =
      forM (occurrences (entry :: rest)) _
    rw [ih, occurrences_cons, List.forM_append, List.forM_map, Rule.walk_eq_preorder]
    rfl

theorem build_of_started (started : b.defines b.start = true) :
    b.build = (do
      (occurrences b.bodies).forM fun entry => b.checkRule entry.1 entry.2
      .ok {
        name := b.name, start := b.start, productions := b.bodies, registry := b.registry }) := by
  rw [build, if_pos started, forM_bodies_eq]
  rfl

theorem build_of_unstarted (unstarted : ¬ b.defines b.start = true) :
    b.build = .error (.undefinedProduction (.str b.start) (.str "<start>")) := by
  rw [build, if_neg unstarted]

theorem build_eq_error_iff (started : b.defines b.start = true) :
    b.build = .error fault ↔ FirstOffence b.registry b.bodies fault := by
  have raised : b.build = .error fault ↔
      ((occurrences b.bodies).forM fun entry => b.checkRule entry.1 entry.2) = .error fault := by
    rw [build_of_started started]
    cases (occurrences b.bodies).forM fun entry => b.checkRule entry.1 entry.2 <;>
      simp [Bind.bind, Except.bind]
  simp only [raised, forM_eq_error, checkRule_eq_ok, checkRule_eq_error, FirstOffence]

theorem mem_occurrences {bodies : List (String × Rule)} {entry : String × Rule} :
    entry ∈ occurrences bodies ↔ ∃ body, (entry.1, body) ∈ bodies ∧ entry.2.Within body := by
  simp only [occurrences, List.mem_flatMap, List.mem_map, Rule.mem_preorder_iff]
  constructor
  · rintro ⟨⟨name, body⟩, listed, rule, within, rfl⟩
    exact ⟨body, listed, within⟩
  · rintro ⟨body, listed, within⟩
    exact ⟨(entry.1, body), listed, entry.2, within, rfl⟩

/-- Bodies are well-formed if no rule in them offends. -/
theorem wellFormed_iff {start : String} {registry : Registry} {bodies : List (String × Rule)} :
    WellFormed start registry bodies ↔ start ∈ bodies.map (·.1) ∧
      ∀ entry ∈ occurrences bodies, ∀ fault, ¬ Offends registry bodies entry.1 entry.2 fault := by
  constructor
  · rintro ⟨started, referenced, populated⟩
    refine ⟨started, ?_⟩
    rintro ⟨production, rule⟩ listed fault offends
    obtain ⟨body, listed, within⟩ := mem_occurrences.mp listed
    cases offends with
    | undefined unknown => exact unknown (referenced _ listed _ within)
    | unknownClass unresolved =>
      obtain ⟨c, resolved, _⟩ := populated _ listed _ within
      cases unresolved.symm.trans resolved
    | emptySet resolved excluded =>
      obtain ⟨c, found, codepoint, member, kept⟩ := populated _ listed _ within
      cases resolved.symm.trans found
      exact kept (excluded codepoint member)
  · rintro ⟨started, fine⟩
    refine ⟨started, ?_, ?_⟩
    · intro entry listed name within
      by_contra unknown
      have occurs : (entry.1, .nonTerminal name) ∈ occurrences bodies :=
        mem_occurrences.mpr ⟨entry.2, listed, within⟩
      exact fine _ occurs _ (.undefined unknown)
    · intro entry listed set within
      have occurs : (entry.1, .characters set) ∈ occurrences bodies :=
        mem_occurrences.mpr ⟨entry.2, listed, within⟩
      cases resolved : registry.resolve? set.name with
      | none => exact absurd (.unknownClass resolved) (fine _ occurs _)
      | some c =>
        refine ⟨c, rfl, ?_⟩
        by_contra none_left
        refine fine _ occurs _ (.emptySet resolved fun codepoint member => ?_)
        by_contra kept
        exact none_left ⟨codepoint, member, kept⟩

theorem exists_build_iff (b : Builder) :
    (∃ g, b.build = .ok g) ↔ WellFormed b.start b.registry b.bodies := by
  rw [wellFormed_iff, ← defines_iff_mem_bodies]
  by_cases started : b.defines b.start = true
  · have passed : (∃ g, b.build = .ok g) ↔
        ((occurrences b.bodies).forM fun entry => b.checkRule entry.1 entry.2) = .ok () := by
      rw [build_of_started started]
      cases (occurrences b.bodies).forM fun entry => b.checkRule entry.1 entry.2 <;>
        simp [Bind.bind, Except.bind]
    simp only [passed, forM_eq_ok, checkRule_eq_ok, started, true_and]
  · rw [build_of_unstarted started]
    exact ⟨nofun, fun h => absurd h.1 started⟩

/-- Every name that is mentioned gets rules. -/
theorem gifts_ne_nil {calls : List Call} (accepted : b.Accepts calls) :
    ∀ gift ∈ calls.flatMap Call.gifts, gift.2 ≠ [] := by
  induction calls generalizing b with
  | nil => exact nofun
  | cons call rest ih =>
    obtain ⟨first, others⟩ := List.forall_mem_cons.mp accepted
    rw [List.flatMap_cons]
    refine List.forall_mem_append.mpr ⟨?_, ih others⟩
    cases call with
    | production name rules =>
      refine List.forall_mem_singleton.mpr fun empty => ?_
      rcases b.perform_production name rules with ⟨acceptable, _⟩ | ⟨_, fault, refused, _⟩
      · have empty : rules = [] := empty
        exact absurd acceptable.1 (by simp [empty])
      · rw [refused] at first
        cases first
    | inclusion g =>
      intro gift listed
      obtain ⟨entry, _, rfl⟩ := List.mem_map.mp listed
      exact List.cons_ne_nil _ _

theorem given_ne_nil {gifts : List (String × List Rule)} (full : ∀ gift ∈ gifts, gift.2 ≠ [])
    {name : String} (listed : name ∈ mentioned gifts) : given gifts name ≠ [] := by
  obtain ⟨gift, member, rfl⟩ := List.mem_map.mp (mem_mentioned.mp listed)
  intro empty
  have none_here := List.flatMap_eq_nil_iff.mp empty gift member
  rw [if_pos rfl] at none_here
  exact full gift member none_here

/-- A body is the only rule, or the choice between several. -/
theorem bodyOf_cases {rules : List Rule} (full : rules ≠ []) :
    (∃ rule, rules = [rule] ∧ bodyOf rules = rule) ∨
      2 ≤ rules.length ∧ bodyOf rules = .alternative rules := by
  match rules with
  | [] => exact absurd rfl full
  | [rule] => exact .inl ⟨rule, rfl, rfl⟩
  | first :: second :: rest => exact .inr ⟨by simp, rfl⟩

/-- After calls that do not fail, a grammar is built exactly if everything in it resolves: it then
has, in the order of first mention, the only rule of each name or the choice between all its rules.
Otherwise the fault is that of the start, or of the first rule that does not resolve. -/
theorem build_verdict (start : String) (named : Option String) (registry : Registry)
    {calls : List Call} (accepted : (new start named registry).Accepts calls) :
    let b := (new start named registry).after calls
    let gifts := calls.flatMap Call.gifts
    let bodies := (mentioned gifts).map fun name => (name, bodyOf (given gifts name))
    ((∃ g, b.build = .ok g) ↔ WellFormed start registry bodies) ∧
      (∀ g, b.build = .ok g →
        g = { name := (new start named registry).name, start, productions := bodies, registry } ∧
        ∀ name ∈ mentioned gifts,
          (∃ rule, given gifts name = [rule] ∧ g.body? name = some rule) ∨
            2 ≤ (given gifts name).length ∧
              g.body? name = some (.alternative (given gifts name))) ∧
      (start ∉ mentioned gifts →
        b.build = .error (.undefinedProduction (.str start) (.str "<start>"))) ∧
      (start ∈ mentioned gifts →
        ∀ fault, b.build = .error fault ↔ FirstOffence registry bodies fault) := by
  intro b gifts bodies
  have left : b = { new start named registry with pending := table gifts } :=
    after_new_of_accepts accepted
  have bodies_eq : b.bodies = bodies := by
    rw [left, Builder.bodies, table, List.map_map]
    rfl
  have start_eq : b.start = start := by
    rw [left]
    rfl
  have registry_eq : b.registry = registry := by
    rw [left]
    rfl
  have started : b.defines b.start = true ↔ start ∈ mentioned gifts := by
    rw [defines_iff, left, map_fst_table]
    rfl
  refine ⟨?_, ?_, ?_, ?_⟩
  · rw [exists_build_iff, start_eq, registry_eq, bodies_eq]
  · intro g built
    obtain ⟨_, rfl, _⟩ := build_ok built
    refine ⟨?_, ?_⟩
    · rw [bodies_eq, start_eq, registry_eq, left]
    · intro name listed
      have found : b.bodies.lookup name = some (bodyOf (given gifts name)) := by
        rw [bodies_eq]
        exact List.lookup_graph _ listed
      have full := given_ne_nil (gifts_ne_nil accepted) listed
      rcases bodyOf_cases full with ⟨rule, alone, body⟩ | ⟨several, body⟩
      · exact .inl ⟨rule, alone, by rw [Grammar.body?, found, body]⟩
      · exact .inr ⟨several, by rw [Grammar.body?, found, body]⟩
  · intro unknown
    rw [build_of_unstarted (started.not.mpr unknown), start_eq]
  · intro known fault
    rw [build_eq_error_iff (started.mpr known), registry_eq, bodies_eq]

/-- A digit with a sign, which has no production. -/
def signed : Rule := .sequence [.nonTerminal "digit", .nonTerminal "sign"]

/-- A character of a class that there is not. -/
def numeral : Rule := .characters ⟨"Numeral", [], Datum.isSet_nil⟩

def drafts : List Call :=
  [.production "number" [signed],
    .inclusion
      { name := "digit", start := "digit", productions := [("digit", .literal "0")]
        registry := .standard },
    .production "number" [numeral], .production "digit" [.literal "1"]]

theorem drafts_build_verdict :
    let b := new "number" none .standard
    let gifts := drafts.flatMap Call.gifts
    b.Accepts drafts ∧ mentioned gifts = ["number", "digit"] ∧
      given gifts "number" = [signed, numeral] ∧
      given gifts "digit" = [.literal "0", .literal "1"] ∧
      (b.after drafts).build =
        .error (.undefinedProduction (.str "sign") (.str "number")) := by
  intro b gifts
  have accepted : b.Accepts drafts := by
    have outcomes : b.outcomes drafts = [.ok (), .ok (), .ok (), .ok ()] := rfl
    rw [Accepts, outcomes]
    simp
  have verdict := (build_verdict "number" none .standard accepted).2.2.2 (by decide)
  refine ⟨accepted, rfl, rfl, rfl, (verdict _).mpr ?_⟩
  refine ⟨[("number", .alternative [signed, numeral]), ("number", signed),
    ("number", .nonTerminal "digit")], ("number", .nonTerminal "sign"),
    [("number", numeral), ("digit", .alternative [.literal "0", .literal "1"]),
      ("digit", .literal "0"), ("digit", .literal "1")], rfl, ?_, .undefined (by decide)⟩
  intro entry listed fault offends
  simp only [List.mem_cons, List.not_mem_nil, or_false] at listed
  rcases listed with rfl | rfl | rfl
  · cases offends
  · cases offends
  · obtain ⟨unknown⟩ := offends
    exact unknown (by decide)

end Builder

end SentenceGen
