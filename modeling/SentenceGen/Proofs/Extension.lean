import SentenceGen.Proofs.Calls
import SentenceGen.Proofs.Interchange

/-!
# Extending a registry

A registry is extended by names that do not resolve in it, neither among its own classes nor among
the general categories.  So whatever resolved before resolves to the same class, and grammars that
could be built can be built still, and generate the same.
-/

namespace SentenceGen

namespace Registry

variable {classes table more : List (String × CharacterClass)} {name other : String}
  {c : CharacterClass} {sources : List (String × ClassSource)} {r r' : Registry}

/-! ### Defining classes -/

theorem define_of_not_mem (fresh : name ∉ classes.map (·.1)) (c : CharacterClass) :
    define classes name c = classes ++ [(name, c)] := by
  have unlisted : ¬ classes.any (·.1 == name) = true := by
    rw [List.any_eq_true]
    rintro ⟨entry, listed, same⟩
    rw [← eq_of_beq same] at fresh
    exact fresh (List.mem_map_of_mem listed)
  rw [define, if_neg unlisted]

theorem map_fst_define (classes : List (String × CharacterClass)) (name : String)
    (c : CharacterClass) : (define classes name c).map (·.1) =
      if name ∈ classes.map (·.1) then classes.map (·.1) else classes.map (·.1) ++ [name] := by
  by_cases known : name ∈ classes.map (·.1)
  · obtain ⟨entry, listed, rfl⟩ := List.mem_map.mp known
    have found : classes.any (·.1 == entry.1) = true :=
      List.any_eq_true.mpr ⟨entry, listed, beq_self_eq_true _⟩
    rw [define, if_pos found, if_pos known, List.map_map]
    refine List.map_congr_left fun old _ => ?_
    by_cases here : old.1 = entry.1 <;> simp [here]
  · rw [define_of_not_mem known, if_neg known, List.map_append]
    rfl

theorem lookup_define_of_ne (different : other ≠ name)
    (classes : List (String × CharacterClass)) (c : CharacterClass) :
    (define classes name c).lookup other = classes.lookup other := by
  have differs : (other == name) = false := beq_eq_false_iff_ne.mpr different
  unfold define
  split
  next found =>
    clear found
    induction classes with
    | nil => rfl
    | cons entry rest ih =>
      rw [List.map_cons, List.lookup_cons, List.lookup_cons, ih]
      by_cases here : entry.1 = name <;> simp [here, differs]
  next => simp [List.lookup_append, List.lookup_cons, differs]

theorem defineAll_cons_ok {source : ClassSource}
    (defined : defineAll ((name, source) :: sources) classes = .ok table) :
    ∃ c, source.resolve name = .ok c ∧ defineAll sources (define classes name c) = .ok table := by
  rw [defineAll] at defined
  cases resolved : source.resolve name with
  | error fault =>
    rw [resolved] at defined
    cases defined
  | ok c =>
    rw [resolved] at defined
    exact ⟨c, rfl, defined⟩

theorem nodup_of_defineAll (distinct : (classes.map (·.1)).Nodup)
    (defined : defineAll sources classes = .ok table) : (table.map (·.1)).Nodup := by
  induction sources generalizing classes with
  | nil =>
    cases defined
    exact distinct
  | cons source rest ih =>
    obtain ⟨c, _, defined⟩ := defineAll_cons_ok defined
    refine ih ?_ defined
    rw [map_fst_define]
    exact nodup_concat_of_new distinct source.1

/-- Other names keep what they have. -/
theorem lookup_of_defineAll (other : name ∉ sources.map (·.1))
    (defined : defineAll sources classes = .ok table) :
    table.lookup name = classes.lookup name := by
  induction sources generalizing classes with
  | nil =>
    cases defined
    rfl
  | cons source rest ih =>
    obtain ⟨different, others⟩ := not_or.mp (List.mem_cons.not.mp other)
    obtain ⟨c, _, defined⟩ := defineAll_cons_ok defined
    rw [ih others defined, lookup_define_of_ne different]

/-- Ready classes with new names are defined as they are. -/
theorem defineAll_ready (distinct : ((classes ++ more).map (·.1)).Nodup)
    (sources : List (String × ClassSource)) :
    defineAll (more.map (fun entry => (entry.1, .ready entry.2)) ++ sources) classes =
      defineAll sources (classes ++ more) := by
  induction more generalizing classes with
  | nil => rw [List.map_nil, List.nil_append, List.append_nil]
  | cons entry rest ih =>
    have split : classes ++ entry :: rest = (classes ++ [entry]) ++ rest := by simp
    rw [split] at distinct ⊢
    have first : (classes.map (·.1) ++ [entry.1]).Nodup := by
      rw [List.map_append, List.nodup_append] at distinct
      simpa using distinct.1
    have fresh : entry.1 ∉ classes.map (·.1) := fun listed =>
      (List.nodup_append.mp first).2.2 _ listed _ List.mem_cons_self rfl
    rw [← ih distinct, ← define_of_not_mem fresh]
    rfl

/-! ### What an extended registry resolves -/

theorem nodup_names_of_ofSources {categories : Bool}
    (made : ofSources sources categories = .ok r) : r.names.Nodup := by
  rw [ofSources] at made
  cases defined : defineAll sources [] with
  | error fault =>
    rw [defined] at made
    cases made
  | ok table =>
    rw [defined] at made
    cases made
    have empty : (([] : List (String × CharacterClass)).map (·.1)).Nodup := List.nodup_nil
    exact nodup_of_defineAll empty defined

/-- The added names are new, and the classes that were there are still there. -/
theorem extend_ok (distinct : r.names.Nodup) (extended : r.extend sources = .ok r') :
    (∀ source ∈ sources, r.contains source.1 = false) ∧
      ∃ table, defineAll sources r.classes = .ok table ∧
        r' = { classes := table, categories := r.categories } := by
  have names : (([] ++ r.classes).map Prod.fst).Nodup := distinct
  have ready : defineAll (r.classes.map (fun entry => (entry.1, .ready entry.2)) ++ sources) [] =
      defineAll sources r.classes := defineAll_ready names sources
  rw [extend] at extended
  cases clash : sources.find? fun source => r.contains source.1 with
  | some source =>
    rw [clash] at extended
    cases extended
  | none =>
    rw [clash] at extended
    simp only [ofSources, ready] at extended
    refine ⟨fun source listed => ?_, ?_⟩
    · exact Bool.eq_false_iff.mpr (List.find?_eq_none.mp clash source listed)
    · cases defined : defineAll sources r.classes with
      | error fault =>
        rw [defined] at extended
        cases extended
      | ok table =>
        rw [defined] at extended
        cases extended
        exact ⟨table, rfl, rfl⟩

/-- Names that resolve are not among the added ones, so they resolve to what they did. -/
theorem resolve?_of_extend (distinct : r.names.Nodup) (extended : r.extend sources = .ok r')
    (resolved : r.resolve? name = some c) : r'.resolve? name = some c := by
  obtain ⟨unknown, table, defined, rfl⟩ := extend_ok distinct extended
  have other : name ∉ sources.map (·.1) := by
    intro listed
    obtain ⟨source, member, rfl⟩ := List.mem_map.mp listed
    have absent := unknown source member
    rw [contains_iff_resolve?, resolved] at absent
    cases absent
  rw [← resolved]
  unfold resolve? ownClass? category?
  rw [lookup_of_defineAll other defined]

theorem ofSet_of_extend (distinct : r.names.Nodup) (extended : r.extend sources = .ok r')
    {set : CharacterSet} (resolved : r.ofSet set = .ok c) : r'.ofSet set = .ok c := by
  obtain ⟨whole, named, rfl⟩ := ofSet_eq_ok.mp resolved
  refine ofSet_eq_ok.mpr ⟨whole, ?_, rfl⟩
  have found : r.resolve? set.name = some whole := by
    rw [resolve] at named
    cases found : r.resolve? set.name with
    | none =>
      rw [found] at named
      cases named
    | some c =>
      rw [found] at named
      rw [Except.ok.inj named]
  rw [resolve, resolve?_of_extend distinct extended found]

end Registry

namespace Builder

/-- Whatever a builder was given, if a grammar can be built of it with a registry, one can be built
of it with every extension of the registry, and the two can take each other's place. -/
theorem extended_interchangeable {given sources : List (String × ClassSource)} {categories : Bool}
    {r r' : Registry} (made : Registry.ofSources given categories = .ok r)
    (extended : r.extend sources = .ok r') (b : Builder) {g : Grammar}
    (built : { b with registry := r }.build = .ok g) :
    ∃ g', { b with registry := r' }.build = .ok g' ∧ g.Interchangeable g' := by
  have distinct := Registry.nodup_names_of_ofSources made
  have same : Matches { b with registry := r } { b with registry := r' } :=
    { name_eq := rfl
      start_eq := rfl
      rulesOf?_eq := fun _ => rfl
      pending := fun listed => listed
      ofSet_eq := Registry.ofSet_of_extend distinct extended }
  exact same.interchangeable built

/-- The registry that every grammar starts from is made so. -/
example : Registry.ofSources (Registry.wellKnown.map fun entry => (entry.1, .ready entry.2)) =
    .ok .standard := rfl

/-- A registry without the general categories can be extended by the name of one. -/
theorem lettering_extended_interchangeable :
    let letters : List (String × ClassSource) := [("AB", .values (.str "ab"))]
    let capitals : List (String × ClassSource) := [("Lu", .values (.str "XY"))]
    let r := Generator.lettering.registry
    let r' : Registry := ⟨[("AB", ⟨"AB", [97, 98]⟩), ("Lu", ⟨"Lu", [88, 89]⟩)], false⟩
    let source : Generator.Steady := ⟨.int 98⟩
    Registry.ofSources letters false = .ok r ∧ r.extend capitals = .ok r' ∧ ∃ g h,
      { Generator.lettering with registry := r' }.build = .ok g ∧
        Generator.new g [] (some Generator.forgiving) {} = .ok h ∧
        (h.runWithin (.first 20) none source ()).text.toOption = some "b!" := by
  intro letters capitals r r' source
  have made : Registry.ofSources letters false = .ok r := rfl
  have extended : r.extend capitals = .ok r' := rfl
  obtain ⟨g, built, runs⟩ :=
    extended_interchangeable made extended Generator.lettering Generator.lettering_built
  rcases runs [] (some Generator.forgiving) {} with ⟨_, refused, _⟩ | ⟨h, h', done, done', same, _⟩
  · cases Generator.lettered_made.symm.trans refused
  · cases Generator.lettered_made.symm.trans done
    refine ⟨made, extended, g, h', built, done', ?_⟩
    rw [same]
    decide +kernel

end Builder

end SentenceGen
