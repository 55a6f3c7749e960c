import Mathlib.Data.List.TFAE
import SentenceGen.Proofs.Extension
import SentenceGen.Proofs.OrderedSets

/-!
# Registries as layers of names

A registry is asked for names in four ways, which agree.  To extend it is to add names that it does
not know: these get what they are given, and all others keep what they have.  So names may be added
in several portions or all at once.
-/

namespace SentenceGen

/-- The integers that one value lists: a text one for each of its characters. -/
def Datum.spread : Datum → List Int
  | .str s => s.toList.map fun x => (x.toNat : Int)
  | d => d.whole?.toList

namespace ClassSource

variable {name : String} {d : Datum} {items given : List Datum} {source : ClassSource}

/-- The code points that a source lists, in order and with repeats. -/
def listed : ClassSource → List Int
  | .ready c => c.codepoints.map Nat.cast
  | .values d => (d.members.toOption.getD []).flatMap Datum.spread

/-- A class that was made, or values that make one. -/
inductive Valid (name : String) : ClassSource → Prop where
  | ready {c : CharacterClass} (reached : c.Reached) : Valid name (.ready c)
  | values {d : Datum} {c : CharacterClass}
      (made : (ClassSource.values d).resolve name = .ok c) : Valid name (.values d)

theorem filterMap_whole?_points (items : List Datum) :
    (points items).filterMap Datum.whole? = items.flatMap Datum.spread := by
  induction items using points.induct with
  | case1 => rfl
  | case2 s rest ih =>
    rw [points, List.filterMap_append, List.flatMap_cons, ih, Datum.spread, List.filterMap_map]
    simp
  | case3 value rest noText ih =>
    have spread : value.spread = value.whole?.toList := by
      rw [Datum.spread]
      exact noText
    rw [points, List.flatMap_cons, ← ih, spread]
    · cases whole : value.whole? <;> simp [whole]
    · exact noText

/-- A text alone lists what it lists among others. -/
theorem listed_str (s : String) : (ClassSource.values (.str s)).listed = (Datum.str s).spread := by
  simp [listed, Datum.members, Except.toOption, Datum.spread, List.flatMap_map,
    ← List.map_eq_flatMap]

theorem filterMap_whole?_readPoints (read : readPoints d = .ok given) :
    given.filterMap Datum.whole? = (ClassSource.values d).listed := by
  rw [readPoints.eq_def] at read
  split at read
  -- a text alone is read as a whole, not by its members
  next s =>
    rw [listed_str, ← Except.ok.inj read, filterMap_whole?_points, List.flatMap_singleton]
  next =>
    cases members : d.members with
    | error fault =>
      rw [members] at read
      cases read
    | ok items =>
      rw [members] at read
      rw [listed, members, ← Except.ok.inj read]
      exact filterMap_whole?_points items

theorem resolve_values_ok {c : CharacterClass} : (ClassSource.values d).resolve name = .ok c ↔
    ∃ given, readPoints d = .ok given ∧ CharacterClass.ofValues name given = .ok c := by
  rw [resolve]
  cases readPoints d <;> simp [bind, Except.bind]

/-- A valid source makes a class of what it lists. -/
theorem Valid.resolve (valid : source.Valid name) : ∃ c, source.resolve name = .ok c ∧
    c.codepoints.map Nat.cast = source.listed.eraseDups := by
  cases valid with
  | @ready c reached =>
    exact ⟨c, rfl, (eraseDups_of_nodup reached.proper.nodup_cast).symm⟩
  | @values d c made =>
    obtain ⟨given, read, makes⟩ := resolve_values_ok.mp made
    refine ⟨c, made, ?_⟩
    rw [← filterMap_whole?_readPoints read]
    have hashable := CharacterClass.hashable_of_ofValues makes
    exact (CharacterClass.codepoints_of_ofValues hashable makes).2

theorem forall_mem_points {P : Datum → Prop} {items : List Datum}
    (chars : ∀ s, .str s ∈ items → ∀ x ∈ s.toList, P (.int x.toNat))
    (others : ∀ value ∈ items, (∀ s, value ≠ .str s) → P value) :
    ∀ value ∈ points items, P value := by
  induction items using points.induct with
  | case1 => nofun
  | case2 s rest ih =>
    rw [points, List.forall_mem_append, List.forall_mem_map]
    exact ⟨chars s List.mem_cons_self, ih (fun t member => chars t (List.mem_cons_of_mem _ member))
      fun value member => others value (List.mem_cons_of_mem _ member)⟩
  | case3 value rest noText ih =>
    rw [points, List.forall_mem_cons]
    · exact ⟨others value List.mem_cons_self noText,
        ih (fun t member => chars t (List.mem_cons_of_mem _ member))
          fun value member => others value (List.mem_cons_of_mem _ member)⟩
    · exact noText

/-- Texts and scalar values always make a class. -/
theorem valid_of_members (name : String)
    (each : ∀ value ∈ items, (∃ s, value = .str s) ∨ CharacterClass.IsMember value) :
    (ClassSource.values (.list items)).Valid name := by
  have members : ∀ value ∈ points items, CharacterClass.IsMember value :=
    forall_mem_points (fun _ _ x _ => ⟨x.toNat, rfl, isScalar_of_char x⟩)
      fun value listed noText => (each value listed).resolve_left fun ⟨s, text⟩ => noText s text
  obtain ⟨c, made⟩ := CharacterClass.exists_ofValues_of_members name members
  exact .values (resolve_values_ok.mpr ⟨points items, rfl, made⟩)

end ClassSource

namespace Registry

variable {classes table : List (String × CharacterClass)} {name : String} {c : CharacterClass}
  {sources first second : List (String × ClassSource)} {r r' : Registry}

/-- A registry that was made and then extended any number of times. -/
inductive Reached : Registry → Prop where
  | made {sources : List (String × ClassSource)} {categories : Bool} {r : Registry}
      (made : ofSources sources categories = .ok r) : Reached r
  | extended {sources : List (String × ClassSource)} {r r' : Registry} (reached : Reached r)
      (extended : r.extend sources = .ok r') : Reached r'

/-! ### Four ways of asking -/

theorem lookup_nil (r : Registry) (name : String) : r.lookup name [] = r.resolve name := by
  rw [lookup]
  cases r.resolve name with
  | error fault => rfl
  | ok c =>
    change c.without [] = .ok c
    rw [show ([] : List Datum) = ([] : List Int).map .int from rfl, c.without_ints,
      CharacterClass.remove_nil]

theorem resolve_eq_ok : r.resolve name = .ok c ↔ r.resolve? name = some c := by
  rw [resolve]
  cases r.resolve? name <;> simp

theorem get_str (r : Registry) (name : String) : r.get (.str name) =
    match r.resolve? name with
    | some c => .ok c
    | none => .error (.missingKey (.str name)) := by
  rw [get, show r.get? (.str name) = .ok (r.resolve? name) from rfl]
  cases r.resolve? name <;> rfl

theorem known_tfae (r : Registry) (name : String) : List.TFAE [
    r.contains name = true,
    ∃ c, r.lookup name [] = .ok c,
    ∀ fault, r.get (.str name) = .error fault → fault.kind ≠ .key,
    r.get? (.str name) ≠ .ok none] := by
  have asked : r.get? (.str name) = .ok (r.resolve? name) := rfl
  rw [contains_iff_resolve?, lookup_nil, resolve, get_str, asked]
  cases r.resolve? name with
  | none => simp [Fault.kind]
  | some c => simp

/-! ### Defining in portions -/

theorem defineAll_append (first second : List (String × ClassSource))
    (classes : List (String × CharacterClass)) :
    defineAll (first ++ second) classes = defineAll first classes >>= defineAll second := by
  induction first generalizing classes with
  | nil => rfl
  | cons entry rest ih =>
    obtain ⟨name, source⟩ := entry
    rw [List.cons_append, defineAll, defineAll]
    cases source.resolve name with
    | error fault => rfl
    | ok c => exact ih (define classes name c)

theorem lookup_define_self (classes : List (String × CharacterClass)) (name : String)
    (c : CharacterClass) : (define classes name c).lookup name = some c := by
  by_cases known : name ∈ classes.map (·.1)
  · have found : classes.any (·.1 == name) = true := by simpa using known
    rw [define, if_pos found]
    induction classes with
    | nil => cases known
    | cons entry rest ih =>
      rw [List.map_cons, List.lookup_cons]
      by_cases here : entry.1 = name
      · simp [here]
      · have later : name ∈ rest.map (·.1) :=
          (List.mem_cons.mp known).resolve_left fun same => here same.symm
        have differs : (name == entry.1) = false := beq_eq_false_iff_ne.mpr (Ne.symm here)
        simpa [here, differs] using ih later (by simpa using later)
  · have absent : classes.lookup name = none := by
      rw [← Option.not_isSome_iff_eq_none, Builder.isSome_lookup_iff]
      exact known
    rw [define_of_not_mem known, List.lookup_append, absent, Option.none_or, List.lookup_cons,
      beq_self_eq_true]

theorem exists_defineAll (classes : List (String × CharacterClass))
    (resolvable : ∀ entry ∈ sources, ∃ c, entry.2.resolve entry.1 = .ok c) :
    ∃ table, defineAll sources classes = .ok table := by
  induction sources generalizing classes with
  | nil => exact ⟨classes, rfl⟩
  | cons entry rest ih =>
    obtain ⟨⟨c, resolved⟩, others⟩ := List.forall_mem_cons.mp resolvable
    obtain ⟨table, defined⟩ := ih (define classes entry.1 c) others
    refine ⟨table, ?_⟩
    rw [defineAll, resolved]
    exact defined

/-- Every name has what its source makes. -/
theorem lookup_of_mem (distinct : (sources.map (·.1)).Nodup)
    (defined : defineAll sources classes = .ok table) {entry : String × ClassSource}
    (listed : entry ∈ sources) :
    ∃ c, entry.2.resolve entry.1 = .ok c ∧ table.lookup entry.1 = some c := by
  induction sources generalizing classes with
  | nil => cases listed
  | cons source rest ih =>
    obtain ⟨fresh, others⟩ := List.nodup_cons.mp distinct
    obtain ⟨c, resolved, later⟩ := defineAll_cons_ok defined
    rcases List.mem_cons.mp listed with rfl | listed
    · exact ⟨c, resolved, by rw [lookup_of_defineAll fresh later, lookup_define_self]⟩
    · exact ih others later listed

/-! ### Extending -/

theorem Reached.distinct (reached : r.Reached) : r.names.Nodup := by
  induction reached with
  | made made => exact nodup_names_of_ofSources made
  | extended _ extended ih =>
    obtain ⟨_, table, defined, rfl⟩ := extend_ok ih extended
    exact nodup_of_defineAll ih defined

theorem extend_of_known (known : ∃ entry ∈ sources, r.contains entry.1 = true) :
    ∃ entry ∈ sources, r.contains entry.1 = true ∧
      r.extend sources = .error (.classDefined entry.1) := by
  cases clash : sources.find? fun source => r.contains source.1 with
  | none =>
    obtain ⟨entry, listed, known⟩ := known
    exact absurd known (List.find?_eq_none.mp clash entry listed)
  | some entry =>
    have known : r.contains entry.1 = true := by simpa using List.find?_some clash
    refine ⟨entry, List.mem_of_find?_eq_some clash, known, ?_⟩
    rw [extend, clash]

theorem extend_eq_ok (distinct : r.names.Nodup) : r.extend sources = .ok r' ↔
    (∀ entry ∈ sources, r.contains entry.1 = false) ∧
      ∃ table, defineAll sources r.classes = .ok table ∧ r' = ⟨table, r.categories⟩ := by
  refine ⟨extend_ok distinct, ?_⟩
  rintro ⟨new, table, defined, rfl⟩
  have clash : sources.find? (fun source => r.contains source.1) = none :=
    List.find?_eq_none.mpr fun entry listed => Bool.eq_false_iff.mp (new entry listed)
  have names : (([] ++ r.classes).map Prod.fst).Nodup := distinct
  have ready : defineAll (r.classes.map (fun entry => (entry.1, .ready entry.2)) ++ sources) [] =
      defineAll sources r.classes := defineAll_ready names sources
  rw [extend, clash]
  simp only [ofSources, ready, defined]
  rfl

/-- Names that are not among the added ones resolve to what they did, or still do not. -/
theorem resolve?_of_other (distinct : r.names.Nodup) (extended : r.extend sources = .ok r')
    (other : name ∉ sources.map (·.1)) : r'.resolve? name = r.resolve? name := by
  obtain ⟨_, table, defined, rfl⟩ := extend_ok distinct extended
  unfold resolve? ownClass? category?
  rw [lookup_of_defineAll other defined]

/-- Every added name resolves to what its source makes. -/
theorem resolve?_of_added (distinct : r.names.Nodup) (extended : r.extend sources = .ok r')
    (names : (sources.map (·.1)).Nodup) {entry : String × ClassSource} (listed : entry ∈ sources) :
    ∃ c, entry.2.resolve entry.1 = .ok c ∧ r'.resolve? entry.1 = some c := by
  obtain ⟨_, table, defined, rfl⟩ := extend_ok distinct extended
  obtain ⟨c, resolved, found⟩ := lookup_of_mem names defined listed
  refine ⟨c, resolved, ?_⟩
  rw [resolve?, ownClass?, found]

/-- To extend in two portions is to extend by both at once. -/
theorem extend_extend (distinct : r.names.Nodup)
    (apart : ∀ name ∈ first.map (·.1), name ∉ second.map (·.1)) :
    (r.extend first >>= fun s => s.extend second) = .ok r' ↔
      r.extend (first ++ second) = .ok r' := by
  -- a second name is not among the first, so in between it is as new as it was
  have elsewhere {s : Registry} (extended : r.extend first = .ok s) :
      ∀ entry ∈ second, s.contains entry.1 = r.contains entry.1 := by
    intro entry listed
    have other : entry.1 ∉ first.map (·.1) := fun listedToo =>
      apart entry.1 listedToo (List.mem_map_of_mem listed)
    rw [contains_iff_resolve?, resolve?_of_other distinct extended other, contains_iff_resolve?]
  constructor
  · intro extended
    cases one : r.extend first with
    | error fault =>
      rw [one] at extended
      cases extended
    | ok s =>
      rw [one] at extended
      have same := elsewhere one
      obtain ⟨new, table, defined, rfl⟩ := extend_ok distinct one
      obtain ⟨newToo, all, later, rfl⟩ := extend_ok (nodup_of_defineAll distinct defined) extended
      refine (extend_eq_ok distinct).mpr ⟨List.forall_mem_append.mpr ⟨new, ?_⟩, all, ?_, rfl⟩
      · exact fun entry listed => same entry listed ▸ newToo entry listed
      · rw [defineAll_append, defined]
        exact later
  · intro extended
    obtain ⟨new, all, defined, rfl⟩ := extend_ok distinct extended
    obtain ⟨newBefore, newToo⟩ := List.forall_mem_append.mp new
    rw [defineAll_append] at defined
    cases one : defineAll first r.classes with
    | error fault =>
      rw [one] at defined
      cases defined
    | ok table =>
      rw [one] at defined
      have extendedOnce : r.extend first = .ok ⟨table, r.categories⟩ :=
        (extend_eq_ok distinct).mpr ⟨newBefore, table, one, rfl⟩
      rw [extendedOnce]
      refine (extend_eq_ok (nodup_of_defineAll distinct one)).mpr ⟨?_, all, defined, rfl⟩
      exact fun entry listed => (elsewhere extendedOnce entry listed).trans (newToo entry listed)

/-- A registry knows the same names whichever way it is asked.  Classes with new names can always
be added, and nothing else can: these names resolve to what they were given, all others as they did
before.  Two portions with different names come to the same as both at once. -/
theorem Reached.conservative_union (reached : r.Reached) :
    (∀ name, List.TFAE [
      r.contains name = true,
      ∃ c, r.lookup name [] = .ok c,
      ∀ fault, r.get (.str name) = .error fault → fault.kind ≠ .key,
      r.get? (.str name) ≠ .ok none]) ∧
    (∀ more : List (String × ClassSource), (more.map (·.1)).Nodup →
      (∀ entry ∈ more, entry.2.Valid entry.1) →
        ((∃ fault, r.extend more = .error fault ∧ fault.kind = .value) ↔
          ∃ entry ∈ more, r.contains entry.1 = true) ∧
        ((∀ entry ∈ more, r.contains entry.1 = false) → ∃ r', r.extend more = .ok r' ∧
          (∀ name exclude, name ∉ more.map (·.1) →
            r'.lookup name exclude = r.lookup name exclude) ∧
          ∀ entry ∈ more, ∃ c, entry.2.resolve entry.1 = .ok c ∧
            r'.lookup entry.1 [] = .ok c ∧
            c.codepoints.map Nat.cast = entry.2.listed.eraseDups)) ∧
    ∀ first second : List (String × ClassSource),
      (∀ name ∈ first.map (·.1), name ∉ second.map (·.1)) → ∀ r',
        (r.extend first >>= fun s => s.extend second) = .ok r' ↔
          r.extend (first ++ second) = .ok r' := by
  have distinct := reached.distinct
  refine ⟨r.known_tfae, fun more names valid => ?_, fun first second apart r' =>
    extend_extend distinct apart⟩
  have extendable (new : ∀ entry ∈ more, r.contains entry.1 = false) :
      ∃ r', r.extend more = .ok r' := by
    obtain ⟨table, defined⟩ := exists_defineAll r.classes fun entry listed =>
      (valid entry listed).resolve.imp fun _ resolved => resolved.1
    exact ⟨_, (extend_eq_ok distinct).mpr ⟨new, table, defined, rfl⟩⟩
  refine ⟨⟨?_, ?_⟩, fun new => ?_⟩
  · rintro ⟨fault, refused, _⟩
    by_contra unknown
    obtain ⟨r', extended⟩ := extendable fun entry listed =>
      Bool.eq_false_iff.mpr fun known => unknown ⟨entry, listed, known⟩
    cases refused.symm.trans extended
  · intro known
    obtain ⟨entry, _, _, refused⟩ := extend_of_known known
    exact ⟨_, refused, rfl⟩
  · obtain ⟨r', extended⟩ := extendable new
    refine ⟨r', extended, fun name exclude other => ?_, fun entry listed => ?_⟩
    · rw [lookup, lookup, resolve, resolve, resolve?_of_other distinct extended other]
    · obtain ⟨c, resolved, found⟩ := resolve?_of_added distinct extended names listed
      obtain ⟨_, resolvedToo, points⟩ := (valid entry listed).resolve
      cases resolved.symm.trans resolvedToo
      exact ⟨c, resolved, (lookup_nil r' entry.1).trans (resolve_eq_ok.mpr found), points⟩

/-- Vowels, listed in texts and numbers, are added to two letters and the general categories. -/
theorem vowels_conservative_union :
    let r : Registry := ⟨[("AB", ⟨"AB", [97, 98]⟩)], true⟩
    let vowels : ClassSource := .values (.list [.str "ae", .int 105, .str "a"])
    r.Reached ∧ r.contains "Lu" = true ∧ ∃ r', r.extend [("Vowels", vowels)] = .ok r' ∧
      r'.lookup "AB" [] = .ok ⟨"AB", [97, 98]⟩ ∧
      ∃ c, r'.lookup "Vowels" [] = .ok c ∧ c.codepoints.map Nat.cast = [(97 : Int), 101, 105] := by
  intro r vowels
  have made : ofSources [("AB", .values (.str "ab"))] true = .ok r := rfl
  have reached : r.Reached := .made made
  have valid : vowels.Valid "Vowels" := by
    have isMember : CharacterClass.IsMember (.int 105) := ⟨105, rfl, by decide⟩
    exact ClassSource.valid_of_members "Vowels" (by simp [isMember])
  obtain ⟨_, extended, _⟩ := reached.conservative_union
  obtain ⟨_, added⟩ := extended [("Vowels", vowels)] (by simp) (by simpa using valid)
  have unknown : r.contains "Vowels" = false := by decide
  obtain ⟨r', done, others, all⟩ := added (by simpa using unknown)
  obtain ⟨c, _, found, points⟩ := all ("Vowels", vowels) List.mem_cons_self
  exact ⟨reached, by decide, r', done, others "AB" [] (by simp), c, found, points⟩

end Registry

end SentenceGen
