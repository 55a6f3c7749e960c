import Mathlib.Data.List.Perm.Basic
import SentenceGen.Config
import SentenceGen.Proofs.Checks
import SentenceGen.Proofs.Wording

/-!
# Data that settings are read from

Settings are read from a map of sections, each of them a map of fields.  They are read exactly if
all sections and fields are known and all values are such as the fields admit, and they are then
those that the data ask for.  Every refusal is a fault about a value, but for one: unknown sections
that cannot be put in order are not even named.
-/

namespace SentenceGen

/-! ### Results that a condition decides -/

/-- The result is `a` if the condition holds, and if not a fault of such a kind. -/
inductive Ruled {α : Type} (admitted : Prop) (a : α) (Kind : FaultKind → Prop) :
    Except Fault α → Prop where
  | ok (holds : admitted) : Ruled admitted a Kind (.ok a)
  | error {fault : Fault} (fails : ¬ admitted) (kind : Kind fault.kind) :
    Ruled admitted a Kind (.error fault)

namespace Ruled

variable {α β : Type} {admitted further : Prop} {a : α} {b : β} {Kind : FaultKind → Prop}
  {result : Except Fault α} {next : α → Except Fault β}

theorem bind (first : Ruled admitted a Kind result)
    (second : admitted → Ruled further b Kind (next a)) :
    Ruled (admitted ∧ further) b Kind (result >>= next) := by
  cases first with
  | error fails kind => exact .error (fun both => fails both.1) kind
  | ok holds =>
    change Ruled _ b Kind (next a)
    generalize next a = later at second
    cases second holds with
    | error fails kind => exact .error (fun both => fails both.2) kind
    | ok holdsToo => exact .ok ⟨holds, holdsToo⟩

theorem congr (h : Ruled admitted a Kind result) (same : admitted ↔ further) :
    Ruled further a Kind result := by
  cases h with
  | error fails kind => exact .error (fun holds => fails (same.mpr holds)) kind
  | ok holds => exact .ok (same.mp holds)

theorem mono {Kind' : FaultKind → Prop} (h : Ruled admitted a Kind result)
    (wider : ∀ kind, Kind kind → Kind' kind) : Ruled admitted a Kind' result := by
  cases h with
  | error fails kind => exact .error fails (wider _ kind)
  | ok holds => exact .ok holds

/-- What a check rules, it rules for what is returned after it, too. -/
theorem returning {check : Except Fault Unit} (h : Ruled admitted () Kind check) :
    Ruled admitted a Kind (check >>= fun _ => .ok a) := by
  have after : Ruled True a Kind (.ok a) := .ok trivial
  exact (h.bind fun _ => after).congr (and_true _).to_iff

theorem eq_ok_iff (h : Ruled admitted a Kind result) {c : α} :
    result = .ok c ↔ admitted ∧ c = a := by
  cases h with
  | error fails => simp [fails]
  | ok holds => simp [holds, eq_comm]

theorem kind_of_error (h : Ruled admitted a Kind result) {fault : Fault}
    (refused : result = .error fault) : Kind fault.kind := by
  cases h with
  | error _ kind => exact Except.error.inj refused ▸ kind
  | ok => cases refused

end Ruled

/-- Each item passes exactly if it is fine, so all of them pass exactly if all are. -/
theorem ruled_forM {α : Type} {Fine : α → Prop} {Kind : FaultKind → Prop}
    {check : α → Except Fault Unit} {items : List α}
    (each : ∀ item, Ruled (Fine item) () Kind (check item)) :
    Ruled (∀ item ∈ items, Fine item) () Kind (items.forM check) := by
  induction items with
  | nil => exact .ok (by simp)
  | cons item rest ih =>
    exact ((each item).bind fun _ => ih).congr List.forall_mem_cons.symm

/-! ### Order among data -/

namespace Datum

/-- Both are texts, or both are numbers. -/
def Comparable (a b : Datum) : Prop :=
  (∃ x y, a = .str x ∧ b = .str y) ∨ a.magnitude?.isSome ∧ b.magnitude?.isSome

variable {a b c d : Datum}

theorem Comparable.symm (h : a.Comparable b) : b.Comparable a := by
  rcases h with ⟨x, y, rfl, rfl⟩ | ⟨left, right⟩
  · exact .inl ⟨y, x, rfl, rfl⟩
  · exact .inr ⟨right, left⟩

theorem Comparable.trans (first : a.Comparable b) (second : b.Comparable c) : a.Comparable c := by
  rcases first with ⟨x, y, rfl, rfl⟩ | ⟨left, middle⟩
  · rcases second with ⟨_, z, _, rfl⟩ | ⟨number, _⟩
    · exact .inl ⟨x, z, rfl, rfl⟩
    · cases number
  · rcases second with ⟨_, _, rfl, rfl⟩ | ⟨_, right⟩
    · cases middle
    · exact .inr ⟨left, right⟩

theorem less_eq_ok (h : a.Comparable b) : ∃ below, a.less b = .ok below := by
  rcases h with ⟨x, y, rfl, rfl⟩ | ⟨left, right⟩
  · exact ⟨_, rfl⟩
  · obtain ⟨x, numberLeft⟩ := Option.isSome_iff_exists.mp left
    obtain ⟨y, numberRight⟩ := Option.isSome_iff_exists.mp right
    unfold less
    split
    next => exact ⟨_, rfl⟩
    next => exact ⟨_, by rw [numberLeft, numberRight]⟩

theorem less_eq_error (apart : ¬ a.Comparable b) :
    ∃ fault, a.less b = .error fault ∧ fault.kind = .type := by
  unfold less
  split
  next x y => exact absurd (.inl ⟨x, y, rfl, rfl⟩) apart
  next =>
    split
    next x y left right =>
      exact absurd (.inr ⟨by rw [left]; rfl, by rw [right]; rfl⟩) apart
    next => exact ⟨_, rfl, rfl⟩

theorem insertSorted_eq_ok {rest : List Datum} (each : ∀ other ∈ rest, d.Comparable other) :
    ∃ placed, d.insertSorted rest = .ok placed ∧ placed.Perm (d :: rest) := by
  induction rest with
  | nil => exact ⟨[d], rfl, .refl _⟩
  | cons other rest ih =>
    rw [List.forall_mem_cons] at each
    obtain ⟨below, compared⟩ := less_eq_ok each.1
    obtain ⟨placed, inserted, perm⟩ := ih each.2
    rw [insertSorted, compared]
    cases below with
    | true => exact ⟨_, rfl, .refl _⟩
    | false =>
      refine ⟨other :: placed, ?_, (perm.cons other).trans (.swap d other rest)⟩
      simp [Bind.bind, Except.bind, inserted, pure, Except.pure]

theorem insertSorted_eq_error {other : Datum} (apart : ¬ d.Comparable other)
    (rest : List Datum) :
    ∃ fault, d.insertSorted (other :: rest) = .error fault ∧ fault.kind = .type := by
  obtain ⟨fault, refused, kind⟩ := less_eq_error apart
  refine ⟨fault, ?_, kind⟩
  rw [insertSorted, refused]
  rfl

theorem sort_cons (d : Datum) (rest : List Datum) :
    sort (d :: rest) = sort rest >>= d.insertSorted := by
  simp [sort]

/-- Data can be sorted exactly if all of them are comparable. -/
theorem sort_cases (data : List Datum) :
    (data.Pairwise Comparable ∧ ∃ sorted, sort data = .ok sorted ∧ sorted.Perm data) ∨
      ¬ data.Pairwise Comparable ∧ ∃ fault, sort data = .error fault ∧ fault.kind = .type := by
  induction data with
  | nil => exact .inl ⟨.nil, [], rfl, .refl _⟩
  | cons d rest ih =>
    rw [List.pairwise_cons, sort_cons]
    rcases ih with ⟨ordered, sorted, done, perm⟩ | ⟨unordered, fault, failed, kind⟩
    · rw [done]
      change _ ∨ _ ∧ ∃ fault, d.insertSorted sorted = .error fault ∧ _
      by_cases each : ∀ other ∈ rest, d.Comparable other
      · obtain ⟨placed, inserted, permToo⟩ :=
          insertSorted_eq_ok fun other member => each other (perm.mem_iff.mp member)
        exact .inl ⟨⟨each, ordered⟩, placed, inserted, permToo.trans (perm.cons d)⟩
      · refine .inr ⟨fun both => each both.1, ?_⟩
        cases sorted with
        | nil =>
          rw [List.nil_perm] at perm
          simp [perm] at each
        | cons first sorted =>
          -- the first datum is comparable with all that follow it, so d with none of them
          refine insertSorted_eq_error (fun comparable => each fun other member => ?_) sorted
          rcases List.mem_cons.mp (perm.mem_iff.mpr member) with rfl | later
          · exact comparable
          · have ordered := perm.symm.pairwise ordered Comparable.symm
            exact comparable.trans (List.rel_of_pairwise_cons ordered later)
    · rw [failed]
      exact .inr ⟨fun both => unordered both.2, fault, rfl, kind⟩

end Datum
/-! ### Entries of a map -/

namespace Datum

/-- Only a text equals a text. -/
theorem equal_str_iff {d : Datum} {text : String} :
    d.equal (.str text) = true ↔ d = .str text := by
  cases d <;> simp [equal, scalarEqual, magnitude?, int?]

theorem scalarEqual_str_iff {d : Datum} {text : String} :
    scalarEqual (.str text) d = true ↔ d = .str text := by
  cases d with
  | str other => simpa [scalarEqual] using eq_comm
  | _ => simp [scalarEqual, magnitude?, int?]

variable {entries : List (Datum × Datum)} {key : String} {value : Datum}

theorem mem_of_lookup (found : lookup entries key = some value) : (.str key, value) ∈ entries := by
  obtain ⟨entry, first, rfl⟩ := Option.map_eq_some_iff.mp found
  have named := List.find?_some first
  rw [← scalarEqual_str_iff.mp named]
  exact List.mem_of_find?_eq_some first

/-- In a map, where no two keys are the same, an entry is found by its key. -/
theorem lookup_of_mem (isSet : IsSet (entries.map (·.1))) (listed : (.str key, value) ∈ entries) :
    lookup entries key = some value := by
  induction entries with
  | nil => cases listed
  | cons entry rest ih =>
    obtain ⟨hashable, distinct⟩ := isSet
    rw [List.map_cons, List.pairwise_cons] at distinct
    rw [lookup, List.find?_cons]
    rcases List.mem_cons.mp listed with rfl | later
    · rw [scalarEqual_str_iff.mpr rfl]
      rfl
    · have other : scalarEqual (.str key) entry.1 = false := by
        by_contra same
        rw [Bool.not_eq_false, scalarEqual_str_iff] at same
        have apart := distinct.1 (.str key) (List.mem_map_of_mem later)
        simp [same] at apart
      rw [other]
      exact ih ⟨fun key listed => hashable key (List.mem_cons_of_mem _ listed), distinct.2⟩ later

end Datum

/-! ### Values of fields -/

/-- A fault about a value; one about its type counts, since a section is named for it. -/
def AboutValue (kind : FaultKind) : Prop := kind = .value ∨ kind = .type

/-- A number from zero to one. -/
def IsProbability (value : Datum) : Prop :=
  ∃ chance : Rat, value.magnitude? = some (.finite chance) ∧ 0 ≤ chance ∧ chance ≤ 1

/-- Null, or a number that is not below one. -/
def IsLimit (value : Datum) : Prop :=
  value = .null ∨ ∃ number, value.magnitude? = some number ∧ number.less (.ofInt 1) = false

theorem magnitude_zero : (Datum.float 0.0).magnitude? = some (.finite 0) := by decide +kernel

theorem magnitude_one : (Datum.float 1.0).magnitude? = some (.finite 1) := by decide +kernel

/-- Whether one number is at most another, as the numbers themselves say. -/
theorem atMost_finite (a b : Rat) :
    (Decimal.Magnitude.finite a).atMost (.finite b) = decide (a ≤ b) := by
  simp only [Decimal.Magnitude.atMost, Decimal.Magnitude.less, Decimal.Magnitude.equal,
    ← Bool.decide_or, Rat.le_iff_lt_or_eq]

theorem ruled_checkProbability (field : String) (value : Datum) :
    Ruled (IsProbability value) () AboutValue (checkProbability field value) := by
  simp only [checkProbability, Datum.atMost, magnitude_zero, magnitude_one]
  cases numeric : value.magnitude? with
  | none => exact .error (by simp [IsProbability, numeric]) (.inr rfl)
  | some number =>
    have refused (apart : ¬ IsProbability value) :
        Ruled (IsProbability value) () AboutValue
          (.error (Fault.probabilityOutOfRange field value).told) :=
      .error apart (.inl (Fault.kind_told rfl))
    cases number with
    | finite chance =>
      simp only [bind, Except.bind, atMost_finite]
      by_cases low : 0 ≤ chance
      · by_cases high : chance ≤ 1
        · simp only [low, high, decide_true, if_true]
          exact .ok ⟨chance, numeric, low, high⟩
        · simp only [low, high, decide_true, decide_false, if_true]
          exact refused (by simp [IsProbability, numeric, high])
      · simp only [low, decide_false]
        exact refused (by simp [IsProbability, numeric, low])
    | infinite negative =>
      cases negative <;> exact refused (by simp [IsProbability, numeric])
    | undefined => exact refused (by simp [IsProbability, numeric])

theorem less_one (value : Datum) :
    value.less (.int 1) = match value.magnitude? with
      | some number => .ok (number.less (.ofInt 1))
      | none => .error (.notOrdered "<" value.kind "int") := by
  cases value <;> rfl

theorem ruled_checkLimit (field : String) (value : Datum) :
    Ruled (IsLimit value) () AboutValue (checkLimit field value) := by
  by_cases unset : value = .null
  · subst unset
    exact .ok (.inl rfl)
  · have compared : checkLimit field value =
        value.less (.int 1) >>= fun below =>
          if below then .error (Fault.limitNotPositive field value).told else .ok () := by
      cases value <;> first | rfl | exact absurd rfl unset
    rw [compared, less_one]
    cases numeric : value.magnitude? with
    | none => exact .error (by simp [IsLimit, unset, numeric]) (.inr rfl)
    | some number =>
      cases below : number.less (.ofInt 1) with
      | true =>
        simp only [bind, Except.bind, below, if_true]
        exact .error (by simp [IsLimit, unset, numeric, below]) (.inl (Fault.kind_told rfl))
      | false =>
        simp only [bind, Except.bind, below]
        exact .ok (.inr ⟨number, numeric, below⟩)

/-! ### Fields of one section -/

/-- Every key is one of the names. -/
def Named (names : List String) (values : List (Datum × Datum)) : Prop :=
  ∀ entry ∈ values, ∃ name ∈ names, entry.1 = .str name

theorem ruled_checkField (settings : String) {names : List String} (apart : "self" ∉ names)
    (key : String) :
    Ruled (key ∈ names) () AboutValue (checkField settings names key) := by
  unfold checkField
  split
  next reserved => exact .error (reserved ▸ apart) (.inr rfl)
  next =>
    split
    next known => exact .ok (List.contains_iff_mem.mp known)
    next unknown =>
      exact .error (fun known => unknown (List.contains_iff_mem.mpr known)) (.inr rfl)

theorem ruled_checkFields (settings : String) {names : List String} (apart : "self" ∉ names)
    (values : List (Datum × Datum)) :
    Ruled (Named names values) () AboutValue (checkFields settings names values) := by
  refine (Ruled.bind (?keys : Ruled (∀ entry ∈ values, ∃ key, entry.1 = .str key)
    (values.filterMap (·.1.str?)) AboutValue _) fun _ =>
      ruled_forM (ruled_checkField settings apart)).congr ?_
  case keys =>
    induction values with
    | nil => exact .ok (by simp)
    | cons entry rest ih =>
      obtain ⟨key, value⟩ := entry
      rw [List.mapM_cons]
      cases key with
      | str key =>
        have consed : Ruled True (key :: rest.filterMap (·.1.str?)) AboutValue
            (pure (key :: rest.filterMap (·.1.str?))) := .ok trivial
        exact (ih.bind fun _ => consed).congr (by simp)
      | _ => exact .error (by simp) (.inr rfl)
  constructor
  · rintro ⟨texts, known⟩ entry listed
    obtain ⟨key, text⟩ := texts entry listed
    refine ⟨key, known key ?_, text⟩
    exact List.mem_filterMap.mpr ⟨entry, listed, by rw [text]; rfl⟩
  · intro named
    refine ⟨fun entry listed => ?_, fun key listed => ?_⟩
    · obtain ⟨name, _, text⟩ := named entry listed
      exact ⟨name, text⟩
    · obtain ⟨entry, listed, spelled⟩ := List.mem_filterMap.mp listed
      obtain ⟨name, known, text⟩ := named entry listed
      rw [text] at spelled
      exact Option.some.inj spelled ▸ known

/-- The value of a field, if it is given, and else another one. -/
def given (values : List (Datum × Datum)) (field : String) (other : Datum) : Datum :=
  (Datum.lookup values field).getD other

namespace Environment

/-- All variables that settings fall back to are unset or hold integers. -/
def Readable (env : Environment) : Prop :=
  ∀ name ∈ fallbacks, ∃ value, env.integer name = .ok value

theorem readable_nil : Readable [] := fun _ _ => ⟨.null, rfl⟩

/-- What a variable says for a field that is not given. -/
def fallback (env : Environment) (name : String) : Datum :=
  match env.integer name with
  | .ok value => value
  | .error _ => .null

theorem Readable.integer_eq {env : Environment} (readable : env.Readable) (name : String)
    (listed : name ∈ fallbacks) : env.integer name = .ok (env.fallback name) := by
  obtain ⟨value, read⟩ := readable name listed
  rw [fallback, read]

end Environment

namespace DecisionSettings

/-- All chances are chances, and repetitions end. -/
structure Valid (s : DecisionSettings) : Prop where
  continuation : IsProbability s.continuation
  decay : IsProbability s.decay
  optional : IsProbability s.optional
  ends : ¬ (s.continuation.magnitude? = some (.finite 1) ∧ s.decay.magnitude? = some (.finite 1))

theorem equal_one_iff {value : Datum} :
    value.equal (.float 1.0) = true ↔ value.magnitude? = some (.finite 1) := by
  have compared : value.equal (.float 1.0) =
      match value.magnitude? with
      | some number => number.equal (.finite 1)
      | none => false := by
    cases value <;> simp [Datum.equal, Datum.scalarEqual, magnitude_one] <;> rfl
  rw [compared]
  cases value.magnitude? with
  | none => simp
  | some number => cases number <;> simp [Decimal.Magnitude.equal]

theorem ruled_check (s : DecisionSettings) : Ruled s.Valid () AboutValue s.check := by
  have ends : Ruled
      (¬ (s.continuation.magnitude? = some (.finite 1) ∧ s.decay.magnitude? = some (.finite 1)))
      () AboutValue
      (if s.continuation.equal (.float 1.0) && s.decay.equal (.float 1.0) then
        throw .endlessRepetition
      else pure ()) := by
    simp only [Bool.and_eq_true, equal_one_iff]
    split
    next both => exact .error (not_not_intro both) (.inl rfl)
    next apart => exact .ok apart
  refine ((ruled_checkProbability _ s.continuation).bind fun _ =>
    (ruled_checkProbability _ s.decay).bind fun _ =>
      (ruled_checkProbability _ s.optional).bind fun _ => ends).congr ?_
  exact ⟨fun ⟨first, second, third, fourth⟩ => ⟨first, second, third, fourth⟩,
    fun ⟨first, second, third, fourth⟩ => ⟨first, second, third, fourth⟩⟩

/-- The chances that are standard are valid, whatever the seed. -/
theorem valid_standard (seed : Datum) : Valid { seed } := by
  have half : (Datum.float 0.5).magnitude? = some (.finite (1 / 2)) := by decide +kernel
  have chance : IsProbability (.float 0.5) := ⟨1 / 2, half, by decide +kernel, by decide +kernel⟩
  exact ⟨chance, chance, chance, by rw [half]; decide +kernel⟩

/-- What is asked for by the values of this section. -/
def asked (env : Environment) (values : List (Datum × Datum)) : DecisionSettings where
  seed := given values "seed" (env.fallback "GRAMMARGEN_SEED")
  continuation := given values "continuation_probability" (.float 0.5)
  decay := given values "repetition_decay" (.float 0.5)
  optional := given values "optional_probability" (.float 0.5)

theorem ruled_ofValues {env : Environment} (readable : env.Readable)
    (values : List (Datum × Datum)) :
    Ruled (Named fields values ∧ (asked env values).Valid) (asked env values) AboutValue
      (ofValues env values) := by
  have checked := (ruled_check (asked env values)).returning (a := asked env values)
  refine (ruled_checkFields _ (by decide) values).bind fun _ => ?_
  have seeded := readable.integer_eq "GRAMMARGEN_SEED" (by decide)
  cases found : Datum.lookup values "seed" with
  | some seed =>
    simpa [asked, given, found, Bind.bind, Except.bind, pure, Except.pure] using checked
  | none =>
    simpa [asked, given, found, seeded, Bind.bind, Except.bind, pure, Except.pure] using checked

end DecisionSettings

namespace LimitSettings

/-- All limits are limits. -/
structure Valid (s : LimitSettings) : Prop where
  maxDepth : IsLimit s.maxDepth
  maxOutputSize : IsLimit s.maxOutputSize

theorem ruled_check (s : LimitSettings) : Ruled s.Valid () AboutValue s.check :=
  ((ruled_checkLimit _ s.maxDepth).bind fun _ => ruled_checkLimit _ s.maxOutputSize).congr
    ⟨fun ⟨first, second⟩ => ⟨first, second⟩, fun ⟨first, second⟩ => ⟨first, second⟩⟩

/-- What is asked for by the values of this section. -/
def asked (env : Environment) (values : List (Datum × Datum)) : LimitSettings where
  maxDepth := given values "max_depth" (env.fallback "GRAMMARGEN_MAX_DEPTH")
  maxOutputSize := given values "max_output_size" (env.fallback "GRAMMARGEN_MAX_OUTPUT_SIZE")

theorem ruled_ofValues {env : Environment} (readable : env.Readable)
    (values : List (Datum × Datum)) :
    Ruled (Named fields values ∧ (asked env values).Valid) (asked env values) AboutValue
      (ofValues env values) := by
  have checked := (ruled_check (asked env values)).returning (a := asked env values)
  refine (ruled_checkFields _ (by decide) values).bind fun _ => ?_
  have deep := readable.integer_eq "GRAMMARGEN_MAX_DEPTH" (by decide)
  have large := readable.integer_eq "GRAMMARGEN_MAX_OUTPUT_SIZE" (by decide)
  cases depth : Datum.lookup values "max_depth" <;>
    cases size : Datum.lookup values "max_output_size" <;>
      simpa [asked, given, depth, size, deep, large, Bind.bind, Except.bind, pure, Except.pure]
        using checked

end LimitSettings

namespace LoggingSettings

/-- What is asked for by the values of this section. -/
def asked (values : List (Datum × Datum)) : LoggingSettings where
  level := given values "level" (.str "INFO")
  format := given values "format" (.str "%(asctime)s [%(levelname)s] %(name)s: %(message)s")
  file := plainFile (given values "file" .null)

theorem ruled_ofValues (values : List (Datum × Datum)) :
    Ruled (Named fields values) (asked values) AboutValue (ofValues values) :=
  (ruled_checkFields _ (by decide) values).returning

end LoggingSettings

/-! ### All sections -/

namespace Config

/-- The fields of each section. -/
def schema : List (String × List String) :=
  [("decisions", DecisionSettings.fields), ("limits", LimitSettings.fields),
    ("logging", LoggingSettings.fields)]

/-- What a section is read from: something that does not hold, or a map of its fields. -/
def Fitting (fields : List String) (value : Datum) : Prop :=
  value.truthy = false ∨ ∃ values, value = .map values ∧ Named fields values

/-- All keys name sections, and what stands under them fits. -/
def Shaped (data : List (Datum × Datum)) : Prop :=
  ∀ entry ∈ data, ∃ part ∈ schema, entry.1 = .str part.1 ∧ Fitting part.2 entry.2

/-- A key that names no section. -/
def Unknown (key : Datum) : Prop := ∀ name ∈ sections, key ≠ .str name

/-- The unknown keys can be put in order. -/
def Orderable (data : List (Datum × Datum)) : Prop :=
  (data.map (·.1)).Pairwise fun a b => Unknown a → Unknown b → a.Comparable b

/-- The values that data hold for a section: none unless a map stands there. -/
def valuesOf (data : List (Datum × Datum)) (name : String) : List (Datum × Datum) :=
  match Datum.lookup data name with
  | some (.map values) => values
  | _ => []

/-- The settings that data ask for. -/
def asked (env : Environment) (data : List (Datum × Datum)) : Config where
  decisions := .asked env (valuesOf data "decisions")
  limits := .asked env (valuesOf data "limits")
  logging := .asked (valuesOf data "logging")

structure Valid (c : Config) : Prop where
  decisions : c.decisions.Valid
  limits : c.limits.Valid

theorem valid_iff {c : Config} : c.Valid ↔ c.decisions.Valid ∧ c.limits.Valid :=
  ⟨fun ⟨decisions, limits⟩ => ⟨decisions, limits⟩, fun ⟨decisions, limits⟩ => ⟨decisions, limits⟩⟩

theorem ruled_inSection {α : Type} {admitted : Prop} {a : α} {result : Except Fault α}
    (name : String) (h : Ruled admitted a AboutValue result) :
    Ruled admitted a (· = .value) (inSection name result) := by
  cases h with
  | ok holds => exact .ok holds
  | @error fault fails kind =>
    rcases kind with isValue | isType
    · simp only [inSection, isValue]
      exact .error fails isValue
    · simp only [inSection, isType, if_true]
      cases worded : fault.message with
      | error trouble =>
        obtain rfl := fault.worded_message trouble worded
        exact .error fails rfl
      | ok reason => exact .error fails rfl

theorem ruled_entriesOf (data : List (Datum × Datum)) (name : String) :
    Ruled (∀ value, Datum.lookup data name = some value →
        value.truthy = false ∨ ∃ values, value = .map values)
      (valuesOf data name) (· = .value) (entriesOf data name) := by
  unfold entriesOf valuesOf
  cases Datum.lookup data name with
  | none => exact .ok (by simp)
  | some value =>
    simp only [Option.some.injEq, forall_eq']
    cases holds : value.truthy with
    | false =>
      cases value with
      | map values =>
        obtain rfl : values = [] := by simpa [Datum.truthy] using holds
        exact .ok (.inl rfl)
      | _ => exact .ok (.inl rfl)
    | true =>
      cases value with
      | map values => exact .ok (.inr ⟨values, rfl⟩)
      | _ => exact .error (by simp) rfl

theorem ruled_checkSections (data : List (Datum × Datum)) :
    Ruled (∀ entry ∈ data, ¬ Unknown entry.1) ()
      (fun kind => Orderable data ∧ kind = .value ∨ ¬ Orderable data ∧ kind = .type)
      (checkSections (data.map (·.1))) := by
  have stands (key : Datum) :
      (!sections.any fun name => key.equal (.str name)) = true ↔ Unknown key := by
    simp [Unknown, ← Datum.equal_str_iff]
  unfold checkSections
  generalize gathered : (data.map (·.1)).filter _ = unknown
  have member (key : Datum) : key ∈ unknown ↔ key ∈ data.map (·.1) ∧ Unknown key := by
    rw [← gathered, List.mem_filter, stands]
  have order : unknown.Pairwise Datum.Comparable ↔ Orderable data := by
    rw [← gathered, List.pairwise_filter]
    simp only [stands, Orderable]
  rcases Datum.sort_cases unknown with
    ⟨ordered, sorted, done, perm⟩ | ⟨unordered, fault, failed, kind⟩
  · simp only [done, bind, Except.bind]
    cases sorted with
    | nil =>
      rw [List.nil_perm] at perm
      subst perm
      refine .ok fun entry listed strange => ?_
      exact List.not_mem_nil ((member entry.1).mpr ⟨List.mem_map_of_mem listed, strange⟩)
    | cons key sorted =>
      obtain ⟨keyListed, strange⟩ := (member key).mp (perm.mem_iff.mp List.mem_cons_self)
      obtain ⟨entry, listed, rfl⟩ := List.mem_map.mp keyListed
      exact .error (fun known => known entry listed strange) 
        (.inl ⟨order.mp ordered, Fault.kind_told rfl⟩)
  · simp only [failed, bind, Except.bind]
    refine .error (fun known => ?_) (.inr ⟨fun so => unordered (order.mpr so), kind⟩)
    have none : unknown = [] := by
      refine List.eq_nil_iff_forall_not_mem.mpr fun key unknownKey => ?_
      obtain ⟨keyListed, strange⟩ := (member key).mp unknownKey
      obtain ⟨entry, listed, rfl⟩ := List.mem_map.mp keyListed
      exact known entry listed strange
    exact unordered (none ▸ .nil)

theorem fitting_iff {data : List (Datum × Datum)} {name : String} {fields : List String} :
    (∀ value, Datum.lookup data name = some value → Fitting fields value) ↔
      (∀ value, Datum.lookup data name = some value →
        value.truthy = false ∨ ∃ values, value = .map values) ∧
      Named fields (valuesOf data name) := by
  unfold valuesOf
  cases Datum.lookup data name with
  | none => simp [Named]
  | some value =>
    simp only [Option.some.injEq, forall_eq', Fitting]
    cases value with
    | map values =>
      cases values with
      | nil => simp [Named, Datum.truthy]
      | cons => simp [Datum.truthy]
    | _ => simp [Named]

theorem shaped_iff {data : List (Datum × Datum)} (mapping : Datum.IsSet (data.map (·.1))) :
    Shaped data ↔ (∀ entry ∈ data, ¬ Unknown entry.1) ∧ ∀ part ∈ schema,
      ∀ value, Datum.lookup data part.1 = some value → Fitting part.2 value := by
  have names : sections = schema.map (·.1) := rfl
  have apart : ∀ a ∈ schema, ∀ b ∈ schema, a.1 = b.1 → a = b := by decide
  constructor
  · intro shaped
    refine ⟨fun entry listed strange => ?_, fun part known value found => ?_⟩
    · obtain ⟨part, known, named, _⟩ := shaped entry listed
      exact strange part.1 (names ▸ List.mem_map_of_mem known) named
    · obtain ⟨other, knownToo, named, fits⟩ := shaped _ (Datum.mem_of_lookup found)
      exact apart part known other knownToo (Datum.str.inj named) ▸ fits
  · rintro ⟨known, fits⟩ entry listed
    obtain ⟨key, value⟩ := entry
    obtain ⟨name, standing, rfl⟩ : ∃ name ∈ sections, key = .str name := by
      simpa [Unknown] using known _ listed
    obtain ⟨part, inSchema, rfl⟩ := List.mem_map.mp (names ▸ standing)
    exact ⟨part, inSchema, rfl, fits part inSchema value (Datum.lookup_of_mem mapping listed)⟩

/-- The sections of data are read exactly if all of them fit and their settings are sound. -/
theorem ruled_parts {env : Environment} (readable : env.Readable) (data : List (Datum × Datum)) :
    Ruled ((∀ part ∈ schema, ∀ value, Datum.lookup data part.1 = some value →
        Fitting part.2 value) ∧ (asked env data).Valid) (asked env data) (· = .value) (do
      let decisions ←
        inSection "decisions" (DecisionSettings.ofValues env (← entriesOf data "decisions"))
      let limits ← inSection "limits" (LimitSettings.ofValues env (← entriesOf data "limits"))
      let logging ← inSection "logging" (LoggingSettings.ofValues (← entriesOf data "logging"))
      return { decisions, limits, logging }) := by
  have made : Ruled True (asked env data) (· = .value) (pure (asked env data)) := .ok trivial
  refine .congr (.bind (ruled_entriesOf data "decisions") fun _ =>
    .bind (ruled_inSection _ (DecisionSettings.ruled_ofValues readable _)) fun _ =>
    .bind (ruled_entriesOf data "limits") fun _ =>
    .bind (ruled_inSection _ (LimitSettings.ruled_ofValues readable _)) fun _ =>
    .bind (ruled_entriesOf data "logging") fun _ =>
    .bind (ruled_inSection _ (LoggingSettings.ruled_ofValues _)) fun _ => made) ?_
  simp only [schema, List.forall_mem_cons, List.not_mem_nil, false_implies, implies_true,
    fitting_iff, valid_iff, asked]
  tauto

theorem orderable_of_known {data : List (Datum × Datum)}
    (known : ∀ entry ∈ data, ¬ Unknown entry.1) : Orderable data := by
  refine List.pairwise_of_forall_mem_list fun a listed b _ strange => ?_
  obtain ⟨entry, member, rfl⟩ := List.mem_map.mp listed
  exact absurd strange (known entry member)

theorem ruled_ofEntries {env : Environment} (readable : env.Readable)
    {data : List (Datum × Datum)} (mapping : Datum.IsSet (data.map (·.1))) :
    Ruled (Shaped data ∧ (asked env data).Valid) (asked env data)
      (fun kind => Orderable data ∧ kind = .value ∨ ¬ Orderable data ∧ kind = .type)
      (ofEntries env data) :=
  ((ruled_checkSections data).bind fun known =>
    (ruled_parts readable data).mono fun _ isValue =>
      .inl ⟨orderable_of_known known, isValue⟩).congr
    (by rw [shaped_iff mapping, and_assoc])

/-- Data are read exactly if they have the shape and ask for valid settings, and those settings are
what is made of them.  A refusal is a fault about a value, unless there are unknown keys that cannot
be put in order; then it is one about a type. -/
theorem ofDatum_verdict {env : Environment} (readable : env.Readable)
    {data : List (Datum × Datum)} (mapping : Datum.IsSet (data.map (·.1))) :
    (∀ c, ofDatum env (.map data) = .ok c ↔
      Shaped data ∧ (asked env data).Valid ∧ c = asked env data) ∧
    ∀ fault, ofDatum env (.map data) = .error fault →
      Orderable data ∧ fault.kind = .value ∨ ¬ Orderable data ∧ fault.kind = .type := by
  have ruled := ruled_ofEntries readable mapping
  refine ⟨fun c => ?_, fun fault refused => ruled.kind_of_error refused⟩
  exact ruled.eq_ok_iff.trans and_assoc

/-- A variable that is set but blank. -/
def blankSeed : Environment := [("GRAMMARGEN_SEED", " ")]

/-- Data with a limit and a section that does not hold. -/
def shallow : List (Datum × Datum) :=
  [(.str "limits", .map [(.str "max_depth", .int 3)]), (.str "decisions", .null)]

theorem shallow_ofDatum_verdict : blankSeed.Readable ∧ Datum.IsSet (shallow.map (·.1)) ∧
    ofDatum blankSeed (.map shallow) = .ok { limits := { maxDepth := .int 3 } } := by
  have readable : blankSeed.Readable := by
    intro name listed
    simp only [Environment.fallbacks, List.mem_cons, List.not_mem_nil, or_false] at listed
    rcases listed with rfl | rfl | rfl <;> exact ⟨.null, rfl⟩
  have mapping : Datum.IsSet (shallow.map (·.1)) :=
    ⟨by simp [shallow, Datum.hashable], by simp [shallow]⟩
  refine ⟨readable, mapping, ((ofDatum_verdict readable mapping).1 _).mpr ⟨?_, ⟨?_, ?_⟩, ?_⟩⟩
  · intro entry listed
    simp only [shallow, List.mem_cons, List.not_mem_nil, or_false] at listed
    rcases listed with rfl | rfl
    · refine ⟨("limits", LimitSettings.fields), by simp [schema], rfl, .inr ⟨_, rfl, ?_⟩⟩
      simp [Named, LimitSettings.fields]
    · exact ⟨("decisions", DecisionSettings.fields), by simp [schema], rfl, .inl rfl⟩
  · exact DecisionSettings.valid_standard .null
  · exact ⟨.inr ⟨_, rfl, by decide⟩, .inl rfl⟩
  · rfl

/-- An empty list counts as a section, and unknown keys of two types are refused by their types. -/
theorem empty_list_read :
    (∃ c, ofDatum [] (.map [(.str "limits", .list [])]) = .ok c) ∧
      ∃ fault, ofDatum [] (.map [(.int 1, .null), (.str "x", .null)]) = .error fault ∧
        fault.kind = .type := by
  constructor
  · have mapping : Datum.IsSet ([(Datum.str "limits", Datum.list [])].map (·.1)) :=
      ⟨by simp [Datum.hashable], by simp⟩
    refine ⟨_, (ruled_ofEntries Environment.readable_nil mapping).eq_ok_iff.mpr
      ⟨⟨?_, ?_, ?_⟩, rfl⟩⟩
    · intro entry listed
      obtain rfl := List.mem_singleton.mp listed
      exact ⟨("limits", LimitSettings.fields), by simp [schema], rfl, .inl rfl⟩
    · exact DecisionSettings.valid_standard .null
    · exact ⟨.inl rfl, .inl rfl⟩
  · exact ⟨_, rfl, rfl⟩

end Config

end SentenceGen
