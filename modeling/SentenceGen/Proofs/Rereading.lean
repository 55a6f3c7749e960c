import SentenceGen.Proofs.Sections

/-!
# Reading settings back

Settings list all their fields, so nothing is left to the environment when they are read back: they
are read back as they are, whatever the environment holds by then.  A log file is kept as a plain
path, and a plain path is its own plain form.
-/

namespace SentenceGen

/-! ### Plain paths -/

namespace Path

theorem not_mem_of_mem_splitOn {c : Char} {part text : List Char}
    (listed : part ∈ text.splitOn c) : c ∉ part := by
  induction text generalizing part with
  | nil =>
    rw [List.splitOn_nil, List.mem_singleton] at listed
    simp [listed]
  | cons first rest ih =>
    rw [List.splitOn_cons_eq_if_modifyHead] at listed
    split at listed
    next =>
      rcases List.mem_cons.mp listed with rfl | later
      · exact List.not_mem_nil
      · exact ih later
    next other =>
      cases parts : rest.splitOn c with
      | nil => exact absurd parts (List.splitOn_ne_nil c rest)
      | cons head tail =>
        rw [parts] at listed ih
        rcases List.mem_cons.mp listed with rfl | later
        · rw [List.mem_cons, not_or]
          exact ⟨fun same => other (beq_iff_eq.mpr same.symm), ih List.mem_cons_self⟩
        · exact ih (List.mem_cons_of_mem _ later)

/-- What may stand between the slashes of a plain path. -/
structure IsName (name : String) : Prop where
  present : name ≠ ""
  leads : name ≠ "."
  whole : '/' ∉ name.toList

theorem isName_of_mem_namesOf {text : List Char} {name : String} (listed : name ∈ namesOf text) :
    IsName name := by
  obtain ⟨part, kept⟩ := List.mem_filter.mp listed
  obtain ⟨chars, split, rfl⟩ := List.mem_map.mp part
  rw [Bool.and_eq_true, bne_iff_ne, bne_iff_ne] at kept
  exact ⟨kept.1, kept.2, by simpa using not_mem_of_mem_splitOn split⟩

/-- A slash more in front changes no name. -/
theorem namesOf_slash (text : List Char) : namesOf ('/' :: text) = namesOf text := by
  simp [namesOf, List.splitOn_cons_eq_if_modifyHead]

theorem namesOf_intercalate {names : List String} (plain : ∀ name ∈ names, IsName name) :
    namesOf (['/'].intercalate (names.map String.toList)) = names := by
  have kept : names.filter (fun name => name != "" && name != ".") = names := by
    rw [List.filter_eq_self]
    intro name listed
    simp [(plain name listed).present, (plain name listed).leads]
  cases names with
  | nil => decide
  | cons first rest =>
    have whole : ∀ part ∈ (first :: rest).map String.toList, '/' ∉ part := by
      intro part listed
      obtain ⟨name, member, rfl⟩ := List.mem_map.mp listed
      exact (plain name member).whole
    rw [namesOf, List.splitOn_intercalate '/' whole (by simp), List.map_map]
    have spelled : String.ofList ∘ String.toList = id := by
      funext name
      simp
    rw [spelled, List.map_id, kept]

/-- Names that are put together do not begin with a slash. -/
theorem head_intercalate {names : List String} (plain : ∀ name ∈ names, IsName name) :
    (['/'].intercalate (names.map String.toList)).head? ≠ some '/' := by
  cases names with
  | nil => simp
  | cons first rest =>
    obtain ⟨present, _, whole⟩ := plain first List.mem_cons_self
    cases spelled : first.toList with
    | nil => exact absurd (String.toList_eq_nil_iff.mp spelled) present
    | cons c more =>
      have other : c ≠ '/' := by
        rintro rfl
        rw [spelled] at whole
        exact whole List.mem_cons_self
      cases rest <;> simp [spelled, other]

theorem rootOf_cases (text : List Char) :
    rootOf text = "" ∨ rootOf text = "/" ∨ rootOf text = "//" := by
  unfold rootOf
  split <;> simp

theorem rootOf_of_head {text : List Char} (other : text.head? ≠ some '/') : rootOf text = "" := by
  cases text with
  | nil => rfl
  | cons c rest =>
    have : c ≠ '/' := by simpa using other
    simp [rootOf, this]

theorem rootOf_slash {text : List Char} (other : text.head? ≠ some '/') :
    rootOf ('/' :: text) = "/" ∧ rootOf ('/' :: '/' :: text) = "//" := by
  cases text with
  | nil => exact ⟨rfl, rfl⟩
  | cons c rest =>
    have : c ≠ '/' := by simpa using other
    simp [rootOf, this]

/-- A path as texts are read. -/
structure IsPlain (path : Path) : Prop where
  root : path.root = "" ∨ path.root = "/" ∨ path.root = "//"
  names : ∀ name ∈ path.names, IsName name

theorem isPlain_ofText (text : String) : (ofText text).IsPlain where
  root := rootOf_cases text.toList
  names _ := isName_of_mem_namesOf

/-- A plain path is read as it is written. -/
theorem IsPlain.ofText_text {path : Path} (plain : path.IsPlain) : ofText path.text = path := by
  obtain ⟨root, names⟩ := path
  obtain ⟨rooted, named⟩ := plain
  have first := head_intercalate named
  have again := namesOf_intercalate named
  have spelled : ("/".intercalate names).toList = ['/'].intercalate (names.map String.toList) :=
    String.toList_intercalate
  simp only [text, ofText]
  split
  next empty =>
    obtain ⟨rfl, joined⟩ := String.append_eq_empty_iff.mp empty
    rw [← spelled, joined] at again
    rw [show names = [] from again.symm]
    decide
  next =>
    obtain rfl | rfl | rfl := rooted
    · simp [spelled, rootOf_of_head first, again]
    · simp [spelled, rootOf_slash first, namesOf_slash, again]
    · simp [spelled, rootOf_slash first, namesOf_slash, again]

theorem text_ne_empty (path : Path) : path.text ≠ "" := by
  unfold text
  split
  next => simp
  next present => exact present

end Path
/-! ### Sections -/

/-- A computation with a result went through its first part. -/
theorem exists_of_bind_eq_ok {α β : Type} {first : Except Fault α} {next : α → Except Fault β}
    {b : β} (done : first >>= next = .ok b) : ∃ a, first = .ok a ∧ next a = .ok b := by
  cases first with
  | error fault => cases done
  | ok a => exact ⟨a, rfl, done⟩

/-- What is returned after a check is what was checked. -/
theorem checked_of_returned {α : Type} {check : α → Except Fault Unit} {a b : α}
    (done : (check a >>= fun _ => pure a) = .ok b) : check b = .ok () := by
  obtain ⟨_, checked, returned⟩ := exists_of_bind_eq_ok done
  cases returned
  exact checked

namespace DecisionSettings

/-- Settings are checked before they are returned. -/
theorem check_of_ofValues {env : Environment} {values : List (Datum × Datum)}
    {s : DecisionSettings} (made : ofValues env values = .ok s) : s.check = .ok () := by
  obtain ⟨_, _, rest⟩ := exists_of_bind_eq_ok made
  split at rest
  all_goals
    obtain ⟨_, _, returned⟩ := exists_of_bind_eq_ok rest
    exact checked_of_returned returned

/-- All fields are given, so the environment is not asked. -/
theorem ofValues_toEntries {s : DecisionSettings} (checked : s.check = .ok ())
    (env : Environment) : ofValues env s.toEntries = .ok s := by
  have known : checkFields "DecisionConfig" fields s.toEntries = .ok () := rfl
  change (checkFields "DecisionConfig" fields s.toEntries >>= fun _ =>
    s.check >>= fun _ => pure s) = .ok s
  rw [known, checked]
  rfl

end DecisionSettings

namespace LimitSettings

/-- Settings are checked before they are returned. -/
theorem check_of_ofValues {env : Environment} {values : List (Datum × Datum)}
    {s : LimitSettings} (made : ofValues env values = .ok s) : s.check = .ok () := by
  obtain ⟨_, _, rest⟩ := exists_of_bind_eq_ok made
  split at rest <;> split at rest
  all_goals
    obtain ⟨_, _, rest⟩ := exists_of_bind_eq_ok rest
    obtain ⟨_, _, returned⟩ := exists_of_bind_eq_ok rest
    exact checked_of_returned returned

/-- All fields are given, so the environment is not asked. -/
theorem ofValues_toEntries {s : LimitSettings} (checked : s.check = .ok ())
    (env : Environment) : ofValues env s.toEntries = .ok s := by
  have known : checkFields "LimitsConfig" fields s.toEntries = .ok () := rfl
  change (checkFields "LimitsConfig" fields s.toEntries >>= fun _ =>
    s.check >>= fun _ => pure s) = .ok s
  rw [known, checked]
  rfl

end LimitSettings

namespace LoggingSettings

theorem plainFile_plainFile (d : Datum) : plainFile (plainFile d) = plainFile d := by
  cases d with
  | str text =>
    by_cases empty : text = ""
    · subst empty
      rfl
    · have plain : plainFile (.str text) = .str (Path.ofText text).text := by
        simp [plainFile]
      rw [plain]
      simp [plainFile, Path.text_ne_empty, (Path.isPlain_ofText text).ofText_text]
  | _ => rfl

/-- The file of settings that were made is plain. -/
theorem plainFile_of_ofValues {values : List (Datum × Datum)} {s : LoggingSettings}
    (made : ofValues values = .ok s) : plainFile s.file = s.file := by
  obtain ⟨_, _, returned⟩ := exists_of_bind_eq_ok made
  cases returned
  exact plainFile_plainFile _

theorem ofValues_toEntries {s : LoggingSettings} (plain : plainFile s.file = s.file) :
    ofValues s.toEntries = .ok s := by
  have known : checkFields "LoggingConfig" fields s.toEntries = .ok () := rfl
  change (checkFields "LoggingConfig" fields s.toEntries >>= fun _ =>
    pure { s with file := plainFile s.file }) = .ok s
  rw [known, plain]
  rfl

end LoggingSettings

/-! ### Settings -/

namespace Config

theorem inSection_eq_ok {α : Type} {name : String} {result : Except Fault α} {a : α}
    (done : inSection name result = .ok a) : result = .ok a := by
  cases result with
  | ok _ => exact done
  | error fault =>
    simp only [inSection] at done
    split at done
    · cases worded : fault.message <;> rw [worded] at done <;> cases done
    · cases done

/-- Each section was made of some values, in whatever environment. -/
structure Assembled (c : Config) : Prop where
  decisions : ∃ env values, DecisionSettings.ofValues env values = .ok c.decisions
  limits : ∃ env values, LimitSettings.ofValues env values = .ok c.limits
  logging : ∃ values, LoggingSettings.ofValues values = .ok c.logging

/-- Where settings come from: they are read from data, they are the standard ones, or their sections
were made one by one. -/
inductive Produced : Config → Prop where
  | read {env : Environment} {data : Datum} {c : Config} (done : ofDatum env data = .ok c) :
    Produced c
  | standard {env : Environment} {c : Config} (done : default env = .ok c) : Produced c
  | assembled {c : Config} (made : c.Assembled) : Produced c

theorem assembled_of_ofEntries {env : Environment} {data : List (Datum × Datum)} {c : Config}
    (done : ofEntries env data = .ok c) : c.Assembled := by
  obtain ⟨_, _, done⟩ := exists_of_bind_eq_ok done
  obtain ⟨_, _, done⟩ := exists_of_bind_eq_ok done
  obtain ⟨_, decisions, done⟩ := exists_of_bind_eq_ok done
  obtain ⟨_, _, done⟩ := exists_of_bind_eq_ok done
  obtain ⟨_, limits, done⟩ := exists_of_bind_eq_ok done
  obtain ⟨_, _, done⟩ := exists_of_bind_eq_ok done
  obtain ⟨_, logging, done⟩ := exists_of_bind_eq_ok done
  cases done
  exact ⟨⟨env, _, inSection_eq_ok decisions⟩, ⟨env, _, inSection_eq_ok limits⟩,
    ⟨_, inSection_eq_ok logging⟩⟩

theorem Produced.made {c : Config} (produced : Produced c) : c.Assembled := by
  cases produced with
  | @read env data _ done =>
    cases data with
    | map entries => exact assembled_of_ofEntries done
    | _ =>
      obtain ⟨_, _, done⟩ := exists_of_bind_eq_ok done
      obtain ⟨_, _, done⟩ := exists_of_bind_eq_ok done
      obtain ⟨_, _, done⟩ := exists_of_bind_eq_ok done
      cases done
  | @standard env _ done =>
    obtain ⟨_, decisions, done⟩ := exists_of_bind_eq_ok done
    obtain ⟨_, limits, done⟩ := exists_of_bind_eq_ok done
    cases done
    exact ⟨⟨env, [], decisions⟩, ⟨env, [], limits⟩, ⟨[], rfl⟩⟩
  | assembled made => exact made

/-- Settings that are listed are read back as they are, in whatever environment. -/
theorem Produced.ofDatum_toEntries {c : Config} (produced : Produced c) (env : Environment) :
    ofDatum env (.map c.toEntries) = .ok c := by
  obtain ⟨⟨_, _, decisions⟩, ⟨_, _, limits⟩, ⟨_, logging⟩⟩ := produced.made
  have decisions :=
    DecisionSettings.ofValues_toEntries (DecisionSettings.check_of_ofValues decisions) env
  have limits := LimitSettings.ofValues_toEntries (LimitSettings.check_of_ofValues limits) env
  have logging := LoggingSettings.ofValues_toEntries (LoggingSettings.plainFile_of_ofValues logging)
  have known : checkSections (c.toEntries.map (·.1)) = .ok () := rfl
  change (checkSections (c.toEntries.map (·.1)) >>= fun _ =>
    inSection "decisions" (DecisionSettings.ofValues env c.decisions.toEntries) >>= fun decisions =>
    inSection "limits" (LimitSettings.ofValues env c.limits.toEntries) >>= fun limits =>
    inSection "logging" (LoggingSettings.ofValues c.logging.toEntries) >>= fun logging =>
    pure { decisions, limits, logging }) = .ok c
  rw [known, decisions, limits, logging]
  rfl

/-- Data with a log file, whose path is not plain. -/
def logged : List (Datum × Datum) :=
  [(.str "logging", .map [(.str "file", .str "logs//./run.log")])]

/-- Neither the seed nor the limits are taken from variables that are set later. -/
theorem logged_ofDatum_toEntries :
    ∃ c, ofDatum [] (.map logged) = .ok c ∧ c.logging.file = .str "logs/run.log" ∧
      c.decisions.seed = .null ∧ c.limits.maxDepth = .null ∧
      ofDatum [("GRAMMARGEN_SEED", "many"), ("GRAMMARGEN_MAX_DEPTH", "5")] (.map c.toEntries) =
        .ok c := by
  have mapping : Datum.IsSet (logged.map (·.1)) :=
    ⟨by simp [logged, Datum.hashable], by simp [logged]⟩
  have shaped : Shaped logged := by
    intro entry listed
    obtain rfl := List.mem_singleton.mp listed
    refine ⟨("logging", LoggingSettings.fields), by simp [schema], rfl, .inr ⟨_, rfl, ?_⟩⟩
    simp [Named, LoggingSettings.fields]
  have valid : (asked [] logged).Valid :=
    ⟨DecisionSettings.valid_standard .null, .inl rfl, .inl rfl⟩
  have done : ofDatum [] (.map logged) = .ok (asked [] logged) :=
    (ruled_ofEntries Environment.readable_nil mapping).eq_ok_iff.mpr ⟨⟨shaped, valid⟩, rfl⟩
  exact ⟨_, done, by rfl, rfl, rfl, (Produced.read done).ofDatum_toEntries _⟩

end Config

end SentenceGen
