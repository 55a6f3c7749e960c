import SentenceGen.Proofs.Bindings
import SentenceGen.Proofs.Companions

/-!
# Callbacks that only expand

A callback that does nothing but to expand its production by its own rule is as good as none.  While
it runs there is one more open context, so this needs that other callbacks do not invent contexts:
they use the one that they were called with and those that they find in their data.
-/

namespace SentenceGen

/-- The program uses only contexts that it knows, and leaves no others in its data; `holds` tells
the contexts that data hold.  The engine alone makes contexts, so a program comes by one only if it
is its own or if it finds it in the data. -/
def Program.Honest {κ α : Type} (holds : κ → Context → Prop) :
    Program κ α → (Context → Prop) → Prop
  | .done _, _ => True
  | .write target _ next, known => known target ∧ ∀ result, (next result).Honest holds known
  | .expand target next, known => known target ∧ ∀ result, (next result).Honest holds known
  | .ask _ next, known => ∀ answer, (next answer).Honest holds known
  | .look next, known =>
    ∀ view, (next view).Honest holds fun context => known context ∨ holds view.user context
  | .store user next, known => (∀ context, holds user context → known context) ∧
    next.Honest holds known

/-- Every callback knows the context that it is called with and those that it finds in its data. -/
def Replacements.Honest {κ : Type} (r : Replacements (Callback κ))
    (holds : κ → Context → Prop) : Prop :=
  ∀ name callback, r.find? name = some callback →
    ∀ own, (callback own).run.Honest holds (· = own)

/-- The table differs by callbacks that only expand, for productions without one. -/
def Replacements.PassesOn {κ : Type} (r r' : Replacements (Callback κ)) : Prop :=
  ∀ name, r'.find? name = r.find? name ∨
    r.find? name = none ∧ r'.find? name = some Action.expandDefault

namespace Replacements

variable {κ : Type} {r : Replacements (Callback κ)}

/-- The contexts of replaced productions. -/
def screen (r : Replacements (Callback κ)) (live : List Context) : List Context :=
  live.filter fun context => (r.find? context.name).isSome

theorem screen_cons_of_bound {target : Context} (bound : (r.find? target.name).isSome = true)
    (live : List Context) : r.screen (target :: live) = target :: r.screen live :=
  List.filter_cons_of_pos bound

theorem screen_cons_of_unbound {target : Context} (unbound : r.find? target.name = none)
    (live : List Context) : r.screen (target :: live) = r.screen live :=
  List.filter_cons_of_neg (by simp [unbound])

theorem contains_screen {target : Context} (bound : (r.find? target.name).isSome = true)
    (live : List Context) : (r.screen live).contains target = live.contains target := by
  rw [Bool.eq_iff_iff]
  simp [screen, bound]

end Replacements

namespace Expand

variable {σ κ α β : Type} {holds : κ → Context → Prop} {r r' : Replacements (Callback κ)}

/-- Of the contexts open in the second engine, those of replaced productions are open in the first
one too, and the data hold no others. -/
structure Screened (r : Replacements (Callback κ)) (holds : κ → Context → Prop)
    (live : List Context) (s : Expansion σ κ) : Prop where
  live_eq : s.live = r.screen live
  bound : ∀ context, holds s.user context → (r.find? context.name).isSome = true

/-- The second action does the same with more contexts open. -/
def Mirrors (r : Replacements (Callback κ)) (holds : κ → Context → Prop)
    (a a' : Expand σ κ α) : Prop :=
  ∀ s live, Screened r holds live s →
    a'.exec { s with live } = ((a.exec s).1, { (a.exec s).2 with live }) ∧
      Screened r holds live (a.exec s).2

variable {a a' : Expand σ κ α}

theorem Mirrors.bind {k k' : α → Expand σ κ β} (first : Mirrors r holds a a')
    (second : ∀ x, Mirrors r holds (k x) (k' x)) : Mirrors r holds (a >>= k) (a' >>= k') := by
  intro s live screened
  obtain ⟨same, after⟩ := first s live screened
  rcases ran : a.exec s with ⟨fault | x, t⟩
  · rw [ran] at same after
    rw [exec_bind_of_error ran, exec_bind_of_error same]
    exact ⟨rfl, after⟩
  · rw [ran] at same after
    rw [exec_bind_of_ok ran, exec_bind_of_ok same]
    exact second x t live after

theorem Mirrors.attempt {k k' : Except Fault α → Expand σ κ β} (first : Mirrors r holds a a')
    (second : ∀ result, Mirrors r holds (k result) (k' result)) :
    Mirrors r holds (attempt a k) (attempt a' k') := by
  intro s live screened
  obtain ⟨same, after⟩ := first s live screened
  rw [exec_attempt, exec_attempt, same]
  exact second _ _ live after

theorem mirrors_pure (x : α) : Mirrors r holds (pure x : Expand σ κ α) (pure x) :=
  fun _ _ screened => ⟨rfl, screened⟩

theorem mirrors_throw (fault : Fault) :
    Mirrors r holds (throw fault : Expand σ κ α) (throw fault) :=
  fun _ _ screened => ⟨rfl, screened⟩

theorem mirrors_lift (result : Except Fault α) :
    Mirrors r holds (liftM result : Expand σ κ α) (liftM result) :=
  fun _ _ screened => ⟨rfl, screened⟩

theorem mirrors_addNode (node : Node) :
    Mirrors r holds (addNode node : Expand σ κ NodeId) (addNode node) :=
  fun _ _ screened => ⟨rfl, screened.live_eq, screened.bound⟩

theorem mirrors_nextSite : Mirrors r holds (nextSite : Expand σ κ RepetitionSite) nextSite :=
  fun _ _ screened => ⟨rfl, screened.live_eq, screened.bound⟩

theorem mirrors_ask [DecisionSource σ] (q : Question) :
    Mirrors r holds (ask q : Expand σ κ Datum) (ask q) :=
  fun _ _ screened => ⟨rfl, screened.live_eq, screened.bound⟩

theorem mirrors_leaf {plan plan' : Plan κ} (sized : plan'.maxSize = plan.maxSize) (label : Label)
    (parent : Option NodeId) :
    Mirrors r holds (leaf plan label parent : Expand σ κ Unit) (leaf plan' label parent) := by
  intro s live screened
  have judged (n : Nat) : appendOutcome plan' n = appendOutcome plan n := by
    rw [appendOutcome, appendOutcome, sized]
  constructor
  · rw [exec_leaf, exec_leaf]
    simp only [judged]
    rcases s.tree.add (label.under parent) with ⟨fault | id, tree⟩
    · rfl
    · by_cases empty : label.text = ""
      · simp only [empty, if_true]
      · simp only [empty, if_false]
  · obtain ⟨chunks, size, left⟩ := exec_leaf_left plan label parent s
    rw [left]
    exact ⟨screened.live_eq, screened.bound⟩

/-- Contexts of replaced productions are open in both engines or in none. -/
theorem mirrors_requireOpen {target : Context}
    (bound : (r.find? target.name).isSome = true) :
    Mirrors r holds (requireOpen target : Expand σ κ Unit) (requireOpen target) := by
  intro s live screened
  have same : s.live.contains target = live.contains target := by
    rw [screened.live_eq, Replacements.contains_screen bound]
  rw [exec_requireOpen, exec_requireOpen, same]
  exact ⟨rfl, screened⟩

theorem mirrors_writeTo {plan plan' : Plan κ} (sized : plan'.maxSize = plan.maxSize)
    {target : Context} (bound : (r.find? target.name).isSome = true) (text : Datum) :
    Mirrors r holds (writeTo plan target text : Expand σ κ Unit) (writeTo plan' target text) := by
  apply (mirrors_requireOpen bound).bind
  intro _
  cases text with
  | str text => exact mirrors_leaf sized { kind := .literal, text } _
  | _ => exact mirrors_throw _

theorem Mirrors.within {a a' : Expand σ κ Unit} (h : Mirrors r holds a a') (name : String) :
    Mirrors r holds (within name a) (within name a') := by
  intro s live screened
  obtain ⟨same, after⟩ := h { s with productions := name :: s.productions } live
    ⟨screened.live_eq, screened.bound⟩
  rw [exec_within, exec_within, same]
  exact ⟨rfl, after.live_eq, after.bound⟩

theorem Mirrors.nested {plan plan' : Plan κ} (deep : plan'.maxDepth = plan.maxDepth)
    {a a' : Expand σ κ Unit} (h : Mirrors r holds a a') :
    Mirrors r holds (nested plan a) (nested plan' a') := by
  intro s live screened
  have level : levelOutcome plan' (s.depth + 1) s.productions =
      levelOutcome plan (s.depth + 1) s.productions := by
    rw [levelOutcome, levelOutcome, deep]
  rw [exec_nested, exec_nested, level]
  cases levelOutcome plan (s.depth + 1) s.productions with
  | error fault => exact ⟨rfl, screened⟩
  | ok _ =>
    obtain ⟨same, after⟩ := h { s with depth := s.depth + 1 } live
      ⟨screened.live_eq, screened.bound⟩
    simp only [same]
    exact ⟨trivial, after.live_eq, after.bound⟩

/-! ### Programs -/

variable {plan : Plan κ} {expand₁ expand₂ : Rule → Option NodeId → Expand σ κ Unit}

theorem mirrors_expandIn
    (each : ∀ rule parent, Mirrors r holds (expand₁ rule parent) (expand₂ rule parent))
    {target : Context} (bound : (r.find? target.name).isSome = true) :
    Mirrors r holds (expandIn plan expand₁ target)
      (expandIn { plan with replacements := r' } expand₂ target) := by
  apply (mirrors_requireOpen bound).bind
  intro _
  apply (mirrors_lift _).bind
  intro body
  exact each body _

variable [DecisionSource σ]

variable (plan r') in
/-- What a program knows are contexts of replaced productions. -/
theorem mirrors_serve
    (each : ∀ rule parent, Mirrors r holds (expand₁ rule parent) (expand₂ rule parent))
    (program : Program κ (Except Fault Unit)) {known : Context → Prop}
    (honest : program.Honest holds known)
    (bound : ∀ context, known context → (r.find? context.name).isSome = true) :
    Mirrors r holds (serve plan expand₁ program)
      (serve { plan with replacements := r' } expand₂ program) := by
  induction program generalizing known with
  | done result => exact fun _ _ screened => ⟨rfl, screened⟩
  | write target text next ih =>
    rw [serve_write, serve_write]
    exact (mirrors_writeTo rfl (bound target honest.1) text).attempt fun result =>
      ih result (honest.2 result) bound
  | expand target next ih =>
    rw [serve_expand, serve_expand]
    exact (mirrors_expandIn each (bound target honest.1)).attempt fun result =>
      ih result (honest.2 result) bound
  | ask question next ih =>
    rw [serve_ask, serve_ask]
    exact (mirrors_ask question).attempt fun result => ih result (honest result) bound
  | look next ih =>
    intro s live screened
    apply ih ⟨s.tree, s.user⟩ (honest _) ?_ s live screened
    rintro context (earlier | found)
    · exact bound context earlier
    · exact screened.bound context found
  | store user next ih =>
    intro s live screened
    exact ih honest.2 bound { s with user } live
      ⟨screened.live_eq, fun context held => bound context (honest.1 context held)⟩

theorem mirrors_replace
    (each : ∀ rule parent, Mirrors r holds (expand₁ rule parent) (expand₂ rule parent))
    {callback : Callback κ} {target : Context}
    (honest : (callback target).run.Honest holds (· = target))
    (bound : (r.find? target.name).isSome = true) :
    Mirrors r holds (replace plan expand₁ callback target)
      (replace { plan with replacements := r' } expand₂ callback target) := by
  intro s live screened
  have opened : Screened r holds (target :: live) { s with live := target :: s.live } := by
    refine ⟨?_, screened.bound⟩
    rw [Replacements.screen_cons_of_bound bound, screened.live_eq]
  obtain ⟨same, after⟩ := mirrors_serve r' plan each (callback target).run honest
    (by rintro _ rfl; exact bound) _ _ opened
  rw [exec_replace, exec_replace]
  simp only [same, List.erase_cons_head]
  refine ⟨trivial, ?_, after.bound⟩
  rw [after.live_eq, Replacements.screen_cons_of_bound bound, List.erase_cons_head]

variable (plan expand₁) in
theorem exec_serve_expandDefault {target : Context} {body : Rule}
    (defined : plan.grammar.production target.name = .ok body) (live : List Context)
    (s : Expansion σ κ) :
    (serve plan expand₁ (Action.expandDefault target).run).exec
        { s with live := target :: live } =
      (expand₁ body (some target.node)).exec { s with live := target :: live } := by
  change (expandIn plan expand₁ target).exec { s with live := target :: live } = _
  rw [expandIn, exec_bind, exec_requireOpen, List.contains_cons, beq_self_eq_true, Bool.true_or,
    if_pos rfl]
  simp only
  rw [exec_bind, exec_lift, defined]

/-- A callback that only expands does what is done without it. -/
theorem mirrors_expandDefault
    (each : ∀ rule parent, Mirrors r holds (expand₁ rule parent) (expand₂ rule parent))
    (target : Context) (unbound : r.find? target.name = none) {body : Rule}
    (defined : plan.grammar.production target.name = .ok body) :
    Mirrors r holds (expand₁ body (some target.node))
      (replace { plan with replacements := r' } expand₂ Action.expandDefault target) := by
  intro s live screened
  have opened : Screened r holds (target :: live) s := by
    refine ⟨?_, screened.bound⟩
    rw [Replacements.screen_cons_of_unbound unbound, screened.live_eq]
  obtain ⟨same, after⟩ := each body (some target.node) s _ opened
  have found : ({ plan with replacements := r' } : Plan κ).grammar.production target.name =
      .ok body := defined
  rw [exec_replace]
  simp only [exec_serve_expandDefault _ expand₂ found, same, List.erase_cons_head]
  refine ⟨trivial, ?_, after.bound⟩
  rw [after.live_eq, Replacements.screen_cons_of_unbound unbound]

/-! ### The engine -/

theorem mirroring (plan : Plan κ) (honest : plan.replacements.Honest holds)
    (passes : plan.replacements.PassesOn r') :
    Simulation σ σ plan { plan with replacements := r' } (fun _ => True)
      (fun _ a a' => Mirrors plan.replacements holds a a')
      (fun _ a a' => Mirrors plan.replacements holds a a') where
  child _ _ := trivial
  body _ _ := trivial
  production_eq _ := rfl
  classOf_eq _ := rfl
  fails _ _ _ := mirrors_throw _
  asks q next := (mirrors_ask q).bind next
  meets next := mirrors_nextSite.bind next
  leaf label parent := mirrors_leaf rfl label parent
  opens label parent below := (mirrors_addNode _).bind below
  done _ := mirrors_pure ()
  next first second := first.bind fun _ => second
  produces {expand₁ expand₂ name body} id _ defined each := by
    have each (rule : Rule) (parent : Option NodeId) :
        Mirrors plan.replacements holds (expand₁ rule parent) (expand₂ rule parent) :=
      each rule parent trivial
    apply Mirrors.within
    unfold produce
    rcases passes name with same | ⟨unbound, passing⟩
    · rw [show ({ plan with replacements := r' } : Plan κ).replacements.find? name = _ from same]
      split
      next => exact each body _
      next callback found =>
        exact fun s => mirrors_replace each (honest name callback found ⟨s.call, id, name⟩)
          (by simp [found]) s
    · rw [show ({ plan with replacements := r' } : Plan κ).replacements.find? name = _ from passing,
        unbound]
      exact fun s => mirrors_expandDefault each ⟨s.call, id, name⟩ unbound defined s

theorem mirrors_expand (plan : Plan κ) (honest : plan.replacements.Honest holds)
    (passes : plan.replacements.PassesOn r') (fuel : Nat) (rule : Rule) (parent : Option NodeId) :
    Mirrors plan.replacements holds (expand plan fuel rule parent : Expand σ κ Unit)
      (expand { plan with replacements := r' } fuel rule parent) := by
  induction fuel generalizing rule parent with
  | zero => exact mirrors_throw _
  | succ fuel ih =>
    exact ((mirroring plan honest passes).everywhere _ _ ih rule parent).nested rfl

end Expand

/-- A binding whose callback only expands. -/
def Binding.passing {κ : Type} (production : Option String) : Binding (Callback κ) :=
  ⟨production, Action.expandDefault⟩

/-- Adding bindings that only expand, for productions that have none, only passes on. -/
theorem Replacements.passesOn_of_added {κ : Type} {known : String → Bool}
    {bindings added all : List (Binding (Callback κ))} {r r' : Replacements (Callback κ)}
    (made : ofBindings known (bindings.map .inr) = .ok r) (bare : r.default = none)
    (made' : ofBindings known (all.map .inr) = .ok r') (perm : all.Perm (bindings ++ added))
    (passing : ∀ b ∈ added, b.callback = Action.expandDefault) : r.PassesOn r' := by
  have holds := (ofBindings_eq_ok made).2
  have holds' := (ofBindings_eq_ok made').2
  have kept {production callback} (bound : r.bound? production = some callback) :
      r'.bound? production = some callback :=
    (holds' _ _).mpr (perm.mem_iff.mpr (List.mem_append_left _ ((holds _ _).mp bound)))
  have gained (production : Option String) (unbound : r.bound? production = none) :
      r'.bound? production = none ∨ r'.bound? production = some Action.expandDefault := by
    cases bound : r'.bound? production with
    | none => exact .inl rfl
    | some callback =>
      rcases List.mem_append.mp (perm.mem_iff.mp ((holds' _ _).mp bound)) with before | later
      · rw [(holds _ _).mpr before] at unbound
        cases unbound
      · exact .inr (congrArg some (passing _ later))
  intro name
  rw [find?_eq, find?_eq]
  cases own : r.bound? (some name) with
  | some callback => exact .inl (by rw [kept own]; rfl)
  | none =>
    rw [show r.bound? none = none from bare]
    rcases gained (some name) own with own' | own' <;> rcases gained none bare with other | other
    all_goals simp [own', other]

namespace Generator

variable {κ : Type} {holds : κ → Context → Prop}

/-- Runs with and without callbacks that only expand are the same. -/
theorem runWithin_passesOn (g : Generator κ) {r' : Replacements (Callback κ)}
    (honest : g.replacements.Honest holds) (passes : g.replacements.PassesOn r') {σ : Type}
    [DecisionSource σ] (call : Call) (start : Option String) (source : σ) {user : κ}
    (bound : ∀ context, holds user context →
      (g.replacements.find? context.name).isSome = true) :
    ({ g with replacements := r' } : Generator κ).runWithin call start source user =
      g.runWithin call start source user := by
  have derived (name : String) :
      ({ g with replacements := r' } : Generator κ).derive call name source user =
        g.derive call name source user := by
    obtain ⟨same, after⟩ := Expand.mirrors_expand g.plan honest passes call.ceiling
      (.nonTerminal name) none (call.begin source user) [] ⟨rfl, bound⟩
    rw [derive_eq_settle, derive_eq_settle]
    revert same after
    generalize (Expand.expand g.plan call.ceiling (.nonTerminal name) none).exec
      (call.begin source user) = ended
    intro same after
    have closed : ended.2.live = [] := after.live_eq
    have same : (Expand.expand ({ g with replacements := r' } : Generator κ).plan call.ceiling
        (.nonTerminal name) none).exec (call.begin source user) = ended :=
      same.trans (by rw [← closed])
    rw [same]
  have found : ({ g with replacements := r' } : Generator κ).startOf start = g.startOf start := rfl
  simp only [runWithin, found, derived]
  rfl

theorem new_of_table {grammar : Grammar} {config : Config} {bindings : List (Binding (Callback κ))}
    {default : Option (Callback κ)} {r : Replacements (Callback κ)}
    {classes : List (CharacterSet × CharacterClass)}
    (made : Replacements.ofBindings grammar.defines
      ((bindings ++ default.toList.map Binding.default).map .inr) = .ok r)
    (resolved : resolveSets grammar.registry (rulesOf grammar) [] = .ok classes) :
    new grammar (bindings.map .inr) default config =
      .ok { grammar, replacements := r, config, classes } := by
  have entries : (bindings ++ default.toList.map Binding.default).map .inr =
      bindings.map .inr ++ default.toList.map fun callback : Callback κ =>
        (.inr (.default callback) : Datum ⊕ Binding (Callback κ)) := by
    rw [List.map_append, List.map_map]
    rfl
  rw [entries] at made
  simp only [new, Bind.bind, Except.bind, made, resolved]
  rfl

/-- Whatever callbacks there are already, bindings for productions that have none, the default
included, change no run if they only expand: neither its outcome nor the state that it leaves nor
the questions that it puts. -/
theorem run_passesOn {grammar : Grammar} {config : Config} {g : Generator κ}
    {bindings : List (Binding (Callback κ))}
    (made : new grammar (bindings.map .inr) none config = .ok g)
    (bare : g.replacements.default = none) (honest : g.replacements.Honest holds)
    {productions : List (Option String)} (distinct : productions.Nodup)
    (free : ∀ name, some name ∈ productions →
      grammar.defines name = true ∧ g.replacements.find? name = none)
    {all : List (Binding (Callback κ))} {default : Option (Callback κ)}
    (added : (all ++ default.toList.map Binding.default).Perm
      (bindings ++ productions.map Binding.passing)) :
    ∃ g', new grammar (all.map .inr) default config = .ok g' ∧
      ∀ {σ : Type} [DecisionSource σ] (call : Call) (start : Option String) (source : σ)
        (user : κ),
        (∀ context, holds user context → (g.replacements.find? context.name).isSome = true) →
        let told (g : Generator κ) :=
          g.runWithin call start ({ inner := source } : Transcript σ) user
        g'.runWithin call start source user = g.runWithin call start source user ∧
          (told g').final.source.log = (told g).final.source.log := by
  obtain ⟨replacements, classes, table, resolved, rfl⟩ := new_eq_ok made
  simp only [Option.toList_none, List.map_nil, List.append_nil] at table
  obtain ⟨bindable, held⟩ := Replacements.ofBindings_eq_ok table
  have addable : Bindable grammar.defines (productions.map (Binding.passing (κ := κ))) := by
    refine ⟨?_, ?_⟩
    · simpa [Function.comp_def, Binding.passing] using distinct
    · intro b member name production
      obtain ⟨_, listed, rfl⟩ := List.mem_map.mp member
      obtain rfl : _ = some name := production
      exact (free name listed).1
  have apart : ∀ b ∈ bindings, ∀ b' ∈ productions.map (Binding.passing (κ := κ)),
      b.production ≠ b'.production := by
    intro b member b' memberToo same
    obtain ⟨production, listed, rfl⟩ := List.mem_map.mp memberToo
    have bound := (held b.production b.callback).mpr member
    rw [same] at bound
    cases production with
    | none => exact absurd (bare.symm.trans bound) nofun
    | some name =>
      have unbound := (free name listed).2
      rw [Replacements.find?_eq, show replacements.bound? (some name) = _ from bound] at unbound
      cases unbound
  obtain ⟨table', made', _⟩ := Replacements.ofBindings_of_bindable
    ((bindable.append addable apart).perm added.symm)
  have passes : replacements.PassesOn table' := by
    refine Replacements.passesOn_of_added table bare made' added fun b member => ?_
    obtain ⟨_, _, rfl⟩ := List.mem_map.mp member
    rfl
  refine ⟨{ grammar, replacements := table', config, classes }, ?_, ?_⟩
  · exact new_of_table made' resolved
  · intro σ _ call start source user bound _
    refine ⟨runWithin_passesOn _ honest passes call start source bound, ?_⟩
    have told := runWithin_passesOn _ honest passes call start
      ({ inner := source } : Transcript σ) bound
    exact congrArg (fun r : Run (Transcript σ) κ => r.final.source.log) told

/-- One production lends its context to another one, which writes a mark to it. -/
def lending : List (Binding (Callback (Option Context))) :=
  [⟨some "a", fun own => do
      Action.store (some own)
      Action.expandDefault own⟩,
    ⟨some "b", fun own => do
      match (← Action.look).user with
      | some outer => Action.write outer (.str "!")
      | none => pure ()
      Action.expandDefault own⟩]

def lender : Generator (Option Context) where
  grammar :=
    { name := "a", start := "a", registry := ⟨[], false⟩
      productions := [("a", .sequence [.nonTerminal "b", .nonTerminal "c"]),
        ("b", .literal "x"), ("c", .literal "y")] }
  replacements.named := lending.filterMap fun b => b.production.map (·, b.callback)
  config := {}
  classes := []

theorem lender_made : new lender.grammar (lending.map .inr) none {} = .ok lender := by
  have resolved : resolveSets lender.grammar.registry (rulesOf lender.grammar) [] = .ok [] := by
    simp [rulesOf, lender, Rule.walk, Rule.walkFrom, Rule.children, resolveSets]
  exact new_of_table rfl resolved

theorem lender_honest :
    lender.replacements.Honest fun user context => user = some context := by
  intro name callback bound own
  have found : (lender.replacements.named.lookup name).or none = some callback := bound
  rw [Option.or_none, List.lookup_eq_some_iff] at found
  obtain ⟨before, after, split, _⟩ := found
  have listed : (name, callback) ∈ lender.replacements.named := by simp [split]
  rcases List.mem_cons.mp listed with first | listed
  · cases first
    refine ⟨?_, rfl, fun result => ?_⟩
    · rintro _ ⟨⟩
      rfl
    · cases result <;> trivial
  · cases List.mem_singleton.mp listed
    rintro ⟨tree, _ | outer⟩
    · exact ⟨.inl rfl, fun result => by cases result <;> trivial⟩
    · refine ⟨.inr rfl, fun result => ?_⟩
      cases result with
      | error fault => trivial
      | ok _ => exact ⟨.inl rfl, fun result => by cases result <;> trivial⟩

theorem lender_run_passesOn :
    ∃ g', new lender.grammar ((Binding.passing (some "c") :: lending).map .inr)
        (some Action.expandDefault) {} = .ok g' ∧
      g'.runWithin (.first 20) none ({} : Script) none =
        lender.runWithin (.first 20) none ({} : Script) none ∧
      (g'.runWithin (.first 20) none ({} : Script) none).text.toOption = some "!xy" := by
  have distinct : [some "c", none].Nodup := by decide
  have free : ∀ name, some name ∈ [some "c", none] →
      lender.grammar.defines name = true ∧ lender.replacements.find? name = none := by
    intro name listed
    obtain rfl : name = "c" := by simpa using listed
    exact ⟨by decide, rfl⟩
  have moved : (lending ++ Binding.passing (some "c") :: [Binding.passing none]).Perm
      (Binding.passing (some "c") :: (lending ++ [Binding.passing none])) := List.perm_middle
  have added : (Binding.passing (some "c") :: lending ++
      (some Action.expandDefault).toList.map Binding.default).Perm
        (lending ++ [some "c", none].map Binding.passing) := moved.symm
  have text :
      (lender.runWithin (.first 20) none ({} : Script) none).text.toOption = some "!xy" := by
    decide +kernel
  obtain ⟨g', made, same⟩ := run_passesOn lender_made rfl lender_honest distinct free added
  have same := (same (.first 20) none ({} : Script) none nofun).1
  exact ⟨g', made, same, by rw [same]; exact text⟩

end Generator

end SentenceGen
