import SentenceGen.Proofs.Ancestry
import SentenceGen.Proofs.Building
import SentenceGen.Proofs.Spelling
import SentenceGen.Proofs.Wording
import SentenceGen.Tree.Render

/-!
# Outlines determine trees

The outline of a node spells out the derivation below it.  Every line tells what its node records,
and the signs after it tell what comes next: an indented line, a closing parenthesis or nothing.  So
an outline can be read in one way only, whatever the literal texts contain, as long as names do not
contain the signs that end them.  A node whose value cannot be printed leaves the whole outline
unwritten.
-/

namespace SentenceGen

/-! ### What an outline spells out -/

namespace Label

/-- What stands for a node in its line, a closing parenthesis excluded, if it can be printed. -/
def spelled (label : Label) : Except Fault String :=
  match label.kind with
  | .literal => .ok (Text.quoted label.text)
  | .character => do
    return "[" ++ label.name.getD "None" ++ " " ++ (← label.value.codepointLabel) ++ "]"
  | _ => do return "(" ++ (← Tree.header (label.under none))

def spelling (label : Label) : String := label.spelled.toOption.getD ""

/-- The node can be spelled. -/
def Spells (label : Label) : Prop := ∃ words, label.spelled = .ok words

/-- What keeps the node from being spelled. -/
def trouble (label : Label) : Option Fault :=
  match label.spelled with
  | .error fault => some fault
  | .ok _ => none

theorem trouble_eq_some {label : Label} {fault : Fault} :
    label.trouble = some fault ↔ label.spelled = .error fault := by
  unfold trouble
  cases label.spelled <;> simp

theorem trouble_eq_none {label : Label} : label.trouble = none ↔ label.Spells := by
  unfold trouble Spells
  cases label.spelled <;> simp

theorem Spells.spelled_eq {label : Label} (spells : label.Spells) :
    label.spelled = .ok label.spelling := by
  obtain ⟨words, spelled⟩ := spells
  rw [spelling, spelled]
  rfl

/-- The line of an inner node starts with its header. -/
theorem spelled_of_inner {label : Label} (inner : label.kind.isLeaf = false) :
    label.spelled = ("(" ++ ·) <$> Tree.header (label.under none) := by
  obtain ⟨kind, name, text, value⟩ := label
  cases kind with
  | literal | character => cases inner
  | _ =>
    rw [spelled]
    rfl

theorem printed_alternative (n : Int) :
    Tree.header (under { kind := .alternative, value := .int n } none) =
      ("alternative " ++ ·) <$> Datum.numeral n := by
  rw [Tree.header, under, Datum.text_int]
  cases Datum.numeral n <;> rfl

theorem printed_repetition (n : Int) :
    Tree.header (under { kind := .repetition, value := .int n } none) =
      ("repetition " ++ ·) <$> Datum.numeral n := by
  rw [Tree.header, under, Datum.text_int]
  cases Datum.numeral n <;> rfl

/-- The value is an integer with too many digits to be printed. -/
def Unprintable (label : Label) : Prop :=
  ∃ n, label.value = .int n ∧ 10 ^ maximumDigits ≤ n.natAbs

theorem unprintable_of_numeral {label : Label} {n : Int} {fault : Fault}
    {words : String → String} (value_eq : label.value = .int n)
    (unworded : words <$> Datum.numeral n = .error fault) :
    fault = .tooManyDigits none ∧ label.Unprintable := by
  cases printed : Datum.numeral n with
  | ok text =>
    rw [printed] at unworded
    cases unworded
  | error trouble =>
    rw [printed] at unworded
    obtain rfl : trouble = fault := Except.error.inj unworded
    refine ⟨Datum.worded_numeral n trouble printed, n, value_eq, Nat.le_of_not_lt fun short => ?_⟩
    cases printed.symm.trans (Datum.numeral_eq_ok.mpr ⟨short, rfl⟩)

/-- What a run makes can be spelled, unless its number has too many digits. -/
theorem Made.spelled_eq_error {label : Label} (made : label.Made) {fault : Fault}
    (unspelled : label.spelled = .error fault) :
    fault = .tooManyDigits none ∧ label.Unprintable := by
  cases made with
  | character name codepoint =>
    rw [spelled, Text.codepointLabel_natCast] at unspelled
    cases unspelled
  | alternative index =>
    rw [spelled_of_inner rfl, printed_alternative, ← comp_map] at unspelled
    exact unprintable_of_numeral rfl unspelled
  | repetition count =>
    rw [spelled_of_inner rfl, printed_repetition, ← comp_map] at unspelled
    exact unprintable_of_numeral rfl unspelled
  | _ => cases unspelled

end Label

namespace Derivation

mutual

/-- What has a line in the outline, in the order of the lines.  What is below a leaf has none. -/
def visited : Derivation → List Label
  | .node label children => label :: if label.kind.isLeaf then [] else visitedAll children

def visitedAll : List Derivation → List Label
  | [] => []
  | d :: rest => visited d ++ visitedAll rest

end

mutual

theorem Regular.visited {Fine : Label → Prop} :
    ∀ {d : Derivation}, d.Regular Fine → ∀ label ∈ d.visited, Fine label
  | .node label children, .node fine _ below => by
    rw [Derivation.visited, List.forall_mem_cons]
    refine ⟨fine, ?_⟩
    split
    · exact nofun
    · exact Regular.visitedAll below

theorem Regular.visitedAll {Fine : Label → Prop} :
    ∀ {ds : List Derivation}, (∀ d ∈ ds, d.Regular Fine) → ∀ label ∈ visitedAll ds, Fine label
  | [], _ => nofun
  | d :: rest, regular => by
    rw [List.forall_mem_cons] at regular
    rw [Derivation.visitedAll, List.forall_mem_append]
    exact ⟨Regular.visited regular.1, Regular.visitedAll regular.2⟩

end

mutual

/-- More may be known of what is visited. -/
theorem Regular.of_visited {Fine Finer : Label → Prop} : ∀ {d : Derivation}, d.Regular Fine →
    (∀ label ∈ d.visited, Fine label → Finer label) → d.Regular Finer
  | .node label children, .node fine leafOnly below, finer => by
    rw [Derivation.visited, List.forall_mem_cons] at finer
    refine .node (finer.1 fine) leafOnly ?_
    by_cases leaf : label.kind.isLeaf = true
    · rw [leafOnly leaf]
      exact nofun
    · rw [if_neg leaf] at finer
      exact Regular.of_visitedAll below finer.2

theorem Regular.of_visitedAll {Fine Finer : Label → Prop} : ∀ {ds : List Derivation},
    (∀ d ∈ ds, d.Regular Fine) → (∀ label ∈ Derivation.visitedAll ds, Fine label → Finer label) →
      ∀ d ∈ ds, d.Regular Finer
  | [], _, _ => nofun
  | d :: rest, regular, finer => by
    rw [Derivation.visitedAll, List.forall_mem_append] at finer
    rw [List.forall_mem_cons] at regular ⊢
    exact ⟨Regular.of_visited regular.1 finer.1, Regular.of_visitedAll regular.2 finer.2⟩

end

mutual

def outlineFrom (indent : String) (depth : Nat) : Derivation → List Char
  | .node label children =>
    (Tree.padding indent depth).toList ++ label.spelling.toList ++
      if label.kind.isLeaf then [] else outlineAll indent (depth + 1) children ++ [')']

/-- Every derivation stands on lines of its own. -/
def outlineAll (indent : String) (depth : Nat) : List Derivation → List Char
  | [] => []
  | d :: rest => '\n' :: outlineFrom indent depth d ++ outlineAll indent depth rest

end

end Derivation

namespace Tree

/-- The lines in the order in which they are read, each one ended. -/
def ended : List String → List Char
  | [] => []
  | line :: lines => ended lines ++ line.toList ++ ['\n']

theorem toList_intercalate_reverse (line : String) (lines : List String) :
    ("\n".intercalate (line :: lines).reverse).toList = ended lines ++ line.toList := by
  induction lines generalizing line with
  | nil => rfl
  | cons before lines ih =>
    rw [List.reverse_cons, String.intercalate_append_of_ne_nil (by simp) (by simp),
      String.intercalate_singleton, String.toList_append, String.toList_append, ih]
    rfl

variable {t : Tree} {indent : String}

/-- A node is laid out on a line of its own, if it can be spelled; what is below an inner node comes
next. -/
theorem layout_visit {id : NodeId} {node : Node} (found : t.node? id = some node)
    (fuel depth : Nat) (stack : List Pending) (lines : List String) :
    t.layout indent (fuel + 1) (.visit id depth :: stack) lines = (do
      let words ← node.label.spelled
      if node.kind.isLeaf then
        t.layout indent fuel stack ((padding indent depth ++ words) :: lines)
      else if node.children.isEmpty then
        t.layout indent fuel stack ((padding indent depth ++ words ++ ")") :: lines)
      else
        t.layout indent fuel
          (node.children.toList.map (fun child => Pending.visit child (depth + 1)) ++
            .close :: stack) ((padding indent depth ++ words) :: lines)) := by
  obtain ⟨kind, parent, name, text, value, children⟩ := node
  have recorded := record_of_node? found
  have header_eq : header (Label.under { kind, name, text, value } none) =
      header { kind, parent, name, text, value, children } := rfl
  rw [layout, recorded]
  cases kind with
  | literal => rfl
  | character =>
    simp only [Label.spelled, Node.label, bind, Except.bind]
    cases value.codepointLabel with
    | error fault => rfl
    | ok code =>
      simp only [pure, Except.pure, String.append_assoc]
      rfl
  | _ =>
    simp only [Label.spelled, Node.label, header_eq, bind, Except.bind]
    split
    next => rfl
    next words _ =>
      simp only [pure, Except.pure, String.append_assoc]
      rfl

theorem layout_spelled {id : NodeId} {node : Node} (found : t.node? id = some node)
    (spells : node.label.Spells) (fuel depth : Nat) (stack : List Pending) (lines : List String) :
    t.layout indent (fuel + 1) (.visit id depth :: stack) lines =
      if node.kind.isLeaf then
        t.layout indent fuel stack ((padding indent depth ++ node.label.spelling) :: lines)
      else if node.children.isEmpty then
        t.layout indent fuel stack
          ((padding indent depth ++ node.label.spelling ++ ")") :: lines)
      else
        t.layout indent fuel
          (node.children.toList.map (fun child => Pending.visit child (depth + 1)) ++
            .close :: stack) ((padding indent depth ++ node.label.spelling) :: lines) := by
  rw [layout_visit found, spells.spelled_eq]
  rfl

mutual

/-- Laying out a node visits it and closes it at most once, and spells out what it shows. -/
theorem Shows.layout : ∀ {d : Derivation} {id : NodeId}, t.Shows d id →
    (∀ label ∈ d.visited, label.Spells) →
    ∃ visits ≤ 2 * d.size, ∀ depth fuel stack lines, ∃ line above,
      ended above ++ line.toList = ended lines ++ d.outlineFrom indent depth ∧
        t.layout indent (visits + fuel) (.visit id depth :: stack) lines =
          t.layout indent fuel stack (line :: above)
  | .node label children, id, ⟨node, found, same, _, below⟩, spell => by
    obtain rfl := same
    obtain ⟨spells, spell⟩ := List.forall_mem_cons.mp spell
    -- A node without children takes one line; the last line below any other node closes it.
    by_cases leaf : node.kind.isLeaf = true
    · refine ⟨1, by rw [Derivation.size]; omega, ?_⟩
      intro depth fuel stack lines
      refine ⟨padding indent depth ++ node.label.spelling, lines, ?_, ?_⟩
      · have leaf : node.label.kind.isLeaf = true := leaf
        rw [Derivation.outlineFrom, if_pos leaf, String.toList_append, List.append_nil]
      · rw [Nat.add_comm, layout_spelled found spells, if_pos leaf]
    have inner : ¬ node.label.kind.isLeaf = true := leaf
    rw [if_neg inner] at spell
    obtain ⟨visits, bound, laidOut⟩ := ShowsAll.layout below spell
    by_cases empty : node.children.isEmpty = true
    · refine ⟨1, by rw [Derivation.size]; omega, ?_⟩
      intro depth fuel stack lines
      refine ⟨padding indent depth ++ node.label.spelling ++ ")", lines, ?_, ?_⟩
      · rw [Array.isEmpty_iff.mp empty] at below
        rw [ShowsAll.eq_nil below, Derivation.outlineFrom, if_neg inner, Derivation.outlineAll,
          String.toList_append, String.toList_append]
        rfl
      · rw [Nat.add_comm, layout_spelled found spells, if_neg leaf, if_pos empty]
    · refine ⟨visits + 2, by rw [Derivation.size]; omega, ?_⟩
      intro depth fuel stack lines
      obtain ⟨line, above, spelled, reached⟩ := laidOut (depth + 1) (fuel + 1) (.close :: stack)
        (padding indent depth ++ node.label.spelling) lines
      refine ⟨line ++ ")", above, ?_, ?_⟩
      · rw [Derivation.outlineFrom, if_neg inner, String.toList_append, ← List.append_assoc,
          spelled, String.toList_append]
        simp
      · have counted : visits + 2 + fuel = visits + (fuel + 1) + 1 := by omega
        rw [counted, layout_spelled found spells, if_neg leaf, if_neg empty, reached]
        rfl

theorem ShowsAll.layout : ∀ {ds : List Derivation} {ids : List NodeId}, t.ShowsAll ds ids →
    (∀ label ∈ Derivation.visitedAll ds, label.Spells) →
    ∃ visits ≤ 2 * Derivation.sizeAll ds, ∀ depth fuel stack line lines, ∃ last above,
      ended above ++ last.toList =
          ended lines ++ line.toList ++ Derivation.outlineAll indent depth ds ∧
        t.layout indent (visits + fuel)
            (ids.map (fun id => Pending.visit id depth) ++ stack) (line :: lines) =
          t.layout indent fuel stack (last :: above)
  | [], [], _, _ => by
    refine ⟨0, Nat.zero_le _, ?_⟩
    intro depth fuel stack line lines
    refine ⟨line, lines, (List.append_nil _).symm, ?_⟩
    rw [Nat.zero_add]
    rfl
  | d :: rest, id :: ids, ⟨first, others⟩, spell => by
    obtain ⟨spell, spellToo⟩ := List.forall_mem_append.mp spell
    obtain ⟨visits, bound, laidOut⟩ := Shows.layout first spell
    obtain ⟨more, boundToo, laidOutToo⟩ := ShowsAll.layout others spellToo
    refine ⟨visits + more, by rw [Derivation.sizeAll]; omega, ?_⟩
    intro depth fuel stack line lines
    obtain ⟨line', lines', spelled, reached⟩ := laidOut depth (more + fuel)
      (ids.map (fun id => Pending.visit id depth) ++ stack) (line :: lines)
    obtain ⟨last, above, spelledToo, reachedToo⟩ := laidOutToo depth fuel stack line' lines'
    refine ⟨last, above, ?_, ?_⟩
    · rw [spelledToo, spelled, ended, Derivation.outlineAll]
      simp
    · rw [Nat.add_assoc, List.map_cons, List.cons_append, reached, reachedToo]
  | [], _ :: _, h, _ => h.elim
  | _ :: _, [], h, _ => h.elim

end

mutual

/-- The first node that cannot be spelled is where the layout stops. -/
theorem Shows.layout_unspelled {fault : Fault} : ∀ {d : Derivation} {id : NodeId}, t.Shows d id →
    d.visited.findSome? Label.trouble = some fault →
    ∃ visits ≤ 2 * d.size, ∀ depth fuel stack lines,
      t.layout indent (visits + fuel) (.visit id depth :: stack) lines = .error fault
  | .node label children, id, ⟨node, found, same, _, below⟩, first => by
    obtain rfl := same
    rw [Derivation.visited, List.findSome?_cons] at first
    cases trouble : node.label.trouble with
    | some own =>
      rw [trouble] at first
      obtain rfl : own = fault := Option.some.inj first
      refine ⟨1, by rw [Derivation.size]; omega, fun depth fuel stack lines => ?_⟩
      rw [Nat.add_comm, layout_visit found, Label.trouble_eq_some.mp trouble]
      rfl
    | none =>
      have spells := Label.trouble_eq_none.mp trouble
      rw [trouble] at first
      by_cases leaf : node.label.kind.isLeaf = true
      · rw [if_pos leaf] at first
        cases first
      rw [if_neg leaf] at first
      obtain ⟨visits, bound, stopped⟩ := ShowsAll.layout_unspelled below first
      have inner : ¬ node.kind.isLeaf = true := leaf
      have inhabited : ¬ node.children.isEmpty = true := by
        intro empty
        rw [Array.isEmpty_iff.mp empty] at below
        rw [ShowsAll.eq_nil below] at first
        cases first
      refine ⟨visits + 1, by rw [Derivation.size]; omega, fun depth fuel stack lines => ?_⟩
      rw [Nat.add_right_comm, layout_spelled found spells, if_neg inner, if_neg inhabited, stopped]

theorem ShowsAll.layout_unspelled {fault : Fault} : ∀ {ds : List Derivation} {ids : List NodeId},
    t.ShowsAll ds ids → (Derivation.visitedAll ds).findSome? Label.trouble = some fault →
    ∃ visits ≤ 2 * Derivation.sizeAll ds, ∀ depth fuel stack lines,
      t.layout indent (visits + fuel)
          (ids.map (fun id => Pending.visit id depth) ++ stack) lines = .error fault
  | [], [], _, first => nomatch first
  | d :: rest, id :: ids, ⟨head, others⟩, first => by
    rw [Derivation.visitedAll, List.findSome?_append] at first
    cases here : d.visited.findSome? Label.trouble with
    | some own =>
      rw [here] at first
      obtain rfl : own = fault := Option.some.inj first
      obtain ⟨visits, bound, stopped⟩ := Shows.layout_unspelled head here
      refine ⟨visits, by rw [Derivation.sizeAll]; omega, fun depth fuel stack lines => ?_⟩
      rw [List.map_cons, List.cons_append, stopped]
    | none =>
      rw [here] at first
      have spell : ∀ label ∈ d.visited, label.Spells := fun label member =>
        Label.trouble_eq_none.mp (List.findSome?_eq_none_iff.mp here label member)
      obtain ⟨visits, bound, laidOut⟩ := Shows.layout head spell
      obtain ⟨more, boundToo, stopped⟩ := ShowsAll.layout_unspelled others first
      refine ⟨visits + more, by rw [Derivation.sizeAll]; omega, fun depth fuel stack lines => ?_⟩
      obtain ⟨_, _, _, reached⟩ := laidOut depth (more + fuel)
        (ids.map (fun id => Pending.visit id depth) ++ stack) lines
      rw [Nat.add_assoc, List.map_cons, List.cons_append, reached, stopped]
  | [], _ :: _, h, _ => h.elim
  | _ :: _, [], h, _ => h.elim

end

@[simp] theorem layout_nil (t : Tree) (indent : String) (fuel : Nat) (lines : List String) :
    t.layout indent fuel [] lines = .ok lines := by
  cases fuel <;> rfl

/-- The outline of a node spells out the derivation that it shows. -/
theorem Shows.outline {d : Derivation} {id : NodeId} (h : t.Shows d id) (room : d.size ≤ t.size)
    (spell : ∀ label ∈ d.visited, label.Spells) (indent : String) :
    t.outline id indent = .ok (String.ofList (d.outlineFrom indent 0)) := by
  obtain ⟨visits, bound, laidOut⟩ := h.layout spell
  obtain ⟨line, above, spelled, reached⟩ := laidOut 0 (2 * t.size + 2 - visits) [] []
  have split : 2 * t.size + 2 = visits + (2 * t.size + 2 - visits) := by omega
  have text :
      "\n".intercalate (line :: above).reverse = String.ofList (d.outlineFrom indent 0) := by
    apply String.toList_injective
    rw [toList_intercalate_reverse, spelled, String.toList_ofList]
    rfl
  rw [Tree.outline, split, reached, layout_nil, ← text]
  rfl

/-- There is no outline of a node if something below it cannot be spelled. -/
theorem Shows.outline_unspelled {d : Derivation} {id : NodeId} (h : t.Shows d id)
    (room : d.size ≤ t.size) {fault : Fault}
    (first : d.visited.findSome? Label.trouble = some fault) (indent : String) :
    t.outline id indent = .error fault := by
  obtain ⟨visits, bound, stopped⟩ := h.layout_unspelled first
  have split : 2 * t.size + 2 = visits + (2 * t.size + 2 - visits) := by omega
  rw [Tree.outline, split, stopped]
  rfl

end Tree

/-! ### Reading a line -/

namespace Label

/-- The name can be told from what comes after it, and from the other headers. -/
def Legible (label : Label) : Prop :=
  ∀ name ∈ label.name, ' ' ∉ name.toList ∧ '\n' ∉ name.toList ∧ ')' ∉ name.toList ∧
    (label.kind = .nonTerminal → name ≠ "sequence")

instance (label : Label) : Decidable label.Legible :=
  inferInstanceAs (Decidable (∀ name ∈ label.name, _ ∧ _))

/-- After the header of an inner node comes the end of its line or a closing parenthesis. -/
def Stops (c : Char) : Prop := c = '\n' ∨ c = ')'

instance : DecidablePred Stops := fun c => inferInstanceAs (Decidable (c = '\n' ∨ c = ')'))

def header (label : Label) : List Char :=
  ((Tree.header (label.under none)).toOption.getD "").toList

/-- The kind of an inner node, read off its header. -/
def headerKind (header : List Char) : NodeKind :=
  if ' ' ∈ header then
    if header.head? = some 'a' then .alternative
    else if header.head? = some 'o' then .optional
    else .repetition
  else if header = "sequence".toList then .sequence
  else .nonTerminal

/-- A label that an outline shows without loss. -/
structure Readable (label : Label) : Prop where
  made : label.Made
  legible : label.Legible
  spells : label.Spells

variable {l m : Label}

theorem header_of_number {n : Int} {word : String} (spells : l.Spells)
    (inner : l.kind.isLeaf = false)
    (printed : Tree.header (l.under none) = (word ++ ·) <$> Datum.numeral n) :
    l.header = word.toList ++ (toString n).toList := by
  rw [header, printed]
  obtain ⟨words, spelled⟩ := spells
  rw [spelled_of_inner inner, printed] at spelled
  cases numeral : Datum.numeral n with
  | error fault =>
    rw [numeral] at spelled
    cases spelled
  | ok digits =>
    obtain ⟨_, rfl⟩ := Datum.numeral_eq_ok.mp numeral
    exact String.toList_append

theorem header_alternative {n : Int} (spells : Spells { kind := .alternative, value := .int n }) :
    header { kind := .alternative, value := .int n } =
      "alternative ".toList ++ (toString n).toList :=
  header_of_number spells rfl (printed_alternative n)

theorem header_repetition {n : Int} (spells : Spells { kind := .repetition, value := .int n }) :
    header { kind := .repetition, value := .int n } =
      "repetition ".toList ++ (toString n).toList :=
  header_of_number spells rfl (printed_repetition n)

theorem header_nonTerminal (name : String) :
    header { kind := .nonTerminal, name := some name } = name.toList := rfl

theorem not_stops_of_mem {word : List Char} (sameLine : '\n' ∉ word) (unclosed : ')' ∉ word) :
    ∀ c ∈ word, ¬ Stops c := by
  rintro c member (rfl | rfl)
  · exact sameLine member
  · exact unclosed member

theorem not_stops_of_number {n : Int} {c : Char} (member : c ∈ (toString n).toList) :
    ¬ Stops c := by
  rintro (rfl | rfl)
  all_goals
    rcases Text.mem_toString_int member with digit | sign
    · cases digit
    · cases sign

theorem not_stops_of_header (readable : l.Readable) (inner : l.kind.isLeaf = false) :
    ∀ c ∈ l.header, ¬ Stops c := by
  obtain ⟨made, legible, spells⟩ := readable
  cases made with
  | literal | character => cases inner
  | sequence => exact not_stops_of_mem (by decide) (by decide)
  | alternative index =>
    have word := not_stops_of_mem (by decide : '\n' ∉ "alternative ".toList) (by decide)
    rw [header_alternative spells]
    exact List.forall_mem_append.mpr ⟨word, fun c => not_stops_of_number⟩
  | optional present => cases present <;> exact not_stops_of_mem (by decide) (by decide)
  | repetition count =>
    have word := not_stops_of_mem (by decide : '\n' ∉ "repetition ".toList) (by decide)
    rw [header_repetition spells]
    exact List.forall_mem_append.mpr ⟨word, fun c => not_stops_of_number⟩
  | nonTerminal name =>
    obtain ⟨_, sameLine, unclosed, _⟩ := legible name rfl
    exact not_stops_of_mem sameLine unclosed

theorem headerKind_header (readable : l.Readable) (inner : l.kind.isLeaf = false) :
    headerKind l.header = l.kind := by
  obtain ⟨made, legible, spells⟩ := readable
  cases made with
  | literal | character => cases inner
  | sequence => decide
  | alternative index =>
    have blank : ' ' ∈ "alternative ".toList := by decide
    rw [header_alternative spells, headerKind, if_pos (List.mem_append_left _ blank)]
    rfl
  | optional present => cases present <;> decide
  | repetition count =>
    have blank : ' ' ∈ "repetition ".toList := by decide
    rw [header_repetition spells, headerKind, if_pos (List.mem_append_left _ blank)]
    rfl
  | nonTerminal name =>
    obtain ⟨unbroken, _, _, other⟩ := legible name rfl
    have different : name.toList ≠ "sequence".toList :=
      fun same => other rfl (String.toList_injective same)
    rw [header_nonTerminal, headerKind, if_neg unbroken, if_neg different]

/-- Inner nodes of one kind with the same header record the same. -/
theorem header_inj (readable : l.Readable) (readableToo : m.Readable)
    (inner : l.kind.isLeaf = false) (kind_eq : l.kind = m.kind) (same : l.header = m.header) :
    l = m := by
  obtain ⟨made, _, spells⟩ := readable
  obtain ⟨madeToo, _, spellsToo⟩ := readableToo
  cases made with
  | literal | character => cases inner
  | sequence =>
    cases madeToo with
    | sequence => rfl
    | _ => cases kind_eq
  | alternative index =>
    cases madeToo with
    | alternative other =>
      rw [header_alternative spells, header_alternative spellsToo] at same
      rw [Text.toString_int_inj (String.toList_injective (List.append_cancel_left same))]
    | _ => cases kind_eq
  | optional present =>
    cases madeToo with
    | optional other =>
      have present_eq : present = other := by
        cases present <;> cases other <;> first | rfl | exact absurd same (by decide)
      rw [present_eq]
    | _ => cases kind_eq
  | repetition count =>
    cases madeToo with
    | repetition other =>
      rw [header_repetition spells, header_repetition spellsToo] at same
      rw [Text.toString_int_inj (String.toList_injective (List.append_cancel_left same))]
    | _ => cases kind_eq
  | nonTerminal name =>
    cases madeToo with
    | nonTerminal other =>
      rw [header_nonTerminal, header_nonTerminal] at same
      rw [String.toList_injective same]
    | _ => cases kind_eq

theorem toList_spelling_literal (text : String) :
    (spelling { kind := .literal, text }).toList = Text.quotedChars text.toList :=
  String.toList_ofList

theorem toList_spelling_character (name text : String) (codepoint : Nat) :
    (spelling { kind := .character, name := some name, text, value := .int codepoint }).toList =
      '[' :: (name.toList ++ ' ' :: 'U' :: '+' ::
        ((Text.hexadecimal 4 codepoint).map Char.toUpper ++ [']'])) := by
  have code := Text.toList_codepointLabel codepoint
  rw [spelling, spelled, Text.codepointLabel_natCast]
  simp [bind, Except.bind, pure, Except.pure, Except.toOption, code]

theorem toList_spelling_inner (spells : l.Spells) (inner : l.kind.isLeaf = false) :
    l.spelling.toList = '(' :: l.header := by
  obtain ⟨words, spelled⟩ := spells
  rw [spelled_of_inner inner] at spelled
  rw [spelling, spelled_of_inner inner, header]
  cases printed : Tree.header (l.under none) with
  | error fault =>
    rw [printed] at spelled
    cases spelled
  | ok text => exact String.toList_append

/-- The kind of a node, read off its line and what comes after it. -/
def readKind : List Char → NodeKind
  | '[' :: _ => .character
  | '(' :: rest => headerKind (rest.takeWhile fun c => ¬ Stops c)
  | _ => .literal

theorem readKind_quotedChars (text x : List Char) :
    readKind (Text.quotedChars text ++ x) = .literal := by
  unfold Text.quotedChars
  rcases Text.isQuote_quoteFor text with quote | quote <;> rw [quote] <;> rfl

theorem takeWhile_header {header x : List Char} (clear : ∀ c ∈ header, ¬ Stops c)
    (after : ∃ c ∈ x.head?, Stops c) :
    (header ++ x).takeWhile (fun c => ¬ Stops c) = header := by
  obtain ⟨c, first, stop⟩ := after
  obtain ⟨rest, rfl⟩ := List.head?_eq_some_iff.mp first
  rw [List.takeWhile_append_of_pos (by simpa using clear),
    List.takeWhile_cons_of_neg (by simpa using stop), List.append_nil]

theorem readKind_spelling {x : List Char} (readable : l.Readable)
    (after : l.kind.isLeaf = false → ∃ c ∈ x.head?, Stops c) :
    readKind (l.spelling.toList ++ x) = l.kind := by
  by_cases leaf : l.kind.isLeaf = true
  · cases readable.made with
    | literal text =>
      rw [toList_spelling_literal]
      exact readKind_quotedChars _ x
    | character name codepoint =>
      rw [toList_spelling_character]
      rfl
    | _ => cases leaf
  · have inner := Bool.eq_false_iff.mpr leaf
    have clear := not_stops_of_header readable inner
    rw [toList_spelling_inner readable.spells inner]
    change headerKind ((l.header ++ x).takeWhile fun c => ¬ Stops c) = _
    rw [takeWhile_header clear (after inner)]
    exact headerKind_header readable inner

/-- A character ends at its bracket. -/
theorem character_inj {name other : String} {a b : Nat} {x y : List Char}
    (unbroken : ' ' ∉ name.toList) (unbrokenToo : ' ' ∉ other.toList)
    (same : name.toList ++ (' ' :: 'U' :: '+' ::
        ((Text.hexadecimal 4 a).map Char.toUpper ++ ']' :: x)) =
      other.toList ++ (' ' :: 'U' :: '+' ::
        ((Text.hexadecimal 4 b).map Char.toUpper ++ ']' :: y))) :
    name = other ∧ a = b ∧ x = y := by
  have digits {n : Nat} : ∀ c ∈ (Text.hexadecimal 4 n).map Char.toUpper, c ≠ ']' := by
    intro c member
    obtain ⟨digit, listed, rfl⟩ := List.mem_map.mp member
    obtain ⟨d, small, rfl⟩ := Text.mem_hexadecimal listed
    exact (by decide : ∀ d < 16, (Nat.digitChar d).toUpper ≠ ']') d small
  have clear {word : List Char} (unbroken : ' ' ∉ word) : ∀ c ∈ word, ¬ c = ' ' := by
    rintro c member rfl
    exact unbroken member
  obtain ⟨names, rest⟩ := Text.append_inj_of_stops (clear unbroken) (clear unbrokenToo)
    ⟨_, rfl, rfl⟩ ⟨_, rfl, rfl⟩ same
  simp only [List.cons.injEq, true_and] at rest
  obtain ⟨codes, ends⟩ := Text.append_inj_of_stops digits digits ⟨_, rfl, rfl⟩ ⟨_, rfl, rfl⟩ rest
  exact ⟨String.toList_injective names, Text.toUpper_hexadecimal_inj codes, (List.cons.inj ends).2⟩

theorem spelling_inj {x y : List Char} (readable : l.Readable) (readableToo : m.Readable)
    (after : l.kind.isLeaf = false → ∃ c ∈ x.head?, Stops c)
    (afterToo : m.kind.isLeaf = false → ∃ c ∈ y.head?, Stops c)
    (same : l.spelling.toList ++ x = m.spelling.toList ++ y) : l = m ∧ x = y := by
  have kind_eq : l.kind = m.kind := by
    rw [← readKind_spelling readable after, same]
    exact readKind_spelling readableToo afterToo
  by_cases leaf : l.kind.isLeaf = true
  · obtain ⟨made, legible, _⟩ := readable
    obtain ⟨madeToo, legibleToo, _⟩ := readableToo
    cases made with
    | literal text =>
      cases madeToo with
      | literal other =>
        rw [toList_spelling_literal, toList_spelling_literal] at same
        obtain ⟨texts, rest⟩ := Text.quotedChars_inj same
        rw [String.toList_injective texts]
        exact ⟨rfl, rest⟩
      | _ => cases kind_eq
    | character name codepoint =>
      cases madeToo with
      | character other codepoint' =>
        rw [toList_spelling_character, toList_spelling_character] at same
        simp only [List.cons_append, List.append_assoc, List.nil_append, List.cons.injEq,
          true_and] at same
        obtain ⟨rfl, rfl, rest⟩ :=
          character_inj (legible name rfl).1 (legibleToo other rfl).1 same
        exact ⟨rfl, rest⟩
      | _ => cases kind_eq
    | _ => cases leaf
  · have inner := Bool.eq_false_iff.mpr leaf
    have innerToo : m.kind.isLeaf = false := by rw [← kind_eq, inner]
    rw [toList_spelling_inner readable.spells inner,
      toList_spelling_inner readableToo.spells innerToo] at same
    obtain ⟨headers, rest⟩ := Text.append_inj_of_stops (not_stops_of_header readable inner)
      (not_stops_of_header readableToo innerToo) (after inner) (afterToo innerToo)
      (List.cons.inj same).2
    exact ⟨header_inj readable readableToo inner kind_eq headers, rest⟩

end Label

/-! ### Reading an outline -/

namespace Derivation

variable {indent : String} {depth : Nat}

theorem stops_outlineAll (ds : List Derivation) (x : List Char) :
    ∃ c ∈ (outlineAll indent depth ds ++ ')' :: x).head?, Label.Stops c := by
  cases ds with
  | nil => exact ⟨_, rfl, .inr rfl⟩
  | cons d rest => exact ⟨_, rfl, .inl rfl⟩

theorem outlineFrom_append (label : Label) (children : List Derivation) (x : List Char) :
    outlineFrom indent depth (.node label children) ++ x =
      (Tree.padding indent depth).toList ++ (label.spelling.toList ++
        if label.kind.isLeaf then x else outlineAll indent (depth + 1) children ++ ')' :: x) := by
  rw [outlineFrom]
  by_cases leaf : label.kind.isLeaf = true <;> simp [leaf]

mutual

/-- An outline can be read in one way only, whatever comes after it. -/
theorem outlineFrom_inj : ∀ {d e : Derivation} {depth : Nat} {x y : List Char},
    d.Regular Label.Readable → e.Regular Label.Readable →
      d.outlineFrom indent depth ++ x = e.outlineFrom indent depth ++ y → d = e ∧ x = y
  | .node l ds, .node m es, depth, x, y, .node fine leafOnly below, .node fineToo leafToo belowToo,
      same => by
    rw [outlineFrom_append, outlineFrom_append] at same
    have spelled := List.append_cancel_left same
    have after {label : Label} {children : List Derivation} {z : List Char}
        (inner : label.kind.isLeaf = false) :
        ∃ c ∈ (if label.kind.isLeaf then z
          else outlineAll indent (depth + 1) children ++ ')' :: z).head?, Label.Stops c := by
      rw [if_neg (by simp [inner])]
      exact stops_outlineAll children z
    obtain ⟨rfl, rest⟩ := Label.spelling_inj fine fineToo after after spelled
    by_cases leaf : l.kind.isLeaf = true
    · rw [if_pos leaf, if_pos leaf] at rest
      rw [leafOnly leaf, leafToo leaf]
      exact ⟨rfl, rest⟩
    · rw [if_neg leaf, if_neg leaf] at rest
      obtain ⟨rfl, further⟩ := outlineAll_inj below belowToo rest
      exact ⟨rfl, further⟩

theorem outlineAll_inj : ∀ {ds es : List Derivation} {depth : Nat} {x y : List Char},
    (∀ d ∈ ds, d.Regular Label.Readable) → (∀ e ∈ es, e.Regular Label.Readable) →
      outlineAll indent depth ds ++ ')' :: x = outlineAll indent depth es ++ ')' :: y →
        ds = es ∧ x = y
  | [], [], _, _, _, _, _, same => ⟨rfl, (List.cons.inj same).2⟩
  | [], e :: es, _, _, _, _, _, same => by
    cases (List.cons.inj same).1
  | d :: ds, [], _, _, _, _, _, same => by
    cases (List.cons.inj same).1
  | d :: ds, e :: es, depth, x, y, regular, regularToo, same => by
    rw [List.forall_mem_cons] at regular regularToo
    simp only [outlineAll, List.cons_append, List.append_assoc] at same
    obtain ⟨rfl, rest⟩ := outlineFrom_inj regular.1 regularToo.1 (List.cons.inj same).2
    obtain ⟨rfl, further⟩ := outlineAll_inj regular.2 regularToo.2 rest
    exact ⟨rfl, further⟩

end

end Derivation

/-! ### Outlines of runs -/

/-- Every name in the tree can be told from what comes after it. -/
def Tree.Legible (t : Tree) : Prop := ∀ node ∈ t.nodes, node.label.Legible

instance (t : Tree) : Decidable t.Legible :=
  inferInstanceAs (Decidable (∀ node ∈ t.nodes, node.label.Legible))

theorem Tree.Legible.label {t : Tree} (h : t.Legible) {id : NodeId} {node : Node}
    (found : t.node? id = some node) : node.label.Legible :=
  h node (Array.mem_of_getElem? found)

namespace Tree.Formed

variable {t t' : Tree} {id id' : NodeId}

/-- A node of a well-formed tree has the outline of what it shows, unless there is a number below it
that cannot be printed. -/
theorem outline_eq (formed : t.Formed) (present : id < t.size) (indent : String) :
    ∃ d, t.Shows d id ∧
      ((∀ label ∈ d.visited, label.Spells) ∧
          t.outline id indent = .ok (String.ofList (d.outlineFrom indent 0)) ∨
        (∃ node ∈ t.nodes, node.label.Unprintable) ∧
          t.outline id indent = .error (.tooManyDigits none)) := by
  obtain ⟨d, shown, room⟩ := formed.linked.shows present
  refine ⟨d, shown, ?_⟩
  cases first : d.visited.findSome? Label.trouble with
  | none =>
    have spell : ∀ label ∈ d.visited, label.Spells := fun label member =>
      Label.trouble_eq_none.mp (List.findSome?_eq_none_iff.mp first label member)
    exact .inl ⟨spell, shown.outline room spell indent⟩
  | some fault =>
    obtain ⟨label, member, trouble⟩ := List.exists_of_findSome?_eq_some first
    have found : ∀ label ∈ d.visited, label.Made ∧ ∃ node ∈ t.nodes, node.label = label :=
      (shown.regular formed fun _ node found =>
        ⟨formed.made found, node, Array.mem_of_getElem? found, rfl⟩).visited
    obtain ⟨made, node, recorded, rfl⟩ := found label member
    obtain ⟨rfl, unprintable⟩ := made.spelled_eq_error (Label.trouble_eq_some.mp trouble)
    exact .inr ⟨⟨node, recorded, unprintable⟩, shown.outline_unspelled room first indent⟩

theorem readable (formed : t.Formed) (legible : t.Legible) {d : Derivation} (shown : t.Shows d id)
    (spell : ∀ label ∈ d.visited, label.Spells) : d.Regular Label.Readable := by
  have known : d.Regular fun label => label.Made ∧ label.Legible :=
    shown.regular formed fun _ _ found => ⟨formed.made found, legible.label found⟩
  exact known.of_visited fun label visited ⟨made, legible⟩ => ⟨made, legible, spell label visited⟩

/-- Two nodes, of which one has an outline, have the same one if and only if they show the same
derivation. -/
theorem outline_eq_iff (formed : t.Formed) (formedToo : t'.Formed) (legible : t.Legible)
    (legibleToo : t'.Legible) (present : id < t.size) (presentToo : id' < t'.size)
    (indent : String) {text : String} (outlined : t.outline id indent = .ok text) :
    t.outline id indent = t'.outline id' indent ↔ ∃ d, t.Shows d id ∧ t'.Shows d id' := by
  obtain ⟨d, shown, ⟨spell, outline⟩ | ⟨_, outline⟩⟩ := formed.outline_eq present indent
  case inr => cases outlined.symm.trans outline
  obtain ⟨e, shownToo, room⟩ := formedToo.linked.shows presentToo
  obtain ⟨e', shownAgain, outcome⟩ := formedToo.outline_eq presentToo indent
  constructor
  · intro same
    rcases outcome with ⟨spellToo, outlineToo⟩ | ⟨_, outlineToo⟩
    · rw [outline, outlineToo] at same
      have texts : d.outlineFrom indent 0 ++ [] = e'.outlineFrom indent 0 ++ [] := by
        rw [String.ofList_injective (Except.ok.inj same)]
      obtain ⟨rfl, _⟩ := Derivation.outlineFrom_inj (formed.readable legible shown spell)
        (formedToo.readable legibleToo shownAgain spellToo) texts
      exact ⟨d, shown, shownAgain⟩
    · rw [outline, outlineToo] at same
      cases same
  · rintro ⟨f, first, second⟩
    obtain rfl := shown.unique first
    obtain rfl := shownToo.unique second
    rw [outline, shownToo.outline room spell]

end Tree.Formed

namespace Generator

variable {σ σ' κ κ' : Type} [DecisionSource σ] [DecisionSource σ']

/-- Every node of a completed run has an outline, unless there is a number in the tree with too many
digits to be printed.  Two nodes, of one run or of two, of which one has an outline have the same
one if and only if they show the same derivation: the same shape and the same kinds, names, texts
and values.  The generators, sources and callbacks may be any, and so may the literal texts. -/
theorem outlines_determine {g : Generator κ} {g' : Generator κ'} {call call' : Call}
    {start start' : Option String} {source : σ} {source' : σ'} {user : κ} {user' : κ'}
    {t t' : Tree} (completed : (g.runWithin call start source user).tree = .ok t)
    (completedToo : (g'.runWithin call' start' source' user').tree = .ok t')
    (legible : t.Legible) (legibleToo : t'.Legible) {id id' : NodeId} (present : id < t.size)
    (presentToo : id' < t'.size) (indent : String) :
    ((∃ text, t.outline id indent = .ok text) ∨
        (∃ node ∈ t.nodes, node.label.Unprintable) ∧
          t.outline id indent = .error (.tooManyDigits none)) ∧
      ∀ text, t.outline id indent = .ok text →
        (t.outline id indent = t'.outline id' indent ↔ ∃ d, t.Shows d id ∧ t'.Shows d id') := by
  have formed := formed_of_run completed
  have formedToo := formed_of_run completedToo
  refine ⟨?_, fun text outlined =>
    formed.outline_eq_iff formedToo legible legibleToo present presentToo indent outlined⟩
  obtain ⟨_, _, outline⟩ := formed.outline_eq present indent
  exact outline.imp_left fun ⟨_, outlined⟩ => ⟨_, outlined⟩

/-- Writes the texts that it is given, one after the other. -/
def dictated : Generator (List String) where
  grammar := .nesting
  replacements.default := some fun own => do
    let view ← Action.look
    view.user.forM fun text => Action.write own (.str text)
  config := {}
  classes := []

def dictation (texts : List String) : Run Script (List String) :=
  dictated.runWithin (.first 20) none {} texts

/-- Two texts make another outline than the one that they make up, even if they read like lines of
an outline themselves. -/
theorem dictated_outlines_determine :
    let apart := dictation ["a", "'\n  'b"]
    let together := dictation ["a'\n  'b"]
    apart.tree = .ok apart.final.tree ∧ together.tree = .ok together.final.tree ∧
      apart.final.tree.render 0 = together.final.tree.render 0 ∧
      apart.final.tree.outline 0 ≠ together.final.tree.outline 0 := by
  intro apart together
  have completed : apart.tree = .ok apart.final.tree := by
    rw [Run.tree, Run.completed (by decide +kernel : apart.outcome.toOption = some ())]
    rfl
  have completedToo : together.tree = .ok together.final.tree := by
    rw [Run.tree, Run.completed (by decide +kernel : together.outcome.toOption = some ())]
    rfl
  refine ⟨completed, completedToo, by decide +kernel, ?_⟩
  intro same
  have printed : (apart.final.tree.outline 0).isOk = true := by decide +kernel
  obtain ⟨text, outlined⟩ : ∃ text, apart.final.tree.outline 0 = .ok text := by
    cases outlined : apart.final.tree.outline 0 with
    | error fault =>
      rw [outlined] at printed
      cases printed
    | ok text => exact ⟨text, rfl⟩
  have determine := outlines_determine completed completedToo (by decide +kernel)
    (by decide +kernel) (by decide +kernel : 0 < apart.final.tree.size)
    (by decide +kernel : 0 < together.final.tree.size) "  "
  have two : (apart.final.tree.node? 0).map (·.children.toList.length) = some 2 := by
    decide +kernel
  have one : (together.final.tree.node? 0).map (·.children.toList.length) = some 1 := by
    decide +kernel
  obtain ⟨⟨label, children⟩, ⟨node, found, _, _, below⟩, ⟨other, foundToo, _, _, belowToo⟩⟩ :=
    (determine.2 text outlined).mp same
  rw [found, Option.map_some, ← below.length_eq] at two
  rw [foundToo, Option.map_some, ← belowToo.length_eq] at one
  cases two.symm.trans one

end Generator

end SentenceGen
