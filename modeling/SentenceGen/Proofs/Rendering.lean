import Mathlib.Data.List.ModifyLast
import SentenceGen.Proofs.Lockstep
import SentenceGen.Proofs.Outlines

/-!
# Renderings by recursion

A node is rendered with a stack of the places that are still to come.  For a tree that was built by
adding nodes, each below one that is there, what comes out is a recursion on what the node shows:
the texts of the leaves, run together, and an outline in which every node has a row and every inner
node closes its parenthesis behind the last row below it.  There is nothing to render below a leaf,
and no outline when a value cannot be printed in its line.
-/

namespace SentenceGen

/-! ### Recursive renderings -/

/-- A row of an outline: a node at its depth and the number of parentheses closed behind it. -/
structure Row where
  depth : Nat
  label : Label
  closing : Nat := 0

namespace Row

def close (row : Row) : Row := { row with closing := row.closing + 1 }

def line (indent : String) (row : Row) : String :=
  Tree.padding indent row.depth ++ row.label.spelling ++
    String.ofList (List.replicate row.closing ')')

/-- The row with the end of the line before it. -/
def chars (indent : String) (row : Row) : List Char := '\n' :: (row.line indent).toList

theorem chars_close (indent : String) (row : Row) :
    row.close.chars indent = row.chars indent ++ [')'] := by
  simp [chars, line, close, List.replicate_succ']

end Row

namespace Derivation

mutual

/-- The texts of the leaves run together, left to right. -/
def spoken : Derivation → String
  | .node label children => if label.kind.isLeaf then label.text else spokenAll children

def spokenAll : List Derivation → String
  | [] => ""
  | d :: rest => spoken d ++ spokenAll rest

end

mutual

/-- The rows of a derivation that starts at some depth. -/
def rows (depth : Nat) : Derivation → List Row
  | .node label children =>
    if label.kind.isLeaf then [{ depth, label }]
    else ({ depth, label } :: rowsAll (depth + 1) children).modifyLast Row.close

def rowsAll (depth : Nat) : List Derivation → List Row
  | [] => []
  | d :: rest => rows depth d ++ rowsAll depth rest

end

mutual

theorem join_leafTexts : ∀ d : Derivation, String.join d.leafTexts = d.spoken
  | .node label children => by
    rw [leafTexts, spoken]
    split
    · by_cases empty : label.text = "" <;> simp [empty]
    · exact join_leafTextsAll children

theorem join_leafTextsAll : ∀ ds : List Derivation,
    String.join (leafTextsAll ds) = spokenAll ds
  | [] => rfl
  | d :: rest => by
    rw [leafTextsAll, spokenAll, String.join_append, join_leafTexts d, join_leafTextsAll rest]

end

mutual

theorem ne_empty_of_mem_leafTexts : ∀ d : Derivation, ∀ text ∈ d.leafTexts, text ≠ ""
  | .node label children => by
    rw [leafTexts]
    split
    · by_cases empty : label.text = "" <;> simp [empty]
    · exact ne_empty_of_mem_leafTextsAll children

theorem ne_empty_of_mem_leafTextsAll : ∀ ds : List Derivation, ∀ text ∈ leafTextsAll ds, text ≠ ""
  | [] => nofun
  | d :: rest => by
    rw [leafTextsAll, List.forall_mem_append]
    exact ⟨ne_empty_of_mem_leafTexts d, ne_empty_of_mem_leafTextsAll rest⟩

end

theorem flatMap_chars_close (indent : String) {rows : List Row} (some_row : rows ≠ []) :
    (rows.modifyLast Row.close).flatMap (Row.chars indent) =
      rows.flatMap (Row.chars indent) ++ [')'] := by
  obtain ⟨before, last, rfl⟩ := List.eq_nil_or_concat rows |>.resolve_left some_row
  simp [List.modifyLast_concat, Row.chars_close]

theorem map_label_close (rows : List Row) :
    (rows.modifyLast Row.close).map Row.label = rows.map Row.label := by
  rcases List.eq_nil_or_concat rows with rfl | ⟨before, last, rfl⟩
  · rfl
  · simp [List.modifyLast_concat, Row.close]

mutual

/-- Every node that is visited has a row, in preorder. -/
theorem map_label_rows : ∀ (d : Derivation) (depth : Nat), (d.rows depth).map Row.label = d.visited
  | .node label children, depth => by
    rw [rows, visited]
    split
    · rfl
    · rw [map_label_close, List.map_cons, map_label_rowsAll children]

theorem map_label_rowsAll : ∀ (ds : List Derivation) (depth : Nat),
    (rowsAll depth ds).map Row.label = visitedAll ds
  | [], _ => rfl
  | d :: rest, depth => by
    rw [rowsAll, visitedAll, List.map_append, map_label_rows d, map_label_rowsAll rest]

end

mutual

/-- The rows spell out the derivation. -/
theorem flatMap_chars_rows (indent : String) : ∀ (d : Derivation) (depth : Nat),
    (d.rows depth).flatMap (Row.chars indent) = '\n' :: d.outlineFrom indent depth
  | .node label children, depth => by
    rw [rows, outlineFrom]
    split
    · simp [Row.chars, Row.line]
    · rw [flatMap_chars_close indent (List.cons_ne_nil _ _), List.flatMap_cons,
        flatMap_chars_rowsAll indent children]
      simp [Row.chars, Row.line]

theorem flatMap_chars_rowsAll (indent : String) : ∀ (ds : List Derivation) (depth : Nat),
    (rowsAll depth ds).flatMap (Row.chars indent) = outlineAll indent depth ds
  | [], _ => rfl
  | d :: rest, depth => by
    rw [rowsAll, outlineAll, List.flatMap_append, flatMap_chars_rows indent d,
      flatMap_chars_rowsAll indent rest]

end

/-- Lines are joined by the ends of all lines but the last. -/
theorem toList_intercalate_lines (indent : String) {rows : List Row} (some_row : rows ≠ []) :
    '\n' :: ("\n".intercalate (rows.map (Row.line indent))).toList =
      rows.flatMap (Row.chars indent) := by
  induction rows with
  | nil => exact absurd rfl some_row
  | cons row rest ih =>
    cases rest with
    | nil => simp [Row.chars]
    | cons next rest =>
      have further := ih (List.cons_ne_nil _ _)
      rw [List.flatMap_cons, ← further, List.map_cons, List.map_cons,
        String.intercalate_cons_cons]
      simp [Row.chars]

theorem rows_ne_nil (d : Derivation) (depth : Nat) : d.rows depth ≠ [] := by
  intro none
  have spelled := flatMap_chars_rows "" d depth
  rw [none] at spelled
  cases spelled

/-- The lines of the rows make up the outline. -/
theorem intercalate_rows (indent : String) (d : Derivation) (depth : Nat) :
    "\n".intercalate ((d.rows depth).map (Row.line indent)) =
      String.ofList (d.outlineFrom indent depth) := by
  apply String.toList_injective
  have lines := toList_intercalate_lines indent (d.rows_ne_nil depth)
  rw [flatMap_chars_rows] at lines
  rw [(List.cons.inj lines).2, String.toList_ofList]

end Derivation

/-! ### Values that are printed -/

namespace Label

/-- The value can be printed in the line of the node, if it has a place there. -/
def Printable (label : Label) : Prop :=
  match label.kind with
  | .character => label.value.int?.isSome
  | .alternative | .repetition => label.value.Printable
  | _ => True

theorem spells_of_header {label : Label} (word : String) (inner : label.kind.isLeaf = false)
    (header_eq : Tree.header (label.under none) = (word ++ ·) <$> label.value.text) :
    label.Spells ↔ label.value.Printable := by
  rw [Spells, spelled_of_inner inner, header_eq, ← Datum.exists_text_iff]
  cases label.value.text <;> simp

theorem spells_iff {label : Label} : label.Spells ↔ label.Printable := by
  obtain ⟨kind, name, text, value⟩ := label
  cases kind with
  | character =>
    unfold Spells spelled
    cases value with
    | bool | int => exact ⟨fun _ => rfl, fun _ => ⟨_, rfl⟩⟩
    | _ => exact ⟨nofun, nofun⟩
  | alternative =>
    apply spells_of_header "alternative " rfl
    rw [Tree.header, under]
    cases value.text <;> rfl
  | repetition =>
    apply spells_of_header "repetition " rfl
    rw [Tree.header, under]
    cases value.text <;> rfl
  | _ => exact ⟨fun _ => trivial, fun _ => ⟨_, rfl⟩⟩

end Label

/-! ### Sinks -/

namespace Sink

variable {τ : Type} {sink : Sink τ}

def Accepting (sink : Sink τ) : Prop := ∀ text state, (sink text state).1 = .ok ()

/-- The state of a sink after it was handed some texts. -/
def handed (sink : Sink τ) (texts : List String) (state : τ) : τ :=
  texts.foldl (fun state text => (sink text state).2) state

theorem Accepting.writeAll (h : sink.Accepting) (texts : List String) (state : τ) :
    sink.writeAll texts state = (.ok (String.join texts).length, sink.handed texts state) := by
  induction texts generalizing state with
  | nil => rfl
  | cons text rest ih =>
    have accepted : sink text state = (.ok (), (sink text state).2) := Prod.ext (h text state) rfl
    rw [Sink.writeAll, accepted]
    simp only [ih, String.join_cons, String.length_append]
    rfl

/-- Texts are handed over in turn, though perhaps not all of them. -/
theorem exists_take_watched (sink : Sink τ) (texts before : List String) (state : τ) :
    ∃ count, (sink.watched.writeAll texts (state, before)).2.2 = before ++ texts.take count := by
  induction texts generalizing state before with
  | nil => exact ⟨0, (List.append_nil before).symm⟩
  | cons text rest ih =>
    cases given : sink text state with
    | mk accepted next =>
      have watched : sink.watched text (state, before) = (accepted, next, before ++ [text]) := by
        simp only [Sink.watched, given]
      cases accepted with
      | error fault => exact ⟨1, by simp only [Sink.writeAll, watched]; rfl⟩
      | ok =>
        obtain ⟨count, same⟩ := ih (before ++ [text]) next
        refine ⟨count + 1, ?_⟩
        simp only [Sink.writeAll, watched, same, List.take_succ_cons, List.append_assoc]
        rfl

end Sink

/-! ### Grown trees -/

namespace Tree

/-- A tree that was built by adding nodes, under parents that are there or under none. -/
inductive Grown : Tree → Prop where
  | empty : Grown {}
  | add {t t' : Tree} {label : Label} {parent : Option NodeId} {id : NodeId} (grown : Grown t)
      (present : ∀ place : Nat, parent = some place → place < t.size)
      (added : t.add (label.under parent) = (.ok id, t')) : Grown t'
  | freeze {t : Tree} (grown : Grown t) : Grown t.freeze

variable {t : Tree}

theorem Grown.linked (h : t.Grown) : t.Linked := by
  induction h with
  | empty => exact linked_empty
  | @add t t' label parent id _ present added ih =>
    have thawed : t.frozen = false := by
      refine Bool.eq_false_iff.mpr fun frozen => ?_
      rw [add_frozen frozen] at added
      cases (Prod.mk.inj added).1
    have linked : (t.add (label.under parent)).2.Linked := ih.add ⟨thawed, present⟩
    rwa [added] at linked
  | freeze _ ih => exact ih.freeze

/-- Text, chunks and outline of a node are recursions on the derivation that it shows.  A sink is
handed the chunks one by one, and tells their length if it accepts them all. -/
theorem Grown.renders (grown : t.Grown) {id : NodeId} (present : id < t.size) :
    ∃ d, t.Shows d id ∧ t.render id = d.spoken ∧
      (∀ chunk ∈ d.leafTexts, chunk ≠ "") ∧ String.join d.leafTexts = d.spoken ∧
      (∀ {τ : Type} (sink : Sink τ) (state : τ),
        (∃ count, (t.write id sink.watched (state, [])).2.2 = d.leafTexts.take count) ∧
          (sink.Accepting →
            t.write id sink state = (.ok d.spoken.length, sink.handed d.leafTexts state))) ∧
      (d.rows 0).map Row.label = d.visited ∧
      ∀ indent,
        ((∀ label ∈ d.visited, label.Printable) →
          t.outline id indent = .ok ("\n".intercalate ((d.rows 0).map (Row.line indent)))) ∧
        ((∃ label ∈ d.visited, ¬ label.Printable) →
          ∃ fault, t.outline id indent = .error fault) := by
  obtain ⟨d, shown, room⟩ := grown.linked.shows present
  have chunks := shown.leafTexts room
  refine ⟨d, shown, ?_, d.ne_empty_of_mem_leafTexts, d.join_leafTexts, ?_, d.map_label_rows 0, ?_⟩
  · rw [shown.render room, Derivation.text, d.join_leafTexts]
  · intro τ sink state
    refine ⟨?_, fun accepting => ?_⟩
    · rw [write, chunks]
      exact sink.exists_take_watched d.leafTexts [] state
    · rw [write, chunks, accepting.writeAll, d.join_leafTexts]
  · intro indent
    constructor
    · intro printable
      have spell : ∀ label ∈ d.visited, label.Spells :=
        fun label visited => Label.spells_iff.mpr (printable label visited)
      rw [shown.outline room spell, d.intercalate_rows]
    · rintro ⟨label, visited, unprintable⟩
      cases first : d.visited.findSome? Label.trouble with
      | none =>
        have spells := Label.trouble_eq_none.mp (List.findSome?_eq_none_iff.mp first label visited)
        exact absurd (Label.spells_iff.mp spells) unprintable
      | some fault => exact ⟨fault, shown.outline_unspelled room first indent⟩

/-- Nodes are added one by one, in preorder, as they stand in a derivation. -/
theorem Grown.under {label : Label} {parent : Option NodeId} (grown : t.Grown)
    (takes : t.Takes parent) : (t.add (label.under parent)).2.Grown :=
  .add grown takes.parent_lt (add_eq takes)

/-- A repetition whose count has one digit more than can be printed. -/
def overlong : Derivation :=
  .node { kind := .repetition, value := .int (10 ^ maximumDigits : Nat) } []

/-- No character is reached, but there is no outline. -/
theorem overlong_not_outlined :
    overlong.toTree.freeze.Grown ∧ 0 < overlong.toTree.freeze.size ∧
      (∀ label ∈ overlong.visited, label.kind ≠ .character) ∧
      overlong.toTree.freeze.Shows overlong 0 ∧
      overlong.toTree.freeze.outline 0 = .error (.tooManyDigits none) := by
  have shown := overlong.shows_freeze_toTree
  have room : overlong.size = overlong.toTree.freeze.size := overlong.size_toTree.symm
  refine ⟨.freeze (.under .empty ⟨rfl, nofun⟩), ?_, ?_, shown, ?_⟩
  · rw [← room]
    exact Nat.zero_lt_succ _
  · intro label visited
    have visited : label ∈ [{ kind := .repetition, value := .int (10 ^ maximumDigits : Nat) }] :=
      visited
    obtain rfl := List.mem_singleton.mp visited
    exact nofun
  · refine shown.outline_unspelled (Nat.le_of_eq room) ?_ _
    have unspelled : Label.spelled
        { kind := .repetition, value := .int (10 ^ maximumDigits : Nat) } =
          .error (.tooManyDigits none) := by
      rw [Label.spelled_of_inner rfl, Label.printed_repetition,
        Datum.numeral_eq_error (Nat.le_of_eq (Int.natAbs_natCast _).symm)]
      rfl
    rw [overlong, Derivation.visited, List.findSome?_cons, Label.trouble_eq_some.mpr unspelled]

/-- The end of a line, with a node below it that does not show, and a character. -/
def sheltered : Derivation :=
  .node { kind := .nonTerminal, name := some "foo" }
    [.node { kind := .sequence }
      [.node { kind := .literal, text := "\n" } [.node { kind := .literal, text := "hidden" } []],
        .node { kind := .character, name := some "AB", text := "b", value := .int 98 } []],
      .node { kind := .optional, value := .bool false } []]

theorem grown_sheltered : sheltered.toTree.freeze.Grown := by
  refine .freeze (.under (.under (.under (.under (.under (.under .empty ?_) ?_) ?_) ?_) ?_) ?_)
  all_goals refine ⟨rfl, ?_⟩
  all_goals rintro id ⟨⟩
  all_goals decide

theorem sheltered_renders :
    sheltered.toTree.freeze.Grown ∧ 0 < sheltered.toTree.freeze.size ∧
      sheltered.toTree.freeze.render 0 = "\nb" ∧
      sheltered.toTree.freeze.outline 0 =
        .ok "(foo\n  (sequence\n    '\\n'\n    [AB U+0062])\n  (optional absent))" := by
  have present : 0 < sheltered.toTree.freeze.size := by decide
  obtain ⟨d, shown, spoken, _, _, _, _, outline⟩ := grown_sheltered.renders present
  obtain rfl : d = sheltered := shown.unique sheltered.shows_freeze_toTree
  refine ⟨grown_sheltered, present, spoken.trans (by decide +kernel), ?_⟩
  have printable : ∀ label ∈ sheltered.visited, label.Printable := by
    simp [sheltered, Derivation.visited, Derivation.visitedAll, NodeKind.isLeaf, Label.Printable,
      Datum.int?]
  exact ((outline "  ").1 printable).trans (congrArg Except.ok (by decide +kernel))

end Tree

end SentenceGen
