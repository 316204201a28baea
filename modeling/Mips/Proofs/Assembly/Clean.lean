import Mips.Proofs.Assembly.Entries
import Mips.Proofs.Source.Written

/-!
Items in which nothing is wrong. A statement or a directive that is read without findings adds just
its entries to a draft, so a source that is put together from such items is assembled into the
program of these entries.
-/
namespace Mips.Assembly

open Source

theorem Reads.values {list : Option OperandList} {operands : List Operand}
    (h : Reads list operands) : operandValues list = operands ∧ operandFindings list = [] := by
  constructor
  · have each := congrArg (List.filterMap Except.toOption) h
    rw [List.filterMap_map, List.filterMap_map] at each
    refine each.trans ?_
    exact List.filterMap_some
  · refine List.filterMap_eq_nil_iff.mpr fun node member => ?_
    have valued : node.value ∈ operands.map Except.ok := by
      rw [← h]
      exact List.mem_map_of_mem member
    obtain ⟨operand, -, value⟩ := List.mem_map.mp valued
    rw [← value]

/-- A format asks for as many operands as each of its combinations has, and for no strings. -/
theorem combination_of_accepts {i : Instruction} {kinds : List OperandKind}
    (h : i.format.accepts kinds = true) : kinds.length = i.format.arity ∧ .string ∉ kinds := by
  have each : ∀ kinds ∈ i.format.combinations,
      kinds.length = i.format.arity ∧ OperandKind.string ∉ kinds := by
    cases i <;> decide
  exact each kinds (List.contains_iff_mem.mp h)

/-- A node that stands for a statement, with nothing wrong about it. -/
structure Means (node : StatementNode) (s : Statement) : Prop extends Carries node s where
  unmarked : node.error = none

theorem Means.reading {node : StatementNode} {s : Statement} (h : Means node s) :
    Reading.ofStatement (some .text) node = { entries := [.statement s] } := by
  obtain ⟨values, findings⟩ := h.operands.values
  obtain ⟨length, -⟩ := combination_of_accepts h.accepted
  rw [List.length_map] at length
  have shape : Reading.shapeFindings s.instruction node s.operands = [] := by
    rw [Reading.shapeFindings, if_neg (not_not.mpr length), if_pos h.accepted]
  simp only [Reading.ofStatement, h.unmarked, h.instruction, values, findings, shape, ← h.line]
  rfl

namespace Draft

variable {d : Draft}

theorem enter_marker (segment : SegmentName) (text : String) (span : Option Span) :
    d.enter (.marker { segment, text, span }) = { d with segment := some segment } := by
  simp [enter, Reading.ofItem, Reading.ofMarker, segmentAfter, report]

theorem enter_label {node : LabelNode} (unmarked : node.error = none)
    (fresh : d.labelIssue? node.name = none) :
    d.enter (.label node) = { d with outstanding := d.outstanding ++ [node.name] } := by
  simp [enter, declare, unmarked, fresh, report]

theorem enter_statement {node : StatementNode} {s : Statement} (means : Means node s)
    (inside : d.segment = some .text) : d.enter (.statement node) = d.push (.statement s) := by
  simp only [enter, Reading.ofItem, inside, means.reading, segmentAfter, report, List.append_nil,
    List.foldl_cons, List.foldl_nil]
  rw [← inside]

theorem foldl_enter_statements {nodes : List StatementNode} {statements : List Statement}
    (means : List.Forall₂ Means nodes statements) (inside : d.segment = some .text) :
    (nodes.map Item.statement).foldl enter d = (statements.map Entry.statement).foldl push d := by
  induction means generalizing d with
  | nil => rfl
  | cons here _ ih =>
      rw [List.map_cons, List.map_cons, List.foldl_cons, List.foldl_cons,
        enter_statement here inside]
      exact ih inside

/-- Statements that no label waits for follow each other. -/
theorem foldl_push_statements (statements : List Statement) (unlabelled : d.outstanding = []) :
    (statements.map Entry.statement).foldl push d =
      { d with program := { d.program with text :=
        { d.program.text with entries := d.program.text.entries ++ statements.toArray } } } := by
  induction statements generalizing d with
  | nil => simp
  | cons s rest ih =>
      rw [List.map_cons, List.foldl_cons, ih rfl]
      simp [push, Program.push, Program.pushStatement, Program.freshNames, Segment.push, unlabelled]

end Draft

/-- A data segment with one labelled directive. -/
def dataItems (marker : Option Span) (label : LabelNode) (node : DirectiveNode) : List Item :=
  [.marker { segment := .data, text := ".data", span := marker }, .label label, .directive node]

theorem foldl_dataItems {marker : Option Span} {label : LabelNode} {node : DirectiveNode}
    (unmarked : label.error = none) (other : label.name ≠ entryLabel) :
    (dataItems marker label node).foldl Draft.enter {} =
      (Reading.ofDirective (some .data) node).entries.foldl Draft.push {
        segment := some .data
        findings := (Reading.ofDirective (some .data) node).findings
        outstanding := [label.name] } := by
  have free : Draft.labelIssue? { segment := some .data } label.name = none := by
    simp [Draft.labelIssue?, Program.hasLabel, Segment.hasLabel, Segment.labelIndex?, other]
  rw [dataItems, List.foldl_cons, Draft.enter_marker, List.foldl_cons,
    Draft.enter_label unmarked free]
  rfl

/-- The text segment of a source: its marker, the label of the entry and statements. -/
def textItems (marker label : Option Span) (nodes : List StatementNode) : List Item :=
  .marker { segment := .text, text := ".text", span := marker } ::
    .label { name := entryLabel, span := label } :: nodes.map .statement

/-- A text segment is taken as it is written when nothing stands in the way of its label. -/
theorem extract_textItems {before : List Item} {d : Draft} {marker label : Option Span}
    {nodes : List StatementNode} {s : Statement} {more : List Statement}
    (start : before.foldl Draft.enter {} = d) (empty : d.program.text = {})
    (fresh : d.program.data.hasLabel entryLabel = false) (unlabelled : d.outstanding = [])
    (means : List.Forall₂ Means nodes (s :: more)) :
    extract (before ++ textItems marker label nodes) = {
      program := {
        text := { entries := (s :: more).toArray, labels := [(entryLabel, 0)] }
        data := d.program.data }
      problems := d.findings.map Finding.problem } := by
  obtain ⟨segment, ⟨text, data⟩, findings, outstanding⟩ := d
  obtain rfl : text = {} := empty
  obtain rfl : outstanding = [] := unlabelled
  have known : Program.hasLabel ⟨{}, data⟩ entryLabel = false := fresh
  have free : Draft.labelIssue? ⟨some .text, ⟨{}, data⟩, findings, []⟩ entryLabel = none := by
    simp [Draft.labelIssue?, known]
  have names : Program.freshNames ⟨{}, data⟩ [entryLabel] = [entryLabel] := by
    simp [Program.freshNames, List.eraseDups_cons, known]
  have named : Segment.hasLabel ⟨(s :: more).toArray, [(entryLabel, 0)]⟩ entryLabel = true := by
    simp [Segment.hasLabel, Segment.labelIndex?]
  rw [extract, List.foldl_append, start, textItems, List.foldl_cons, Draft.enter_marker,
    List.foldl_cons, Draft.enter_label rfl free, Draft.foldl_enter_statements means rfl,
    List.map_cons, List.foldl_cons, Draft.foldl_push_statements more rfl]
  simp [Draft.push, Program.push, Program.pushStatement, names, Segment.push, Segment.size,
    Draft.close, Draft.closingIssues, named, Draft.report, Draft.result]

/-- A program of one variable with a label and of statements that begin with the entry. -/
def programOf (name : String) (v : Variable) (statements : List Statement) : Program where
  data := { entries := #[v], labels := [(name, 0)] }
  text := { entries := statements.toArray, labels := [(entryLabel, 0)] }

theorem extract_parts {markers : Option Span × Option Span} {label : LabelNode}
    {node : DirectiveNode} {v : Variable} {entry : Option Span} {nodes : List StatementNode}
    {s : Statement} {more : List Statement} (unmarked : label.error = none)
    (other : label.name ≠ entryLabel)
    (reading : Reading.ofDirective (some .data) node = { entries := [.variable v] })
    (means : List.Forall₂ Means nodes (s :: more)) :
    extract (dataItems markers.1 label node ++ textItems markers.2 entry nodes) =
      { program := programOf label.name v (s :: more) } := by
  have fresh : (⟨#[v], [(label.name, 0)]⟩ : Segment Variable).hasLabel entryLabel = false := by
    simp [Segment.hasLabel, Segment.labelIndex?, List.lookup_cons, beq_false_of_ne other.symm]
  have push : Draft.push { segment := some .data, outstanding := [label.name] } (.variable v) =
      { segment := some .data, program := { data := ⟨#[v], [(label.name, 0)]⟩ } } := by
    simp [Draft.push, Program.push, Program.pushVariable, Program.freshNames, Segment.push,
      Program.hasLabel, Segment.hasLabel, Segment.labelIndex?, List.eraseDups_cons, Segment.size]
  have start : (dataItems markers.1 label node).foldl Draft.enter {} = _ :=
    foldl_dataItems unmarked other
  rw [reading, List.foldl_cons, List.foldl_nil, push] at start
  exact extract_textItems start rfl fresh rfl means

/-- Lines from a number on, each of which is read as one statement wherever it stands. -/
inductive Listing : Nat → List (List Char) → List Statement → Prop
  | nil (number : Nat) : Listing number [] []
  | cons {number : Nat} {text : List Char} {s : Statement} {texts : List (List Char)}
      {statements : List Statement}
      (read : ∀ start, ∃ node, Item.ofLine ⟨number, start, withoutReturn text⟩ = [.statement node] ∧
        Means node s)
      (later : Listing (number + 1) texts statements) :
      Listing number (text :: texts) (s :: statements)

theorem Listing.items {number : Nat} {texts : List (List Char)} {statements : List Statement}
    (h : Listing number texts statements) (start : Nat) :
    ∃ nodes, itemsFrom number start texts = nodes.map .statement ∧
      List.Forall₂ Means nodes statements := by
  induction h generalizing start with
  | nil number => exact ⟨[], rfl, .nil⟩
  | cons read _ ih =>
      obtain ⟨node, here, means⟩ := read start
      obtain ⟨nodes, items, later⟩ := ih _
      exact ⟨node :: nodes, by rw [itemsFrom, here, items]; rfl, .cons means later⟩

/-- The lines of a text segment: its marker, then statements behind the label of the entry. -/
def textLines (first : List Char) (texts : List (List Char)) : List (List Char) :=
  SegmentName.text.marker.toList :: (entryLabel.toList ++ ':' :: ' ' :: first) :: texts

theorem oneLine_textLines {first : List Char} {texts : List (List Char)}
    (oneLine : ∀ text ∈ first :: texts, '\n' ∉ text) :
    ∀ text ∈ textLines first texts, '\n' ∉ text := by
  obtain ⟨here, later⟩ := List.forall_mem_cons.mp oneLine
  have label : '\n' ∉ entryLabel.toList := by decide
  have labelled : '\n' ∉ entryLabel.toList ++ ':' :: ' ' :: first := by simp [label, here]
  exact List.forall_mem_cons.mpr ⟨by decide, List.forall_mem_cons.mpr ⟨labelled, later⟩⟩

theorem Listing.textItems {number : Nat} {first : List Char} {texts : List (List Char)}
    {statements : List Statement} (h : Listing (number + 1) (first :: texts) statements)
    (start : Nat) :
    ∃ marker label nodes, itemsFrom number start (textLines first texts) =
        Assembly.textItems marker label nodes ∧ List.Forall₂ Means nodes statements := by
  cases h with
  | cons read later =>
      let second := start + Text.utf8Length SegmentName.text.marker.toList + 1
      let third := second + Text.utf8Length entryLabel.toList
      obtain ⟨node, here, means⟩ := read (third + 1 + 1)
      obtain ⟨nodes, items, more⟩ := later.items _
      have kept : withoutReturn (entryLabel.toList ++ ':' :: ' ' :: first) =
          entryLabel.toList ++ ':' :: ' ' :: withoutReturn first := by
        have cut := withoutReturn_append
          (show (entryLabel.toList ++ [':', ' ']).getLast? ≠ some '\r' by decide) first
        simpa using cut
      refine ⟨(⟨number, start, SegmentName.text.marker.toList⟩ : Fragment).span,
        some ⟨number + 1, second, third⟩, node :: nodes, ?_, .cons means more⟩
      rw [textLines, itemsFrom, itemsFrom, withoutReturn_of_last (by decide), kept,
        Item.ofLine_marker, Item.ofLine_label (by decide), Item.ofLine_blank, here, items,
        String.ofList_toList]
      rfl

end Mips.Assembly
