import Mips.Proofs.Assembly.Findings
import Mips.Proofs.Assembly.Leftover
import Mips.Proofs.Assembly.Loading
import Mips.Proofs.Assembly.Position

/-!
Where the places of problems come from. What is logged at an item has the place of the item or of
one of its parts, and none only if the item or one of its operands has none. What is found at the
end has no place, and an undefined label has the line of its statement, which is the line of an
item. So without any place in the items there is none in the problems, nor a line in the program.
-/
namespace Mips

/-- A problem at a place: on its line, from its first to its last byte. -/
structure Problem.IsAt (p : Problem) (span : Span) : Prop where
  line : p.line = some span.line
  range : p.range = some (span.first, span.last)

namespace Assembly

open Source

/-- The places that an item gives: its own, and those of its mnemonic, its list of operands and each
operand. -/
def spans (item : Item) : List Span :=
  item.span?.toList ++ (mnemonicSpan? item).toList ++
    (item.operands?.bind OperandList.span).toList ++ item.operands.filterMap OperandNode.span

/-- A problem whose place comes from an item. -/
structure Sourced (item : Item) (p : Problem) : Prop where
  place : p.isPositionFree = true ∨ ∃ span ∈ spans item, p.IsAt span
  absent : p.isPositionFree = true →
    item.span? = none ∨ ∃ node ∈ item.operands, node.span = none

section Sources

variable {item : Item} {finding : Finding}

theorem isPositionFree_problem_iff :
    finding.problem.isPositionFree = true ↔ finding.span = none := by
  cases place : finding.span <;>
    simp [Finding.problem, Problem.isPositionFree, Problem.spanning, place]

theorem isAt_problem {span : Span} (place : finding.span = some span) :
    finding.problem.IsAt span := by
  constructor <;> simp [Finding.problem, Problem.spanning, place]

/-- A part without a place leaves its issue to the item. -/
theorem mem_spans_of_places {span : Span} (place : some span ∈ places item) :
    span ∈ spans item := by
  simp only [places, List.mem_cons, List.not_mem_nil, or_false, listSpan, eq_comm (a := some span),
    Option.or_eq_some_iff] at place
  simp only [spans, List.mem_append, Option.mem_toList]
  obtain own | (mnemonic | ⟨-, own⟩) | list | ⟨-, own⟩ := place
  · exact .inl (.inl (.inl own))
  · exact .inl (.inl (.inr mnemonic))
  · exact .inl (.inl (.inl own))
  · exact .inl (.inr list)
  · exact .inl (.inl (.inl own))

theorem span?_of_places (place : none ∈ places item) : item.span? = none := by
  simp only [places, List.mem_cons, List.not_mem_nil, or_false, listSpan, eq_comm (a := none),
    Option.or_eq_none_iff] at place
  obtain own | ⟨-, own⟩ | ⟨-, own⟩ := place
  · exact own
  · exact own
  · exact own

theorem About.sourced (h : About item finding) : Sourced item finding.problem := by
  have place : ∀ span, finding.span = some span → span ∈ spans item := by
    intro span place
    cases h with
    | operand member _ =>
        exact List.mem_append_right _ (List.mem_filterMap.mpr ⟨_, member, place⟩)
    | whole found _ _ => exact mem_spans_of_places (place ▸ found)
  refine ⟨?_, ?_⟩
  · cases found : finding.span with
    | none => exact .inl (isPositionFree_problem_iff.mpr found)
    | some span => exact .inr ⟨span, place span found, isAt_problem found⟩
  · intro free
    have absent := isPositionFree_problem_iff.mp free
    cases h with
    | operand member _ => exact .inr ⟨_, member, absent⟩
    | whole found _ _ => exact .inl (span?_of_places (absent ▸ found))

end Sources

/-- What is logged at each of some items as they are entered. -/
def Draft.logs (d : Draft) : List Item → List Problems
  | [] => []
  | item :: rest =>
      ((d.enter item).findings.drop d.findings.length).map Finding.problem ::
        (d.enter item).logs rest

namespace Draft

theorem findings_enter (d : Draft) (item : Item) :
    (d.enter item).findings = d.findings ++ d.found item := by
  rw [enter_eq, findings_pushes]
  rfl

/-- Entering an item adds to the log, and all that is added comes from the item. -/
theorem sourced_logs (d : Draft) (items : List Item) :
    List.Forall₂ (fun item log => ∀ p ∈ log, Sourced item p) items (d.logs items) := by
  induction items generalizing d with
  | nil => exact .nil
  | cons item rest ih =>
      refine .cons ?_ (ih (d.enter item))
      rw [findings_enter, List.drop_left]
      intro p logged
      obtain ⟨finding, found, rfl⟩ := List.mem_map.mp logged
      exact (about_found d item finding found).sourced

theorem sourced_of_mem_logs {d : Draft} {items : List Item} {p : Problem}
    (logged : p ∈ (d.logs items).flatten) : ∃ item ∈ items, Sourced item p := by
  have each := d.sourced_logs items
  generalize d.logs items = logs at each logged
  induction each with
  | nil => cases logged
  | cons here _ ih =>
      rw [List.flatten_cons] at logged
      obtain now | later := List.mem_append.mp logged
      · exact ⟨_, List.mem_cons_self, here p now⟩
      · obtain ⟨item, member, sourced⟩ := ih later
        exact ⟨item, List.mem_cons_of_mem _ member, sourced⟩

theorem problems_foldl (d : Draft) (items : List Item) :
    (items.foldl enter d).findings.map Finding.problem =
      d.findings.map Finding.problem ++ (d.logs items).flatten := by
  induction items generalizing d with
  | nil => simp [logs]
  | cons item rest ih =>
      rw [List.foldl_cons, ih, findings_enter, logs, findings_enter, List.drop_left,
        List.map_append, List.flatten_cons, List.append_assoc]

end Draft

/-- The log of a source is what is logged at its items, one after another, and at its end. -/
theorem extract_logs (items : List Item) : ∃ closing,
    (extract items).problems = (Draft.logs {} items).flatten ++ closing ∧
      ∀ p ∈ closing, p.isPositionFree = true := by
  rw [problems_extract, Draft.problems_foldl]
  refine ⟨_, rfl, ?_⟩
  intro p closing
  obtain ⟨finding, found, rfl⟩ := List.mem_map.mp closing
  obtain ⟨issue, -, rfl⟩ := List.mem_map.mp found
  rfl

/-- A use of a label that is bound nowhere, in a statement of a program. -/
structure Undefined (p : Program) (s : Statement) (name : String) : Prop where
  statement : s ∈ p.text.entries.toList
  used : ∃ a, .address a ∈ s.operands ∧ a.label = some name
  unbound : p.place? name = none

theorem undefinedLabel?_eq_some_iff {find : String → Option Target} {o : Operand} {name : String} :
    o.undefinedLabel? find = some name ↔
      (∃ a, o = .address a ∧ a.label = some name) ∧ find name = none := by
  cases o with
  | address a => simp [Operand.undefinedLabel?, Option.filter_eq_some_iff]
  | integer _ | string _ | register _ => simp [Operand.undefinedLabel?]

theorem mem_undefinedLabels_iff {p : Program} {label : UndefinedLabel} :
    label ∈ p.undefinedLabels ↔ ∃ s name, Undefined p s name ∧ label = ⟨name, s.line⟩ := by
  simp only [Program.undefinedLabels, Statement.undefinedLabels, List.mem_flatMap, List.mem_map,
    List.mem_filterMap, undefinedLabel?_eq_some_iff]
  constructor
  · rintro ⟨s, statement, name, ⟨o, used, ⟨a, rfl, label⟩, unbound⟩, rfl⟩
    exact ⟨s, name, ⟨statement, ⟨a, used, label⟩, unbound⟩, rfl⟩
  · rintro ⟨s, name, ⟨statement, ⟨a, used, label⟩, unbound⟩, rfl⟩
    exact ⟨s, statement, name, ⟨.address a, used, ⟨a, rfl, label⟩, unbound⟩, rfl⟩

/-- Linking adds one kind of problem: a label without an entry, at the line where it is used. -/
theorem link_logs (r : Result) : ∃ added, r.link.problems = r.problems ++ added ∧
    ∀ p, p ∈ added ↔ ∃ s name, Undefined r.program s name ∧
      p = { message := s!"the label \"{name}\" is not defined", line := s.line } := by
  refine ⟨_, rfl, ?_⟩
  intro p
  simp only [List.mem_map, mem_undefinedLabels_iff]
  constructor
  · rintro ⟨label, ⟨s, name, undefined, rfl⟩, rfl⟩
    exact ⟨s, name, undefined, rfl⟩
  · rintro ⟨s, name, undefined, rfl⟩
    exact ⟨_, ⟨s, name, undefined, rfl⟩, rfl⟩

section Lines

theorem Placed.line_of_statement? {p : Placed} {s : Statement} (h : p.statement? = some s) :
    s.line = p.item.span?.map Span.line := by
  obtain ⟨segment, item⟩ := p
  cases item with
  | statement node =>
      simp only [Placed.statement?] at h
      split at h
      · obtain ⟨instruction, -, rfl⟩ := Option.map_eq_some_iff.mp h
        rfl
      · cases h
  | marker _ | label _ | directive _ | unknown _ => cases h

theorem item_of_mem_placed {items : List Item} {p : Placed} (member : p ∈ placed items) :
    p.item ∈ items := by
  have listed := List.mem_map_of_mem (f := Placed.item) member
  rwa [placed, map_item_placedAfter] at listed

/-- The entries of a program have the lines of its items, or none. -/
theorem lines_extract (items : List Item) :
    (∀ s ∈ (extract items).program.text.entries.toList,
      ∃ item ∈ items, s.line = item.span?.map Span.line) ∧
    ∀ v ∈ (extract items).program.data.entries.toList,
      ∃ item ∈ items, v.line = item.span?.map Span.line := by
  obtain ⟨-, text, data⟩ := Draft.entries_foldl [] items {} rfl
  have program : (extract items).program = (items.foldl Draft.enter {}).program := rfl
  rw [program, text, data, Array.toList_empty, List.nil_append, Array.toList_empty, List.nil_append]
  constructor
  · intro s member
    obtain ⟨p, place, found⟩ := List.mem_filterMap.mp member
    exact ⟨p.item, item_of_mem_placed place, p.line_of_statement? found⟩
  · intro v member
    obtain ⟨p, place, found⟩ := List.mem_flatMap.mp member
    exact ⟨p.item, item_of_mem_placed place, (p.declared_of_mem_vars found).2⟩

/-- Linking moves no statement to another line. -/
theorem lines_link (items : List Item) :
    (∀ s ∈ (extract items).link.program.text.entries.toList,
      ∃ item ∈ items, s.line = item.span?.map Span.line) ∧
    ∀ v ∈ (extract items).link.program.data.entries.toList,
      ∃ item ∈ items, v.line = item.span?.map Span.line := by
  obtain ⟨text, data⟩ := lines_extract items
  refine ⟨?_, data⟩
  intro s member
  rw [Result.link, Program.link, Array.toList_map] at member
  obtain ⟨before, known, rfl⟩ := List.mem_map.mp member
  exact text before known

end Lines

theorem isPositionFree_of_spanless {item : Item} {p : Problem} (sourced : Sourced item p)
    (spanless : spans item = []) : p.isPositionFree = true := by
  refine sourced.place.resolve_right ?_
  rintro ⟨span, member, -⟩
  rw [spanless] at member
  cases member

theorem span?_of_spanless {item : Item} (spanless : spans item = []) : item.span? = none := by
  rw [spans] at spanless
  simpa using (List.append_eq_nil_iff.mp (List.append_eq_nil_iff.mp
    (List.append_eq_nil_iff.mp spanless).1).1).1

/-- Without any place in the items there is none in the problems, and no line in the program. -/
theorem spanless_link {items : List Item} (spanless : ∀ item ∈ items, spans item = []) :
    (∀ p ∈ (extract items).link.problems, p.isPositionFree = true) ∧
      (∀ s ∈ (extract items).link.program.text.entries.toList, s.line = none) ∧
      ∀ v ∈ (extract items).link.program.data.entries.toList, v.line = none := by
  have unlined {line : Option Nat} (h : ∃ item ∈ items, line = item.span?.map Span.line) :
      line = none := by
    obtain ⟨item, member, rfl⟩ := h
    rw [span?_of_spanless (spanless item member)]
    rfl
  obtain ⟨text, data⟩ := lines_link items
  refine ⟨?_, fun s member => unlined (text s member), fun v member => unlined (data v member)⟩
  intro p logged
  obtain ⟨closing, log, free⟩ := extract_logs items
  obtain ⟨added, more, undefined⟩ := link_logs (extract items)
  rw [more, log] at logged
  obtain (entered | closed) | linked := by simpa only [List.mem_append] using logged
  · obtain ⟨item, member, sourced⟩ := Draft.sourced_of_mem_logs entered
    exact isPositionFree_of_spanless sourced (spanless item member)
  · exact free p closed
  · obtain ⟨s, name, found, rfl⟩ := (undefined p).mp linked
    have line := unlined ((lines_extract items).1 s found.statement)
    simp [Problem.isPositionFree, line]

/-- All places of problems come from items, and so do the lines of entries. What is logged at an
item has the place of the item or of a part of it, and none only if the item or an operand has none;
what is found at the end has none. Linking reports in any result exactly the uses of labels that are
bound nowhere, each at the line of its statement. So items without places give problems without
places and entries without lines. -/
theorem problems_sourced :
    (∀ items, ∃ closing, (extract items).problems = (Draft.logs {} items).flatten ++ closing ∧
      List.Forall₂ (fun item log => ∀ p ∈ log, Sourced item p) items (Draft.logs {} items) ∧
      ∀ p ∈ closing, p.isPositionFree = true) ∧
    (∀ r : Result, ∃ added, r.link.problems = r.problems ++ added ∧
      ∀ p, p ∈ added ↔ ∃ s name, Undefined r.program s name ∧
        p = { message := s!"the label \"{name}\" is not defined", line := s.line, range := none }) ∧
    (∀ items, (∀ s ∈ (extract items).link.program.text.entries.toList,
        ∃ item ∈ items, s.line = item.span?.map Span.line) ∧
      ∀ v ∈ (extract items).link.program.data.entries.toList,
        ∃ item ∈ items, v.line = item.span?.map Span.line) ∧
    ∀ items, (∀ item ∈ items, spans item = []) →
      (∀ p ∈ (extract items).link.problems, p.isPositionFree = true) ∧
        (∀ s ∈ (extract items).link.program.text.entries.toList, s.line = none) ∧
        ∀ v ∈ (extract items).link.program.data.entries.toList, v.line = none := by
  refine ⟨fun items => ?_, link_logs, lines_link, fun items => spanless_link⟩
  obtain ⟨closing, log, free⟩ := extract_logs items
  exact ⟨closing, log, Draft.sourced_logs {} items, free⟩

/-- Items without any place: a jump to a label that is bound nowhere, a statement that lacks its
operands, and text that is no item. -/
def spanless : List Item :=
  [.marker { segment := .text, text := ".text" },
    .label { name := "main" },
    .statement {
      mnemonic := "j"
      operands := some {
        operands := [{ form := .address (some "nowhere") none none, text := "nowhere" }] } },
    .statement { mnemonic := "li" },
    .unknown { text := "?" }]

theorem problems_sourced_spanless :
    (∀ item ∈ spanless, spans item = []) ∧
      (extract spanless).link.problems.map Problem.message =
        ["Wrong number of operands for li instruction (2 required)",
          "unrecognised input with no position information: \"?\"",
          "the label \"nowhere\" is not defined"] ∧
      (∀ p ∈ (extract spanless).link.problems, p.isPositionFree = true) ∧
      (extract spanless).link.program.text.entries.toList.map Statement.instruction = [.j, .li] ∧
      ∀ s ∈ (extract spanless).link.program.text.entries.toList, s.line = none := by
  have nowhere : ∀ item ∈ spanless, spans item = [] := by decide
  obtain ⟨free, lines, -⟩ := problems_sourced.2.2.2 spanless nowhere
  exact ⟨nowhere, by decide +kernel, free, by decide +kernel, lines⟩

end Assembly

end Mips
