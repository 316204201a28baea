import Mips.Proofs.Assembly.Extraction
import Mips.Proofs.Assembly.Operands

/-!
The entries of a program, each read off one item. What an item adds depends on the last marker
before it and on the item alone: not on other items, not on labels, and not on what has been
reported. Its operands are those that can be extracted from their own nodes, whatever is wrong with
the other nodes. A program holds the statements and the variables of its items in document order and
nothing else.
-/
namespace Mips

namespace Assembly

open Source

/-- The segment that an item opens. A marker opens its segment even if it is marked or its
operands are not valid. -/
def opened? : Item → Option SegmentName
  | .marker node => some node.segment
  | _ => none

/-- The segment of the last marker. -/
def openSegment (items : List Item) : Option SegmentName :=
  (items.filterMap opened?).getLast?

/-- The values of some operands, if all are integers. -/
def integers? : List Operand → Option (List Int)
  | [] => some []
  | .integer value :: rest => (integers? rest).map (value :: ·)
  | _ => none

/-- One variable for each operand, if all are integers. -/
def numbers (kind : VariableKind) (width : Nat) (operands : List Operand) (line : Option Nat) :
    List Variable :=
  ((integers? operands).getD []).map fun value => ⟨kind, width, some (.integer value), line⟩

/-- The variables of a directive with some operands; there are none if they do not fit. -/
def vars (directive : Directive) (operands : List Operand) (line : Option Nat) :
    List Variable :=
  match directive, operands with
  | .ascii, [.string text] => [⟨.ascii, text.utf8ByteSize, some (.string text), line⟩]
  | .asciiz, [.string text] =>
      [⟨.asciiz, text.utf8ByteSize + 1, some (.string (text.push '\x00')), line⟩]
  | .space, [.integer size] => if 0 ≤ size then [⟨.space, size.toNat, none, line⟩] else []
  | .byte, operands => numbers .byte 1 operands line
  | .half, operands => numbers .half 2 operands line
  | .word, operands => numbers .word 4 operands line
  | _, _ => []

/-- An item, and the segment that is open where it stands. -/
structure Placed where
  segment : Option SegmentName
  item : Item

namespace Placed

/-- A statement needs a mnemonic that is known. Its operands are those that can be extracted, and it
does not matter whether the instruction takes them. -/
def statement? (p : Placed) : Option Statement :=
  match p.item with
  | .statement node =>
      if p.segment = some .text ∧ node.error = none then
        (Instruction.ofMnemonic? node.mnemonic).map fun instruction =>
          ⟨instruction, extracted (operandNodes node.operands), node.span.map Span.line⟩
      else none
  | _ => none

/-- The variables of a directive are those of the operands that can be extracted from its nodes. -/
def vars (p : Placed) : List Variable :=
  match p.item with
  | .directive node =>
      if p.segment = some .data ∧ node.error = none then
        (Directive.ofName? node.name).elim [] fun directive =>
          Assembly.vars directive (extracted (operandNodes node.operands))
            (node.span.map Span.line)
      else []
  | _ => []

/-- Everything that the item adds to the program. -/
def entries (p : Placed) : List Entry :=
  p.statement?.toList.map .statement ++ p.vars.map .variable

end Placed

/-- The node of a label that is not marked; any other item declares no name. -/
def declared? : Item → Option LabelNode
  | .label node => if node.error = none then some node else none
  | _ => none

/-- Some items that follow others, each where it stands. -/
def placedAfter (before : List Item) : List Item → List Placed
  | [] => []
  | item :: rest => ⟨openSegment before, item⟩ :: placedAfter (before ++ [item]) rest

def placed (items : List Item) : List Placed :=
  placedAfter [] items

theorem openSegment_append (items : List Item) (item : Item) :
    openSegment (items ++ [item]) = Draft.segmentAfter (openSegment items) item := by
  cases item <;> simp [openSegment, opened?, Draft.segmentAfter, List.filterMap_append]

section Declarations

variable (kind : VariableKind) (operands : List Operand) (line : Option Nat)

theorem integers?_eq_some_iff {values : List Int} :
    integers? operands = some values ↔ operands = values.map .integer := by
  induction operands generalizing values with
  | nil => simp [integers?, eq_comm]
  | cons operand rest ih =>
      cases operand with
      | integer value => cases values <;> simp [integers?, ih, and_comm]
      | string _ | address _ | register _ => cases values <;> simp [integers?]

theorem isSome_integers? :
    (integers? operands).isSome = operands.all fun operand => operand.integer?.isSome := by
  induction operands with
  | nil => rfl
  | cons operand rest ih =>
      rw [List.all_cons, ← ih]
      cases operand <;> simp [integers?, Operand.integer?]

theorem numbers_eq (width : Nat) :
    numbers kind width operands line =
      if OperandRule.integers.accepts operands then
        operands.map fun operand => ⟨kind, width, some operand, line⟩
      else [] := by
  have accepted : OperandRule.integers.accepts operands =
      (!operands.isEmpty && (integers? operands).isSome) := by
    rw [isSome_integers?, OperandRule.accepts]
  rw [numbers, accepted]
  cases found : integers? operands with
  | none => simp
  | some values =>
      obtain rfl := (integers?_eq_some_iff operands).mp found
      cases values <;> simp

theorem vars_space (size : Int) :
    vars .space [.integer size] line =
      if Directive.space.rule.accepts [.integer size] then
        (Directive.space.declared [.integer size] line).toOption.getD []
      else [] := by
  simp only [vars, Directive.rule, OperandRule.accepts, Directive.declared, Directive.kind?,
    if_true]
  by_cases negative : size < 0
  · rw [if_neg (by omega), if_pos negative]
    rfl
  · rw [if_pos (by omega), if_neg negative]
    rfl

/-- The variables are what the directive declares, provided that its rule accepts the operands
and that no size is below zero. -/
theorem vars_eq (directive : Directive) :
    vars directive operands line =
      if directive.rule.accepts operands then
        (directive.declared operands line).toOption.getD []
      else [] := by
  cases directive with
  | globl | align => simp [vars, Directive.declared, Directive.kind?, Except.toOption]
  | byte | half | word => exact numbers_eq _ operands line _
  | ascii | asciiz =>
      cases operands with
      | nil => simp [vars, Directive.rule, OperandRule.accepts]
      | cons operand rest =>
          cases rest with
          | cons _ _ => simp [vars, Directive.rule, OperandRule.accepts]
          | nil =>
              cases operand with
              | string text =>
                  have nul : ('\x00' : Char).utf8Size = 1 := rfl
                  simp [vars, Directive.rule, OperandRule.accepts, Directive.declared,
                    Directive.kind?, Except.toOption, String.utf8ByteSize_push, nul]
              | integer _ | address _ | register _ =>
                  simp [vars, Directive.rule, OperandRule.accepts]
  | space =>
      cases operands with
      | nil => simp [vars, Directive.rule, OperandRule.accepts]
      | cons operand rest =>
          cases rest with
          | cons _ _ => simp [vars, Directive.rule, OperandRule.accepts]
          | nil =>
              cases operand with
              | integer size => exact vars_space line size
              | string _ | address _ | register _ =>
                  simp [vars, Directive.rule, OperandRule.accepts]

end Declarations

namespace Reading

theorem entries_ofDeclaration (directive : Directive) (node : DirectiveNode) :
    (ofDeclaration directive node).entries =
      (vars directive (extracted (operandNodes node.operands)) (node.span.map Span.line)).map
        .variable := by
  rw [← operandValues_eq, vars_eq]
  simp only [ofDeclaration]
  split
  · cases directive.declared (operandValues node.operands) (node.span.map Span.line) <;> rfl
  · rfl

theorem entries_ofDirective (segment : Option SegmentName) (node : DirectiveNode) :
    (ofDirective segment node).entries = (Placed.mk segment (.directive node)).entries := by
  simp only [Placed.entries, Placed.statement?, Placed.vars, ofDirective]
  cases error : node.error with
  | some reason => simp [issue]
  | none =>
      cases segment with
      | none => simp [issue]
      | some name =>
          cases named : Directive.ofName? node.name with
          | none => cases name <;> simp [issue]
          | some directive =>
              cases name with
              | data => simpa [named] using entries_ofDeclaration directive node
              | text =>
                  -- The text takes one directive, which declares nothing.
                  cases directive with
                  | globl => simpa [vars] using entries_ofDeclaration .globl node
                  | align | ascii | asciiz | byte | half | word | space => simp [issue]

theorem entries_ofStatement (segment : Option SegmentName) (node : StatementNode) :
    (ofStatement segment node).entries = (Placed.mk segment (.statement node)).entries := by
  simp only [Placed.entries, Placed.statement?, Placed.vars, ofStatement]
  cases error : node.error with
  | some reason => simp [issue]
  | none =>
      by_cases inside : segment = some .text
      · cases named : Instruction.ofMnemonic? node.mnemonic <;>
          simp [inside, issue, operandValues_eq]
      · simp [inside, issue]

theorem entries_ofMarker (node : Marker) : (ofMarker node).entries = [] := by
  simp only [ofMarker]
  split
  · rfl
  · split <;> rfl

/-- What an item adds is what it stands for in its segment. -/
theorem entries_ofItem (segment : Option SegmentName) (item : Item) :
    (ofItem segment item).entries = (Placed.mk segment item).entries := by
  cases item with
  | directive node => exact entries_ofDirective segment node
  | statement node => exact entries_ofStatement segment node
  | marker node => exact entries_ofMarker node
  | label node => rfl
  | unknown node =>
      simp only [ofItem, ofUnknown]
      split <;> rfl

end Reading

namespace Placed

theorem text_entries (p : Placed) : p.entries.filterMap Entry.text? = p.statement?.toList := by
  have none (vars : List Variable) : (vars.map Entry.variable).filterMap Entry.text? = [] := by
    simp [List.filterMap_map, Function.comp_def, Entry.text?]
  rw [entries, List.filterMap_append, none]
  cases p.statement? <;> rfl

theorem data_entries (p : Placed) : p.entries.filterMap Entry.data? = p.vars := by
  have all (vars : List Variable) : (vars.map Entry.variable).filterMap Entry.data? = vars := by
    simp [List.filterMap_map, Function.comp_def, Entry.data?]
  rw [entries, List.filterMap_append, all]
  cases p.statement? <;> rfl

end Placed

namespace Draft

theorem segment_pushes (d : Draft) (entries : List Entry) :
    (entries.foldl push d).segment = d.segment := by
  induction entries generalizing d with
  | nil => rfl
  | cons entry rest ih => exact ih (d.push entry)

/-- What is reported at an item. -/
def found (d : Draft) : Item → List Finding
  | .label node =>
      match node.error with
      | some reason => [⟨.syntactic .label reason, node.span⟩]
      | none => (d.labelIssue? node.name).toList.map fun issue => ⟨issue, node.span⟩
  | item => (Reading.ofItem d.segment item).findings

/-- A draft after an item, but before the entries that the item adds. -/
def noted (d : Draft) (item : Item) : Draft where
  segment := segmentAfter d.segment item
  program := d.program
  findings := d.findings ++ d.found item
  outstanding := d.outstanding ++ (declared? item).toList.map LabelNode.name

/-- Whatever an item is, it is noted first and its entries are pushed after that. -/
theorem enter_eq (d : Draft) (item : Item) :
    d.enter item = (Placed.mk d.segment item).entries.foldl push (d.noted item) := by
  cases item with
  | label node =>
      simp only [enter, declare, noted, found, declared?]
      cases node.error <;>
        simp [report, segmentAfter, Placed.entries, Placed.statement?, Placed.vars]
  | marker _ | directive _ | statement _ | unknown _ =>
      simp only [enter, Reading.entries_ofItem, report, noted, found, declared?, Option.toList_none,
        List.map_nil, List.append_nil]

theorem segment_enter (d : Draft) (item : Item) :
    (d.enter item).segment = segmentAfter d.segment item := by
  rw [enter_eq, segment_pushes]
  rfl

/-- The entries of a program are added item by item. -/
theorem entries_enter (d : Draft) (item : Item) :
    (d.enter item).program.text.entries.toList =
        d.program.text.entries.toList ++ (Placed.mk d.segment item).statement?.toList ∧
      (d.enter item).program.data.entries.toList =
        d.program.data.entries.toList ++ (Placed.mk d.segment item).vars := by
  rw [enter_eq, text_pushes, data_pushes, Placed.text_entries, Placed.data_entries]
  exact ⟨rfl, rfl⟩

/-- What a draft holds after some items, given those that have been entered before. -/
theorem entries_foldl (before items : List Item) (d : Draft)
    (placed : d.segment = openSegment before) :
    (items.foldl enter d).segment = openSegment (before ++ items) ∧
      (items.foldl enter d).program.text.entries.toList =
        d.program.text.entries.toList ++ (placedAfter before items).filterMap Placed.statement? ∧
      (items.foldl enter d).program.data.entries.toList =
        d.program.data.entries.toList ++ (placedAfter before items).flatMap Placed.vars := by
  induction items generalizing before d with
  | nil => simp [placed, placedAfter]
  | cons item rest ih =>
      have next : (d.enter item).segment = openSegment (before ++ [item]) := by
        rw [segment_enter, placed, openSegment_append]
      obtain ⟨text, data⟩ := d.entries_enter item
      obtain ⟨segment, restText, restData⟩ := ih (before ++ [item]) (d.enter item) next
      rw [List.foldl_cons]
      refine ⟨by simpa using segment, ?_, ?_⟩
      · rw [restText, text, placed, placedAfter, List.filterMap_cons]
        cases (Placed.mk (openSegment before) item).statement? <;> simp
      · rw [restData, data, placed, placedAfter, List.flatMap_cons, List.append_assoc]

end Draft

/-- Item by item and in document order, a program holds the statements and the variables for
which its items stand under the last marker before them. Names are known in letters of either case,
and a node has a value exactly if it stands for it by itself. -/
theorem extract_entries (items : List Item) :
    (extract items).program.text.entries.toList = (placed items).filterMap Placed.statement? ∧
      (extract items).program.data.entries.toList = (placed items).flatMap Placed.vars ∧
      (items.foldl Draft.enter {}).segment = openSegment items ∧
      (∀ mnemonic instruction, Instruction.ofMnemonic? mnemonic = some instruction ↔
        Text.sameName instruction.mnemonic mnemonic = true) ∧
      (∀ name directive, Directive.ofName? name = some directive ↔
        Text.sameName directive.name name = true) ∧
      (∀ node operand, OperandNode.value node = .ok operand ↔ node.StandsFor operand) := by
  obtain ⟨segment, text, data⟩ := Draft.entries_foldl [] items {} rfl
  exact ⟨text, data, segment, Instruction.ofMnemonic?_eq_some_iff, Directive.ofName?_eq_some_iff,
    fun _ _ => OperandNode.value_eq_ok_iff⟩

end Assembly

end Mips
