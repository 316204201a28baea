import Mips.Assembly.Reading
import Mathlib.Data.List.Forall2

/-!
What an item leaves behind when nothing critical is found at it. A statement is kept with all of
its operands and a declaration as one variable for each of its operands, and neither the item
nor any of its operands has been marked by the parser.
-/
namespace Mips

namespace Source

def operandNodes (list : Option OperandList) : List OperandNode :=
  list.elim [] OperandList.operands

namespace Item

def operands : Item → List OperandNode
  | .marker node => operandNodes node.operands
  | .directive node => operandNodes node.operands
  | .statement node => operandNodes node.operands
  | .label _ | .unknown _ => []

def error? : Item → Option String
  | .marker node => node.error
  | .label node => node.error
  | .directive node => node.error
  | .statement node => node.error
  | .unknown _ => none

structure Unmarked (item : Item) : Prop where
  recognised : ∀ node, item ≠ .unknown node
  error : item.error? = none
  operands : ∀ node ∈ item.operands, node.error = none

end Item

theorem OperandNode.error_eq_none_of_value {node : OperandNode} {operand : Operand}
    (h : node.value = .ok operand) : node.error = none := by
  cases marked : node.error with
  | none => rfl
  | some reason => simp [value, marked] at h

end Source

namespace Assembly

open Source

/-- The variable that one operand of a declaration stands for. -/
inductive Declares (line : Option Nat) : VariableKind → Operand → Variable → Prop
  | ascii (text : String) :
      Declares line .ascii (.string text) ⟨.ascii, text.utf8ByteSize, some (.string text), line⟩
  | asciiz (text : String) :
      Declares line .asciiz (.string text)
        ⟨.asciiz, (text.push '\x00').utf8ByteSize, some (.string (text.push '\x00')), line⟩
  | space (size : Nat) : Declares line .space (.integer size) ⟨.space, size, none, line⟩
  | byte (value : Int) :
      Declares line .byte (.integer value) ⟨.byte, 1, some (.integer value), line⟩
  | half (value : Int) :
      Declares line .half (.integer value) ⟨.half, 2, some (.integer value), line⟩
  | word (value : Int) :
      Declares line .word (.integer value) ⟨.word, 4, some (.integer value), line⟩

/-- Operands that are the values of all nodes of a list. -/
def Reads (list : Option OperandList) (operands : List Operand) : Prop :=
  (operandNodes list).map OperandNode.value = operands.map .ok

/-- A statement that is what its node says, with operands that its instruction takes. -/
structure Carries (node : StatementNode) (s : Statement) : Prop where
  instruction : Instruction.ofMnemonic? node.mnemonic = some s.instruction
  operands : Reads node.operands s.operands
  line : s.line = node.span.map Span.line
  accepted : s.instruction.format.accepts (s.operands.map Operand.kind) = true

/-- The kind of the variables that a directive of the source declares, if it declares any. -/
def declaredKind? (node : DirectiveNode) : Option VariableKind :=
  (Directive.ofName? node.name).bind Directive.kind?

/-- The entries are all that an item says. -/
inductive Kept : Item → List Entry → Prop
  | marker (node : Marker) : Kept (.marker node) []
  | label (node : LabelNode) : Kept (.label node) []
  | statement {node : StatementNode} {s : Statement} (carries : Carries node s) :
      Kept (.statement node) [.statement s]
  | declaration {node : DirectiveNode} {kind : VariableKind} {operands : List Operand}
      {declared : List Variable} (declares : declaredKind? node = some kind)
      (reads : Reads node.operands operands) (nonempty : operands ≠ [])
      (each : List.Forall₂ (Declares (node.span.map Span.line) kind) operands declared) :
      Kept (.directive node) (declared.map .variable)
  | undeclaring {node : DirectiveNode} (declares : declaredKind? node = none) :
      Kept (.directive node) []

/-- Findings that do not keep a program from running. -/
def Harmless (findings : List Finding) : Prop :=
  ∀ finding ∈ findings, finding.issue.severity = .nonCritical

@[simp] theorem harmless_nil : Harmless [] := by
  simp [Harmless]

@[simp] theorem harmless_append (first second : List Finding) :
    Harmless (first ++ second) ↔ Harmless first ∧ Harmless second := by
  simp [Harmless, or_imp, forall_and]

@[simp] theorem harmless_singleton (issue : Issue) (span : Option Span) :
    Harmless [⟨issue, span⟩] ↔ issue.severity = .nonCritical := by
  simp [Harmless]

/-- Only the misuse of a directive that declares nothing is harmless. -/
@[simp] theorem Issue.severity_eq_nonCritical_iff (issue : Issue) :
    issue.severity = .nonCritical ↔
      ∃ directive, issue = .directiveMisuse directive ∧ directive.kind? = none := by
  cases issue with
  | directiveMisuse directive =>
      cases directive <;> simp [severity, Directive.misuseSeverity, Directive.kind?]
  | _ => simp [severity, Severity.default]

theorem reads_operandValues_iff (list : Option OperandList) :
    Reads list (operandValues list) ↔ Harmless (operandFindings list) := by
  simp only [Reads, operandValues, operandFindings, operandNodes]
  induction list.elim [] OperandList.operands with
  | nil => simp
  | cons node rest ih =>
      cases value : node.value with
      | ok operand => simpa [value, Except.toOption] using ih
      | error e =>
          have critical : ¬Harmless [⟨.operand e, node.span⟩] := by
            simp [Issue.severity, Severity.default]
          simp only [List.map_cons, List.filterMap_cons, value, Except.toOption]
          refine iff_of_false ?_ ?_
          · intro equal
            obtain ⟨operand, -, valued⟩ := List.mem_map.mp (equal ▸ List.mem_cons_self)
            cases valued
          · intro harmless
            exact critical fun finding member => harmless finding (by simp_all)

theorem Reads.error_eq_none {list : Option OperandList} {operands : List Operand}
    (h : Reads list operands) : ∀ node ∈ operandNodes list, node.error = none := by
  intro node member
  have valued : node.value ∈ operands.map Except.ok := by
    rw [← h]
    exact List.mem_map_of_mem member
  obtain ⟨operand, -, value⟩ := List.mem_map.mp valued
  exact OperandNode.error_eq_none_of_value value.symm

theorem accepts_oneString_iff (operands : List Operand) :
    OperandRule.oneString.accepts operands = true ↔ ∃ text, operands = [.string text] := by
  constructor
  · intro h
    simp only [OperandRule.accepts] at h
    split at h <;> simp_all
  · intro ⟨text, same⟩
    simp [same, OperandRule.accepts]

theorem accepts_oneInteger_iff (operands : List Operand) :
    OperandRule.oneInteger.accepts operands = true ↔ ∃ value, operands = [.integer value] := by
  constructor
  · intro h
    simp only [OperandRule.accepts] at h
    split at h <;> simp_all
  · intro ⟨value, same⟩
    simp [same, OperandRule.accepts]

theorem accepts_integers_iff (operands : List Operand) :
    OperandRule.integers.accepts operands = true ↔
      operands ≠ [] ∧ ∀ operand ∈ operands, ∃ value, operand = .integer value := by
  have integer (operand : Operand) :
      operand.integer?.isSome = true ↔ ∃ value, operand = .integer value := by
    cases operand <;> simp [Operand.integer?]
  simp [OperandRule.accepts, integer]

theorem forall₂_map_self {α β : Type} {R : α → β → Prop} {f : α → β} {list : List α}
    (h : ∀ a ∈ list, R a (f a)) : List.Forall₂ R list (list.map f) := by
  rw [List.forall₂_map_right_iff, List.forall₂_same]
  exact h

/-- Each accepted operand of a declaration stands for one variable. -/
theorem declares_of_declared {directive : Directive} {kind : VariableKind}
    {operands : List Operand} {line : Option Nat} {declared : List Variable}
    (declares : directive.kind? = some kind)
    (accepted : directive.rule.accepts operands = true)
    (h : directive.declared operands line = .ok declared) :
    operands ≠ [] ∧ List.Forall₂ (Declares line kind) operands declared := by
  cases directive with
  | globl | align => simp [Directive.kind?] at declares
  | ascii =>
      obtain rfl := Option.some.inj declares
      obtain ⟨text, rfl⟩ := (accepts_oneString_iff _).mp accepted
      obtain rfl := Except.ok.inj h
      exact ⟨by simp, .cons (.ascii text) .nil⟩
  | asciiz =>
      obtain rfl := Option.some.inj declares
      obtain ⟨text, rfl⟩ := (accepts_oneString_iff _).mp accepted
      obtain rfl := Except.ok.inj h
      exact ⟨by simp, .cons (.asciiz text) .nil⟩
  | space =>
      obtain rfl := Option.some.inj declares
      obtain ⟨size, rfl⟩ := (accepts_oneInteger_iff _).mp accepted
      simp only [Directive.declared, Directive.kind?] at h
      split at h
      · contradiction
      · next positive =>
          obtain rfl := Except.ok.inj h
          have whole : ((size.toNat : Nat) : Int) = size := Int.toNat_of_nonneg (by omega)
          refine ⟨by simp, .cons ?_ .nil⟩
          have each : Declares line .space (.integer size.toNat) _ := .space size.toNat
          rwa [whole] at each
  | byte | half | word =>
      obtain rfl := Option.some.inj declares
      obtain ⟨nonempty, integers⟩ := (accepts_integers_iff _).mp accepted
      obtain rfl := Except.ok.inj h
      refine ⟨nonempty, forall₂_map_self ?_⟩
      intro operand member
      obtain ⟨value, rfl⟩ := integers operand member
      constructor

namespace Reading

theorem kept_ofDeclaration {directive : Directive} {node : DirectiveNode}
    (named : Directive.ofName? node.name = some directive)
    (h : Harmless (ofDeclaration directive node).findings) :
    Kept (.directive node) (ofDeclaration directive node).entries ∧
      Reads node.operands (operandValues node.operands) := by
  simp only [ofDeclaration] at h ⊢
  split at h
  · next accepted =>
      cases made : directive.declared (operandValues node.operands) (node.span.map Span.line) with
      | error size =>
          simp [made] at h
      | ok declared =>
          simp only [made] at h
          have reads := (reads_operandValues_iff _).mpr h
          simp only [accepted, if_true]
          refine ⟨?_, reads⟩
          cases declares : directive.kind? with
          | none =>
              obtain rfl : [] = declared := by simpa [Directive.declared, declares] using made
              exact .undeclaring (by simp [declaredKind?, named, declares])
          | some kind =>
              obtain ⟨nonempty, each⟩ := declares_of_declared declares accepted made
              exact .declaration (by simp [declaredKind?, named, declares]) reads nonempty each
  · next rejected =>
      obtain ⟨operands, misuse⟩ := (harmless_append _ _).mp h
      obtain ⟨_, same, declares⟩ :=
        (Issue.severity_eq_nonCritical_iff _).mp ((harmless_singleton _ _).mp misuse)
      obtain rfl := Issue.directiveMisuse.inj same
      simp only [rejected]
      exact ⟨.undeclaring (by simp [declaredKind?, named, declares]),
        (reads_operandValues_iff _).mpr operands⟩

theorem kept_ofDirective {segment : Option SegmentName} {node : DirectiveNode}
    (h : Harmless (ofDirective segment node).findings) :
    Kept (.directive node) (ofDirective segment node).entries ∧ node.error = none ∧
      Reads node.operands (operandValues node.operands) := by
  simp only [ofDirective] at h ⊢
  split at h
  · simp [issue] at h
  · next unmarked =>
      split at h
      · next directive named =>
          have kept := kept_ofDeclaration named h
          exact ⟨kept.1, unmarked, kept.2⟩
      · simp [issue] at h
      · next named =>
          have kept := kept_ofDeclaration named h
          exact ⟨kept.1, unmarked, kept.2⟩
      · simp [issue] at h
      · simp [issue] at h

theorem kept_ofStatement {segment : Option SegmentName} {node : StatementNode}
    (h : Harmless (ofStatement segment node).findings) :
    Kept (.statement node) (ofStatement segment node).entries ∧ node.error = none ∧
      Reads node.operands (operandValues node.operands) := by
  simp only [ofStatement] at h ⊢
  split at h
  · simp [issue] at h
  · next unmarked =>
      split at h
      · simp [issue] at h
      · next inside =>
          rw [if_neg inside]
          split at h
          · simp [issue] at h
          · next instruction named =>
              obtain ⟨operands, shape⟩ := (harmless_append _ _).mp h
              have reads := (reads_operandValues_iff _).mpr operands
              refine ⟨.statement ⟨named, reads, rfl, ?_⟩, unmarked, reads⟩
              simp only [shapeFindings] at shape
              split at shape
              · simp at shape
              · split at shape
                · assumption
                · simp at shape

theorem kept_ofMarker {node : Marker} (h : Harmless (ofMarker node).findings) :
    (ofMarker node).entries = [] ∧ node.error = none ∧
      Reads node.operands (operandValues node.operands) := by
  simp only [ofMarker] at h ⊢
  split at h
  · simp [issue] at h
  · next unmarked =>
      cases given : node.operands with
      | none => exact ⟨rfl, unmarked, rfl⟩
      | some list =>
          simp only [given] at h
          exact ⟨rfl, unmarked, (reads_operandValues_iff _).mpr ((harmless_append _ _).mp h).1⟩

/-- An item without critical findings is kept whole. A label is read when it is declared. -/
theorem kept_ofItem {segment : Option SegmentName} {item : Item}
    (h : Harmless (ofItem segment item).findings) (unlabelled : ∀ node, item ≠ .label node) :
    Kept item (ofItem segment item).entries ∧ item.Unmarked := by
  cases item with
  | marker node =>
      obtain ⟨entries, unmarked, reads⟩ := kept_ofMarker h
      refine ⟨?_, ⟨by simp, unmarked, reads.error_eq_none⟩⟩
      simp only [ofItem, entries]
      exact .marker node
  | label node => exact absurd rfl (unlabelled node)
  | directive node =>
      obtain ⟨kept, unmarked, reads⟩ := kept_ofDirective h
      exact ⟨kept, ⟨by simp, unmarked, reads.error_eq_none⟩⟩
  | statement node =>
      obtain ⟨kept, unmarked, reads⟩ := kept_ofStatement h
      exact ⟨kept, ⟨by simp, unmarked, reads.error_eq_none⟩⟩
  | unknown node =>
      simp only [ofItem, ofUnknown] at h
      split at h <;> simp [issue] at h

end Reading

end Assembly

end Mips
