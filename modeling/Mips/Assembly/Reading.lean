import Mips.Assembly.Issue

/-!
What an item says, read by itself. It depends on the open segment and on the item alone: the
entries that the item adds to the program, and what is wrong with it. Labels add no entry, so
their reading is empty here.
-/
namespace Mips.Assembly

open Source

structure Reading where
  findings : List Finding := []
  entries : List Entry := []
  deriving DecidableEq, Repr

/-- A reading that only reports. -/
def Reading.issue (issue : Issue) (span : Option Span) : Reading :=
  { findings := [⟨issue, span⟩] }

/-- The operands of a list that have a value, in order. -/
def operandValues (list : Option OperandList) : List Operand :=
  (list.elim [] OperandList.operands).filterMap fun node => node.value.toOption

/-- One finding for each operand of a list that has no value. -/
def operandFindings (list : Option OperandList) : List Finding :=
  (list.elim [] OperandList.operands).filterMap fun node =>
    match node.value with
    | .ok _ => none
    | .error e => some ⟨.operand e, node.span⟩

/-- The place of a list, or of the whole construct when the list has none. -/
def listSpan (list : Option OperandList) (whole : Option Span) : Option Span :=
  (list.bind OperandList.span).or whole

namespace Reading

/-- A directive in a segment where it may stand. -/
def ofDeclaration (directive : Directive) (node : DirectiveNode) : Reading :=
  let operands := operandValues node.operands
  let findings := operandFindings node.operands
  let place := listSpan node.operands node.span
  if directive.rule.accepts operands then
    match directive.declared operands (node.span.map Span.line) with
    | .ok declared => { findings, entries := declared.map .variable }
    | .error size => { findings := findings ++ [⟨.negativeSize size, place⟩] }
  else
    let place := if directive.kind?.isSome then place else node.span
    { findings := findings ++ [⟨.directiveMisuse directive, place⟩] }

def ofDirective (segment : Option SegmentName) (node : DirectiveNode) : Reading :=
  match node.error with
  | some reason => issue (.syntactic .directive reason) node.span
  | none =>
      match segment, Directive.ofName? node.name with
      | some .data, some directive => ofDeclaration directive node
      | some .data, none => issue (.unknownDirective node.name) node.span
      | some .text, some .globl => ofDeclaration .globl node
      | some .text, _ => issue .directiveInText node.span
      | none, _ => issue .directiveOutside node.span

/-- What is wrong with the number or the kinds of a statement's operands. -/
def shapeFindings (instruction : Instruction) (node : StatementNode) (operands : List Operand) :
    List Finding :=
  let place := listSpan node.operands node.span
  if operands.length ≠ instruction.format.arity then
    [⟨.operandCount node.mnemonic instruction.format.arity, place⟩]
  else if instruction.format.accepts (operands.map Operand.kind) then []
  else [⟨.operandKinds node.mnemonic instruction.format, place⟩]

def ofStatement (segment : Option SegmentName) (node : StatementNode) : Reading :=
  match node.error with
  | some reason => issue (.syntactic .statement reason) node.span
  | none =>
      if segment ≠ some .text then issue .statementOutsideText node.span
      else match Instruction.ofMnemonic? node.mnemonic with
        | none => issue (.unknownInstruction node.mnemonic) (node.mnemonicSpan.or node.span)
        | some instruction =>
            let operands := operandValues node.operands
            { findings :=
                operandFindings node.operands ++ shapeFindings instruction node operands
              entries := [.statement ⟨instruction, operands, node.span.map Span.line⟩] }

/-- A segment marker may give the address of the segment; the address has no effect. -/
def ofMarker (node : Marker) : Reading :=
  match node.error with
  | some reason => issue (.syntactic .marker reason) node.span
  | none =>
      match node.operands with
      | none => {}
      | some list =>
          let valid := match operandValues list with
            | [.integer address] => decide (0 < address)
            | _ => false
          { findings := operandFindings list ++
              if valid then [] else [⟨.markerMisuse node.segment, node.span⟩] }

def ofUnknown (node : UnknownNode) : Reading :=
  match node.span with
  | some _ => issue (.unrecognised node.text) node.span
  | none => issue (.unrecognisedAnywhere node.text) node.span

/-- The reading of an item in a segment, which is none before the first marker. -/
def ofItem (segment : Option SegmentName) : Item → Reading
  | .marker node => ofMarker node
  | .label _ => {}
  | .directive node => ofDirective segment node
  | .statement node => ofStatement segment node
  | .unknown node => ofUnknown node

end Reading

end Mips.Assembly
