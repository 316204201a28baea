import Mips.Directive
import Mips.Source.Item
import Mips.Source.Value

/-!
What can be wrong with a source, as causes. The wording and the severity follow from the cause.
-/
namespace Mips.Assembly

/-- The label at which a program starts. -/
def entryLabel : String := "main"

inductive Construct
  | marker
  | label
  | directive
  | statement
  deriving DecidableEq, Repr

def Construct.name : Construct → String
  | marker => "segment directive"
  | label => "label"
  | directive => "directive"
  | statement => "statement"

inductive Issue
  | syntactic (construct : Construct) (reason : String)
  | operand (error : Source.OperandError)
  | markerMisuse (segment : Source.SegmentName)
  | directiveMisuse (directive : Directive)
  | unknownDirective (name : String)
  | directiveInText
  | directiveOutside
  | negativeSize (size : Int)
  | labelTaken (name : String)
  | entryOutsideText
  | statementOutsideText
  | unknownInstruction (mnemonic : String)
  | operandCount (mnemonic : String) (required : Nat)
  | operandKinds (mnemonic : String) (format : Format)
  | unrecognised (text : String)
  | unrecognisedAnywhere (text : String)
  | missingEntry
  | unboundLabels (names : List String)
  | undefinedLabel (name : String)
  deriving DecidableEq, Repr

namespace Issue

def message : Issue → String
  | syntactic construct reason => s!"parse error in {construct.name}: {reason}"
  | operand error => error.message
  | markerMisuse segment =>
      s!"invalid operand(s) to {segment.marker} directive. format: {segment.marker} ADDRESS?"
  | directiveMisuse directive => directive.misuseMessage
  | unknownDirective name =>
      s!"parse error in {Construct.directive.name}: unknown directive \"{name}\""
  | directiveInText => "only .globl directives should be placed inside the .text segment"
  | directiveOutside =>
      "Assembler directives should only be placed inside either the .data or .text segment"
  | negativeSize size => s!"negative size {size} for .space directive"
  | labelTaken name => s!"the label name: \"{name}\" is taken"
  | entryOutsideText => s!"The '{entryLabel}' label must be inside the .text segment"
  | statementOutsideText => "Statements should only be placed inside the .text segment"
  | unknownInstruction mnemonic => s!"Unknown instruction: \"{mnemonic}\""
  | operandCount mnemonic required =>
      s!"Wrong number of operands for {mnemonic} instruction ({required} required)"
  | operandKinds mnemonic format =>
      s!"Operands invalid for {mnemonic} instruction. Correct format: {format.text}"
  | unrecognised text => s!"unrecognised input: \"{text}\""
  | unrecognisedAnywhere text =>
      s!"unrecognised input with no position information: \"{text}\""
  | missingEntry => s!"The program has no '{entryLabel}' label"
  | unboundLabels names =>
      "These labels could not be assigned to addresses because the end of the program was " ++
        "reached: \"" ++ "\", \"".intercalate names ++ "\""
  | undefinedLabel name => s!"the label \"{name}\" is not defined"

def severity : Issue → Severity
  | directiveMisuse directive => directive.misuseSeverity
  | _ => .default

end Issue

/-- An issue and the construct it was found at. -/
structure Finding where
  issue : Issue
  span : Option Span := none
  deriving DecidableEq, Repr

def Finding.problem (f : Finding) : Problem :=
  { Problem.spanning f.issue.message f.span with severity := f.issue.severity }

end Mips.Assembly
