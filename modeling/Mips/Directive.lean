import Mips.Problem
import Mips.Program

/-!
Directives inside a segment, the operands they take, and the variables they declare.
-/
namespace Mips

/-- The operands a directive takes. -/
inductive OperandRule
  | labels
  | oneInteger
  | oneString
  | integers
  deriving DecidableEq, Repr

namespace OperandRule

def accepts (rule : OperandRule) (operands : List Operand) : Bool :=
  match rule, operands with
  | labels, operands =>
      !operands.isEmpty && operands.all fun o => o.address?.any Address.isLabelOnly
  | oneInteger, [.integer _] => true
  | oneString, [.string _] => true
  | integers, operands => !operands.isEmpty && operands.all fun o => o.integer?.isSome
  | _, _ => false

def format : OperandRule → String
  | labels => "LABEL(, LABEL)*"
  | oneInteger => "INT"
  | oneString => "STRING"
  | integers => "INT(, INT)*"

end OperandRule

inductive Directive
  | globl
  | align
  | ascii
  | asciiz
  | byte
  | half
  | word
  | space
  deriving DecidableEq, Repr

namespace Directive

def all : List Directive :=
  [globl, align, ascii, asciiz, byte, half, word, space]

def name : Directive → String
  | globl => ".globl"
  | align => ".align"
  | ascii => ".ascii"
  | asciiz => ".asciiz"
  | byte => ".byte"
  | half => ".half"
  | word => ".word"
  | space => ".space"

/-- The name includes the dot; its case does not matter. -/
def ofName? (name : String) : Option Directive :=
  all.find? fun d => Text.sameName d.name name

def rule : Directive → OperandRule
  | globl => .labels
  | align | space => .oneInteger
  | ascii | asciiz => .oneString
  | byte | half | word => .integers

/-- The kind of the declared variables; `.globl` and `.align` declare none. -/
def kind? : Directive → Option VariableKind
  | globl | align => none
  | ascii => some .ascii
  | asciiz => some .asciiz
  | byte => some .byte
  | half => some .half
  | word => some .word
  | space => some .space

/-- A program can still be run after the misuse of a directive that declares nothing. -/
def misuseSeverity (d : Directive) : Severity :=
  if d.kind?.isSome then .critical else .nonCritical

def misuseMessage (d : Directive) : String :=
  s!"invalid operand(s) to {d.name} directive. format: {d.name} {d.rule.format}"

/-- The variables that a directive declares with operands that its rule accepts; a size below
zero is returned instead. -/
def declared (directive : Directive) (operands : List Operand) (line : Option Nat) :
    Except Int (List Variable) :=
  match directive.kind?, operands with
  | none, _ => .ok []
  | some kind, operands =>
      match kind, operands with
      | .ascii, [.string text] =>
          .ok [⟨kind, text.utf8ByteSize, some (.string text), line⟩]
      | .asciiz, [.string text] =>
          let text := text.push '\x00'
          .ok [⟨kind, text.utf8ByteSize, some (.string text), line⟩]
      | .space, [.integer size] =>
          if size < 0 then .error size else .ok [⟨kind, size.toNat, none, line⟩]
      | .byte, operands | .half, operands | .word, operands =>
          .ok (operands.map fun o => ⟨kind, kind.alignment, some o, line⟩)
      | _, _ => .ok []

end Directive

end Mips
