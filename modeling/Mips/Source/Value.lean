import Mips.Operand
import Mips.Source.Operand
import Mips.Text.Numeral

/-!
The value of an operand that stands in the source. Only its own text decides; labels are left
without a target.
-/
namespace Mips.Source

inductive OperandError
  | malformed (text reason : String)
  | unrecognised (text : String)
  | integer (text : String) (error : Text.IntegerError)
  | string (error : Text.EscapeError)
  | registerWithoutSign (text : String)
  | unknownRegister (text : String)
  deriving DecidableEq, Repr

def OperandError.message : OperandError → String
  | malformed text reason => s!"malformed operand \"{text}\": {reason}"
  | unrecognised text => s!"unrecognised operand \"{text}\""
  | integer text error => error.message text
  | string error => error.message
  | registerWithoutSign text => s!"invalid register \"{text}\": expected '$'"
  | unknownRegister text => s!"invalid register \"{text}\""

def integerValue (text : String) : Except OperandError Int :=
  (Text.integer text.toList).mapError (.integer text)

def stringValue (text : String) : Except OperandError String :=
  ((Text.unescape text.toList).map String.ofList).mapError .string

def registerValue (text : String) : Except OperandError Register :=
  if text.toList.head? = some '$' then
    match Register.ofName? text with
    | some r => .ok r
    | none => .error (.unknownRegister text)
  else .error (.registerWithoutSign text)

/-- The value of a piece of text that may be absent. -/
def valueIfPresent {α : Type} (value : String → Except OperandError α) :
    Option String → Except OperandError (Option α)
  | none => .ok none
  | some text => (value text).map some

def Form.value (text : String) : Form → Except OperandError Operand
  | integer number => (integerValue number).map .integer
  | string body => (stringValue body).map .string
  | register name => (registerValue name).map .register
  | address label offset base => do
      let offset ← valueIfPresent integerValue offset
      let base ← valueIfPresent registerValue base
      return .address { label, offset, base }
  | unrecognised => .error (.unrecognised text)

def OperandNode.value (node : OperandNode) : Except OperandError Operand :=
  match node.error with
  | some reason => .error (.malformed node.text reason)
  | none => node.form.value node.text

end Mips.Source
