import Mips.Fragment
import Mips.Text.Quotation

/-!
Operands as they stand in the source. An operand is recognised by its shape alone; whether its
numbers and registers exist is decided when its value is taken. An operand of no known shape is
kept with the reason.
-/
namespace Mips.Source

/-- The shape of an operand and the pieces of text it is made of. -/
inductive Form
  | integer (text : String)
  | string (text : String)
  | register (text : String)
  | address (label offset base : Option String)
  | unrecognised
  deriving DecidableEq, Repr

inductive FormError
  | missing
  | unterminatedString
  | unclosedBase
  | invalidLabel (name : String)
  | unrecognised (text : String)
  deriving DecidableEq, Repr

/-- What is wrong with a label is said in the same words wherever it stands. -/
def invalidLabelMessage (name : String) : String :=
  s!"invalid label name \"{name}\""

def FormError.message : FormError → String
  | missing => "missing operand"
  | unterminatedString => "unterminated string literal"
  | unclosedBase => "expected ')' after base register"
  | invalidLabel name => invalidLabelMessage name
  | unrecognised text => s!"unrecognised operand \"{text}\""

structure OperandNode where
  form : Form
  text : String
  span : Option Span := none
  error : Option String := none
  deriving DecidableEq, Repr

structure OperandList where
  operands : List OperandNode
  span : Option Span := none
  deriving DecidableEq, Repr

/-- A letter or an underscore, then letters, digits, underscores and dots. -/
def isLabel : List Char → Bool
  | [] => false
  | first :: rest =>
      (first.isAlpha || first = '_') && rest.all fun c => c.isAlphanum || c = '_' || c = '.'

def isSign (c : Char) : Bool :=
  c = '+' || c = '-'

def startsNumeric (text : List Char) : Bool :=
  let digits := match text with
    | c :: rest => if isSign c then rest else text
    | [] => []
  digits.head?.any Char.isDigit

/-- A label and the signed offset after it, if a sign occurs. -/
def splitOffset (text : List Char) : List Char × Option (List Char) :=
  match text.dropWhile fun c => !isSign c with
  | [] => (text, none)
  | offset => (Text.trimEnd (text.takeWhile fun c => !isSign c), some (Text.trim offset))

/-- A label with or without an offset. -/
def labelForm? (text : List Char) (base : Option String) : Except FormError Form :=
  let (label, offset) := splitOffset text
  if isLabel label then
    .ok (.address (some (String.ofList label)) (offset.map String.ofList) base)
  else .error (.invalidLabel (String.ofList label))

/-- The text between the quotes of a string literal, given what follows the opening quote. A
single backslash at the end protects the closing quote. -/
def stringBody? (text : List Char) : Option (List Char) :=
  match text.reverse with
  | '"' :: '\\' :: '\\' :: _ => some text.dropLast
  | '"' :: '\\' :: _ => none
  | '"' :: _ => some text.dropLast
  | _ => none

/-- An address with a base register, cut at its first parenthesis. -/
def basedForm (before after : List Char) : Except FormError Form :=
  match after.reverse with
  | ')' :: inner =>
      let base := some (String.ofList (Text.trim inner.reverse))
      let displacement := Text.trim before
      if displacement.isEmpty then .ok (.address none none base)
      else if startsNumeric displacement then
        .ok (.address none (some (String.ofList displacement)) base)
      else labelForm? displacement base
  | _ => .error .unclosedBase

/-- Recognises the shape of an operand that has been trimmed. -/
def Form.ofText (text : List Char) : Except FormError Form :=
  match text with
  | [] => .error .missing
  | '"' :: rest =>
      match stringBody? rest with
      | some body => .ok (.string (String.ofList body))
      | none => .error .unterminatedString
  | '\'' :: _ => .ok (.integer (String.ofList text))
  | '$' :: _ => .ok (.register (String.ofList text))
  | _ =>
      match text.dropWhile fun c => c ≠ '(' with
      | _ :: after => basedForm (text.takeWhile fun c => c ≠ '(') after
      | [] =>
          if startsNumeric text then .ok (.integer (String.ofList text))
          else match labelForm? text none with
            | .ok form => .ok form
            | .error _ => .error (.unrecognised (String.ofList text))

namespace OperandNode

/-- The operand in a piece between commas. An operand that is missing is placed at the first byte
of its piece. -/
def ofPiece (piece : Fragment) : OperandNode :=
  let operand := piece.trim
  let span := operand.span.getD ⟨piece.line, piece.start, piece.start⟩
  match Form.ofText operand.text with
  | .ok form => { form, text := operand.string, span }
  | .error e =>
      { form := .unrecognised, text := operand.string, span, error := some e.message }

end OperandNode

/-- The operands after a head; none at all if nothing follows it. -/
def OperandList.ofFragment? (f : Fragment) : Option OperandList :=
  if f.text.isEmpty then none
  else some {
    operands := (Fragment.spread f.line f.start (Text.operandPieces f.text)).map
      OperandNode.ofPiece
    span := f.span }

end Mips.Source
