import Mips.Source.Operand
import Mips.Text.Case

/-!
The items of a source in document order: segment markers, labels, directives, statements and
text that is none of these. Each line holds any number of labels and then at most one other
item. Reading never fails; what is wrong with an item is kept in it.
-/
namespace Mips.Source

inductive SegmentName
  | data
  | text
  deriving DecidableEq, Repr

namespace SegmentName

def name : SegmentName → String
  | data => "data"
  | text => "text"

/-- The directive that opens the segment. -/
def marker (s : SegmentName) : String :=
  "." ++ s.name

end SegmentName

structure Marker where
  segment : SegmentName
  text : String
  span : Option Span := none
  operands : Option OperandList := none
  error : Option String := none
  deriving DecidableEq, Repr

structure LabelNode where
  name : String
  span : Option Span := none
  error : Option String := none
  deriving DecidableEq, Repr

structure DirectiveNode where
  name : String
  span : Option Span := none
  operands : Option OperandList := none
  error : Option String := none
  deriving DecidableEq, Repr

structure StatementNode where
  mnemonic : String
  mnemonicSpan : Option Span := none
  span : Option Span := none
  operands : Option OperandList := none
  error : Option String := none
  deriving DecidableEq, Repr

structure UnknownNode where
  text : String
  span : Option Span := none
  deriving DecidableEq, Repr

inductive Item
  | marker (node : Marker)
  | label (node : LabelNode)
  | directive (node : DirectiveNode)
  | statement (node : StatementNode)
  | unknown (node : UnknownNode)
  deriving DecidableEq, Repr

/-- A character that cannot stand in the name of a label, good or bad. -/
def endsLabel (c : Char) : Bool :=
  Text.isBlank c || [':', ',', '"', '\'', '(', ')'].contains c

/-- The label at the start of a fragment, and what follows its colon. -/
def LabelNode.ofFragment? (f : Fragment) : Option (LabelNode × Fragment) :=
  let name := f.takeWhile fun c => !endsLabel c
  match name.text, (f.dropWhile fun c => !endsLabel c).text with
  | _ :: _, ':' :: _ =>
      let length := name.text.length + 1
      some ({
        name := name.string
        span := (f.take length).span
        error := if isLabel name.text then none else some (invalidLabelMessage name.string) },
        (f.drop length).trimStart)
  | _, _ => none

theorem LabelNode.ofFragment?_shorter {f rest : Fragment} {label : LabelNode}
    (h : LabelNode.ofFragment? f = some (label, rest)) : rest.text.length < f.text.length := by
  simp only [LabelNode.ofFragment?] at h
  split at h
  · next c cs d ds named colon =>
      simp only [Option.some.injEq, Prod.mk.injEq] at h
      rw [← h.2]
      have dropped := (List.dropWhile_sublist Text.isBlank
        (l := f.text.drop ((f.takeWhile fun c => !endsLabel c).text.length + 1))).length_le
      have whole := congrArg List.length (f.takeWhile_append_dropWhile fun c => !endsLabel c)
      simp only [List.length_append, colon, List.length_cons] at whole
      simp only [List.length_drop] at dropped
      simp only [Fragment.trimStart, Fragment.dropWhile, Fragment.drop]
      omega
  · simp at h

/-- The labels at the start of a fragment, and what follows them. -/
def labels (f : Fragment) : List LabelNode × Fragment :=
  match _found : LabelNode.ofFragment? f with
  | none => ([], f)
  | some (label, rest) =>
      let (more, body) := labels rest
      (label :: more, body)
termination_by f.text.length
decreasing_by exact LabelNode.ofFragment?_shorter _found

namespace Item

def ofDirective (f head : Fragment) (operands : Option OperandList) : Item :=
  let error := if head.text.length = 1 then some "missing directive name" else none
  let marker (segment : SegmentName) : Item :=
    .marker { segment, text := head.string, span := f.span, operands, error }
  match [SegmentName.data, .text].find? fun s => Text.sameName s.marker head.string with
  | some segment => marker segment
  | none => .directive { name := head.string, span := f.span, operands, error }

/-- The item after the labels of a line, which is trimmed and may be empty. -/
def ofBody? (f : Fragment) : Option Item :=
  if f.text.isEmpty then none
  else
    let head := f.takeWhile fun c => !Text.isBlank c
    let operands := OperandList.ofFragment?
      (f.dropWhile fun c => !Text.isBlank c).trimStart
    if head.text.head? = some '.' then some (ofDirective f head operands)
    else if isLabel head.text then
      some (.statement {
        mnemonic := head.string
        mnemonicSpan := head.span
        span := f.span
        operands })
    else some (.unknown { text := f.string, span := f.span })

/-- The items of a line, given without its newline. -/
def ofLine (line : Fragment) : List Item :=
  let code := { line with text := Text.Quotation.outside.uncommented line.text }
  let (named, body) := labels code.trim
  named.map .label ++ (ofBody? body).toList

end Item

/-- A carriage return before a newline is not part of the line. -/
def withoutReturn (line : List Char) : List Char :=
  if line.getLast? = some '\r' then line.dropLast else line

/-- The items of consecutive lines, of which the first has a given number and offset. -/
def itemsFrom : Nat → Nat → List (List Char) → List Item
  | _, _, [] => []
  | number, start, line :: more =>
      Item.ofLine ⟨number, start, withoutReturn line⟩ ++
        itemsFrom (number + 1) (start + Text.utf8Length line + 1) more

/-- The items of a source. -/
def items (source : String) : List Item :=
  itemsFrom 1 0 (Text.lines source.toList)

end Mips.Source
