import Mips.Text.Pieces

/-!
The quoting state of a source line. A string or character literal runs from its quote to the
next quote of the same kind that no backslash protects. Comments start and operands are
separated outside literals only, so both are read through the same state.
-/
namespace Mips.Text

inductive Quotation
  | outside
  | inside (delimiter : Char)
  | escaped (delimiter : Char)
  deriving DecidableEq, Repr

namespace Quotation

def next : Quotation → Char → Quotation
  | outside, c => if c = '"' ∨ c = '\'' then inside c else outside
  | inside d, c => if c = '\\' then escaped d else if c = d then outside else inside d
  | escaped d, _ => inside d

/-- The state after a text. -/
def after (q : Quotation) (text : List Char) : Quotation :=
  text.foldl next q

/-- The text up to the first `#` that stands outside a literal. -/
def uncommented : Quotation → List Char → List Char
  | _, [] => []
  | q, c :: rest => if q = outside ∧ c = '#' then [] else c :: uncommented (q.next c) rest

end Quotation

/-- Where a scan of operands stands: in which literal, and how deep in parentheses. -/
structure OperandScan where
  quotation : Quotation := .outside
  depth : Nat := 0
  deriving DecidableEq, Repr

namespace OperandScan

def next (s : OperandScan) (c : Char) : OperandScan where
  quotation := s.quotation.next c
  depth :=
    if s.quotation ≠ .outside then s.depth
    else if c = '(' then s.depth + 1
    else if c = ')' then s.depth - 1
    else s.depth

/-- A comma separates operands outside literals and parentheses. -/
def separates (s : OperandScan) (c : Char) : Bool :=
  s.quotation = .outside ∧ s.depth = 0 ∧ c = ','

end OperandScan

def operandPieces (text : List Char) : List (List Char) :=
  pieces OperandScan.separates OperandScan.next {} text

end Mips.Text
