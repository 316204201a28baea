import Mips.Program

/-!
Linking: every label of an address operand in the text is given its target. A label that is
bound nowhere keeps the target it had and is reported at the line of its statement.
-/
namespace Mips

/-- A use of a label that is bound nowhere. -/
structure UndefinedLabel where
  name : String
  line : Option Nat
  deriving DecidableEq, Repr

def Operand.link (find : String → Option Target) : Operand → Operand
  | .address a => .address { a with target := (a.label.bind find).or a.target }
  | operand => operand

/-- The label of an address that has one without a place. -/
def Operand.undefinedLabel? (find : String → Option Target) : Operand → Option String
  | .address a => a.label.filter fun name => (find name).isNone
  | _ => none

def Statement.link (find : String → Option Target) (s : Statement) : Statement :=
  { s with operands := s.operands.map (Operand.link find) }

def Statement.undefinedLabels (find : String → Option Target) (s : Statement) :
    List UndefinedLabel :=
  (s.operands.filterMap (Operand.undefinedLabel? find)).map fun name => ⟨name, s.line⟩

namespace Program

/-- The place of a label; a name bound in both segments stands for its variable. -/
def place? (p : Program) (name : String) : Option Target :=
  ((p.data.labelIndex? name).map .data).or ((p.text.labelIndex? name).map .text)

def link (p : Program) : Program :=
  { p with text := { p.text with entries := p.text.entries.map (Statement.link p.place?) } }

def undefinedLabels (p : Program) : List UndefinedLabel :=
  p.text.entries.toList.flatMap (Statement.undefinedLabels p.place?)

end Program

end Mips
