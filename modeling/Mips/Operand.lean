import Mips.Register
import Mips.Text.Visible

/-!
Operands of statements and directives, and the form in which they are printed.
-/
namespace Mips

/-- The entry of a segment that a label stands for. -/
inductive Target
  | text (index : Nat)
  | data (index : Nat)
  deriving DecidableEq, Repr

/-- An address is the sum of its parts; the target says where the label has been placed. -/
structure Address where
  label : Option String := none
  offset : Option Int := none
  base : Option Register := none
  target : Option Target := none
  deriving DecidableEq, Repr

namespace Address

def isLabelOnly (a : Address) : Bool :=
  a.label.isSome && a.offset.isNone && a.base.isNone

def isResolved (a : Address) : Bool :=
  a.label.isNone || a.target.isSome

/-- A number with its sign, which a nonnegative one has too. -/
def signed (n : Int) : String :=
  if 0 ≤ n then "+" ++ toString n else toString n

def text (a : Address) : String :=
  let displaced := match a.label, a.offset with
    | some label, some offset => label ++ signed offset
    | some label, none => label
    | none, some offset => toString offset
    | none, none => ""
  match a.base with
  | some base => displaced ++ "(" ++ base.text ++ ")"
  | none => displaced

end Address

/-- What an instruction asks of an operand. -/
inductive OperandKind
  | immediate
  | string
  | address
  | register
  deriving DecidableEq, Repr

namespace OperandKind

def all : List OperandKind :=
  [immediate, string, address, register]

def name : OperandKind → String
  | immediate => "IMMEDIATE"
  | string => "STRING"
  | address => "ADDRESS"
  | register => "REGISTER"

end OperandKind

inductive Operand
  | integer (value : Int)
  | string (value : String)
  | address (value : Address)
  | register (value : Register)
  deriving DecidableEq, Repr

namespace Operand

def kind : Operand → OperandKind
  | integer _ => .immediate
  | string _ => .string
  | address _ => .address
  | register _ => .register

def integer? : Operand → Option Int
  | integer value => some value
  | _ => none

def string? : Operand → Option String
  | string value => some value
  | _ => none

def address? : Operand → Option Address
  | address value => some value
  | _ => none

def register? : Operand → Option Register
  | register value => some value
  | _ => none

def text : Operand → String
  | integer value => toString value
  | string value => Text.quoted value
  | address value => value.text
  | register value => value.text

end Operand

end Mips
