import Mips.Instruction
import Mips.Word

/-!
What each instruction does. The instruction set falls into a few classes; within a class the
instructions differ in a function on words or in a width.
-/
namespace Mips.Machine

inductive Behaviour
  | nothing
  | service
  /-- Combines a register and a value; no result means overflow. -/
  | arithmetic (result : Word → Word → Option Word)
  | immediate (result : Word → Word)
  | loadAddress
  | copy
  | load (width : Nat) (signed : Bool)
  | store (width : Nat)
  | branch (taken : Word → Word → Bool)
  | jump (links : Bool)
  | jumpRegister

/-- The word of a truth value. -/
def flag (condition : Bool) : Word :=
  if condition then 1 else 0

/-- Shifts go by the low five bits of their amount. -/
def shiftAmount (w : Word) : Nat :=
  w.toNat % 32

open Behaviour in
def behaviour : Instruction → Behaviour
  | .nop => nothing
  | .syscall => service
  | .add | .addi => arithmetic Word.addChecked?
  | .sub => arithmetic Word.subChecked?
  | .addu | .addiu => arithmetic fun a b => some (a + b)
  | .subu => arithmetic fun a b => some (a - b)
  | .mul => arithmetic fun a b => some (a * b)
  | .and | .andi => arithmetic fun a b => some (a &&& b)
  | .or | .ori => arithmetic fun a b => some (a ||| b)
  | .xor | .xori => arithmetic fun a b => some (a ^^^ b)
  | .nor => arithmetic fun a b => some (~~~(a ||| b))
  | .slt | .slti => arithmetic fun a b => some (flag (a.slt b))
  | .sltu => arithmetic fun a b => some (flag (a.ult b))
  | .sll => arithmetic fun a b => some (a <<< shiftAmount b)
  | .srl => arithmetic fun a b => some (a >>> shiftAmount b)
  | .sra => arithmetic fun a b => some (a.sshiftRight (shiftAmount b))
  | .li => immediate id
  | .lui => immediate fun value => value <<< 16
  | .la => loadAddress
  | .move => copy
  | .lw => load 4 true
  | .lh => load 2 true
  | .lb => load 1 true
  | .lbu => load 1 false
  | .sw => store 4
  | .sh => store 2
  | .sb => store 1
  | .beq | .beqz => branch fun a b => a == b
  | .bne | .bnez => branch fun a b => a != b
  | .blt => branch fun a b => a.slt b
  | .bgt => branch fun a b => b.slt a
  | .ble => branch fun a b => a.sle b
  | .bge => branch fun a b => b.sle a
  | .j | .b => jump false
  | .jal => jump true
  | .jr => jumpRegister

end Mips.Machine
