import Mips.Operand
import Mips.Text.Case

/-!
The instruction set: mnemonics, and the operands that each instruction takes. A format lists the
combinations of operand kinds that are accepted.
-/
namespace Mips

structure Format where
  arity : Nat
  combinations : List (List OperandKind)
  deriving DecidableEq, Repr

namespace Format

open OperandKind

def nothing : Format := ⟨0, [[]]⟩
def destSourceSource : Format := ⟨3, [[register, register, register]]⟩
def destSourceImmediate : Format := ⟨3, [[register, register, immediate]]⟩
def destSourceValue : Format :=
  ⟨3, [[register, register, register], [register, register, immediate]]⟩
def destSource : Format := ⟨2, [[register, register]]⟩
def destImmediate : Format := ⟨2, [[register, immediate]]⟩
def registerAddress : Format := ⟨2, [[register, address]]⟩
def comparison : Format :=
  ⟨3, [[register, register, address], [register, immediate, address]]⟩
def target : Format := ⟨1, [[address]]⟩
def source : Format := ⟨1, [[register]]⟩

def accepts (f : Format) (kinds : List OperandKind) : Bool :=
  f.combinations.contains kinds

def text (f : Format) : String :=
  if f.arity = 0 then "(no operands)"
  else " | ".intercalate
    (f.combinations.map fun kinds => ", ".intercalate (kinds.map OperandKind.name))

end Format

inductive Instruction
  | nop | syscall
  | add | addu | sub | subu | and | or | xor | nor | slt | sltu | mul
  | addi | addiu | andi | ori | xori | slti | sll | srl | sra
  | li | lui | la | move
  | lw | lh | lb | lbu | sw | sh | sb
  | beq | bne | blt | bgt | ble | bge | beqz | bnez
  | j | b | jal | jr
  deriving DecidableEq, Repr

namespace Instruction

def all : List Instruction :=
  [nop, syscall, add, addu, sub, subu, and, or, xor, nor, slt, sltu, mul, addi, addiu, andi, ori,
    xori, slti, sll, srl, sra, li, lui, la, move, lw, lh, lb, lbu, sw, sh, sb, beq, bne, blt, bgt,
    ble, bge, beqz, bnez, j, b, jal, jr]

def mnemonic : Instruction → String
  | nop => "nop"
  | syscall => "syscall"
  | add => "add"
  | addu => "addu"
  | sub => "sub"
  | subu => "subu"
  | and => "and"
  | or => "or"
  | xor => "xor"
  | nor => "nor"
  | slt => "slt"
  | sltu => "sltu"
  | mul => "mul"
  | addi => "addi"
  | addiu => "addiu"
  | andi => "andi"
  | ori => "ori"
  | xori => "xori"
  | slti => "slti"
  | sll => "sll"
  | srl => "srl"
  | sra => "sra"
  | li => "li"
  | lui => "lui"
  | la => "la"
  | move => "move"
  | lw => "lw"
  | lh => "lh"
  | lb => "lb"
  | lbu => "lbu"
  | sw => "sw"
  | sh => "sh"
  | sb => "sb"
  | beq => "beq"
  | bne => "bne"
  | blt => "blt"
  | bgt => "bgt"
  | ble => "ble"
  | bge => "bge"
  | beqz => "beqz"
  | bnez => "bnez"
  | j => "j"
  | b => "b"
  | jal => "jal"
  | jr => "jr"

/-- The case of a mnemonic does not matter. -/
def ofMnemonic? (name : String) : Option Instruction :=
  all.find? fun i => Text.sameName i.mnemonic name

def format : Instruction → Format
  | nop | syscall => .nothing
  | add | addu | sub | subu | and | or | xor | slt | sltu | mul => .destSourceValue
  | nor => .destSourceSource
  | addi | addiu | andi | ori | xori | slti | sll | srl | sra => .destSourceImmediate
  | li | lui => .destImmediate
  | move => .destSource
  | la | lw | lh | lb | lbu | sw | sh | sb => .registerAddress
  | beq | bne | blt | bgt | ble | bge => .comparison
  | beqz | bnez => .registerAddress
  | j | b | jal => .target
  | jr => .source

end Instruction

end Mips
