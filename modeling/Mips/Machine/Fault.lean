import Mips.Program
import Mips.Problem
import Mips.Word

/-!
The faults that end a run, as causes. A fault is reported as a problem at the line of the
statement that raised it, if that is known.
-/
namespace Mips.Machine

inductive Fault
  | memoryOutOfRange (address : Word) (length : Nat)
  | unresolvedLabel (name : String)
  | invalidProgramCounter (pc : Word)
  | malformedStatement (mnemonic : String)
  | arithmeticOverflow
  | unsupportedSyscall (service : Word)
  | dataSegmentTooLarge (required capacity : Nat)
  | invalidProgram (error : ProgramError)
  deriving DecidableEq, Repr

namespace Fault

def message : Fault → String
  | memoryOutOfRange address length =>
      s!"memory access of {length} byte(s) at 0x{address.paddedHex} is out of range"
  | unresolvedLabel name => s!"label '{name}' could not be resolved"
  | invalidProgramCounter pc =>
      s!"program counter 0x{pc.paddedHex} does not address a statement"
  | malformedStatement mnemonic => s!"malformed operands for '{mnemonic}'"
  | arithmeticOverflow => "arithmetic overflow"
  | unsupportedSyscall service => s!"unsupported syscall service {service.toInt}"
  | dataSegmentTooLarge required capacity =>
      s!"data segment needs {required} bytes but memory holds {capacity}"
  | invalidProgram error => s!"invalid program: {error.message}"

def problem (fault : Fault) (line : Option Nat) : Problem :=
  Problem.atLine s!"runtime fault: {fault.message}" line

end Fault

end Mips.Machine
