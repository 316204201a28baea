import Mips.Word

/-!
The fixed settings of a machine.
-/
namespace Mips.Machine

structure Config where
  clockMicroseconds : Nat := 100000
  memorySize : Word := 0x100000
  textBase : Word := 0x400000
  dataBase : Word := 0x10010000
  deriving DecidableEq, Repr

/-- The address after the last byte of memory, or the last address if there is none. -/
def Config.memoryEnd (c : Config) : Word :=
  BitVec.ofNat 32 (min (c.dataBase.toNat + c.memorySize.toNat) 0xFFFFFFFF)

end Mips.Machine
