import Mips.Machine.Event
import Mips.Machine.Memory
import Mips.Machine.RegisterFile

/-!
The load/store unit and the two units it serves. Every value that moves between registers,
memory, instruction register and control unit passes through the transport slot; a transfer is
announced when it is complete.
-/
namespace Mips.Machine

/-- The word that is being decoded, and the statement it selects. -/
structure InstructionRegister where
  word : Word := 0
  decoded : Option Nat := none
  deriving DecidableEq, Repr

/-- A new word is not decoded yet. -/
def InstructionRegister.load (word : Word) : InstructionRegister where
  word := word

/-- The program counter, and the slot that the load/store unit delivers into. -/
structure ControlUnit where
  pc : Word := 0
  data : Word := 0
  deriving DecidableEq, Repr

namespace ControlUnit

def advance (c : ControlUnit) : ControlUnit :=
  { c with pc := c.pc + 4 }

/-- Makes the program counter ready for transport. -/
def stage (c : ControlUnit) : ControlUnit :=
  { c with data := c.pc }

def jump (c : ControlUnit) : ControlUnit :=
  { c with pc := c.data }

end ControlUnit

structure Bus where
  slot : Word := 0
  registers : RegisterFile := {}
  memory : Memory
  channel : Channel := {}
  /-- The cycle that announcements are stamped with. -/
  cycle : Nat := 0

namespace Bus

def publish (b : Bus) (component : Component) : Bus :=
  { b with channel := b.channel.emit ⟨component, b.cycle⟩ }

/-- Takes a word into the transport slot. -/
def carry (b : Bus) (word : Word) : Bus :=
  { b with slot := word }.publish .loadStoreUnit

def receiveInstruction (b : Bus) (ir : InstructionRegister) : Bus :=
  b.carry ir.word

def receiveControl (b : Bus) (cu : ControlUnit) : Bus :=
  b.carry cu.data

/-- Delivers the transport slot to the instruction register. -/
def sendInstruction (b : Bus) : InstructionRegister × Bus :=
  (.load b.slot, b.publish .instructionRegister)

/-- Delivers the transport slot to the control unit. -/
def sendControl (b : Bus) (cu : ControlUnit) : ControlUnit × Bus :=
  ({ cu with data := b.slot }, b.publish .controlUnit)

def readRegister (b : Bus) (r : Register) : Word × Bus :=
  let b := b.carry (b.registers.get r)
  (b.slot, b)

def writeRegister (b : Bus) (r : Register) (value : Word) : Bus :=
  { b with registers := b.registers.set r value }.publish .registers

def readMemory (b : Bus) (address : Word) (length : Nat) (signed : Bool) :
    Except Fault Word × Bus :=
  let read := if signed then b.memory.read address length
    else b.memory.readUnsigned address length
  match read with
  | .ok word => (.ok word, b.carry word)
  | .error fault => (.error fault, b)

/-- Stores the low bytes of a word. The slot holds the word even when the access faults. -/
def writeMemory (b : Bus) (address value : Word) (length : Nat) : Except Fault Unit × Bus :=
  let b := { b with slot := value }
  match b.memory.write address (value.lowBytes length) with
  | .ok memory => (.ok (), { b with memory }.publish .memory)
  | .error fault => (.error fault, b)

end Bus

end Mips.Machine
