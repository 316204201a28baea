import Mips.Machine.Bus
import Mips.Machine.Layout

/-!
The state of a machine with a loaded program, and what an observer sees of it.
-/
namespace Mips.Machine

/-- Why a run ended without a fault. -/
inductive HaltReason
  | exit
  | endOfProgram
  | stopped
  deriving DecidableEq, Repr

inductive RunState
  | running
  | halted (reason : HaltReason)
  | faulted (fault : Fault)
  deriving DecidableEq, Repr

/-- The result of one instruction cycle. -/
inductive Outcome
  | retired
  | halted (reason : HaltReason)
  | faulted (fault : Fault)
  deriving DecidableEq, Repr

structure State where
  program : Program
  config : Config
  layout : Layout
  bus : Bus
  instruction : InstructionRegister := {}
  control : ControlUnit := {}
  console : String := ""
  run : RunState := .running
  cycles : Nat := 0
  problems : Problems := []

structure Snapshot where
  pc : Word
  registers : RegisterFile
  instruction : Word
  decoded : Option Nat
  transport : Word
  cycles : Nat
  run : RunState
  deriving DecidableEq, Repr

structure Report where
  snapshot : Snapshot
  console : String
  problems : Problems
  deriving DecidableEq, Repr

namespace State

/-- The statement at `main`, or else the first. -/
def entryIndex (p : Program) : Nat :=
  (p.text.labelIndex? "main").getD 0

/-- The stack pointer starts at the last multiple of four up to the end of memory, the global
pointer at the first data byte. -/
def initialRegisters (c : Config) : RegisterFile :=
  (({} : RegisterFile).set .sp (c.memoryEnd &&& ~~~3)).set .gp c.dataBase

/-- A machine that is ready to run a program. -/
def load (program : Program) (config : Config) : Except Fault State :=
  match program.validate with
  | .error e => .error (.invalidProgram e)
  | .ok () =>
      match Layout.plan program config with
      | .error fault => .error fault
      | .ok layout =>
          match layout.load program { base := config.dataBase, size := config.memorySize } with
          | (.error fault, _) => .error fault
          | (.ok (), memory) => .ok {
              program, config, layout
              bus := { registers := initialRegisters config, memory }
              control := { pc := layout.textAddress (entryIndex program) } }

/-- Attaches a new observer in place of any other. -/
def listen (s : State) : State :=
  { s with bus := { s.bus with channel := .connected } }

def mapChannel (f : Channel → Channel) (s : State) : State :=
  { s with bus := { s.bus with channel := f s.bus.channel } }

/-- Loads the program again; the observer stays attached. -/
def reset (s : State) : Except Fault State :=
  (load s.program s.config).map (mapChannel fun _ => s.bus.channel)

def snapshot (s : State) : Snapshot where
  pc := s.control.pc
  registers := s.bus.registers
  instruction := s.instruction.word
  decoded := s.instruction.decoded
  transport := s.bus.slot
  cycles := s.cycles
  run := s.run

def report (s : State) : Report where
  snapshot := s.snapshot
  console := s.console
  problems := s.problems

/-- Reads memory without the bus. -/
def peek (s : State) (address : Word) (length : Nat) : Except Fault Word :=
  s.bus.memory.read address length

/-- The address of a variable by its label. -/
def dataAddress? (s : State) (name : String) : Option Word :=
  (s.program.data.labelIndex? name).bind s.layout.dataAddress?

end State

end Mips.Machine
