import Mips.Machine.Execution

/-!
Instruction cycles. A cycle moves the program counter over the bus into the instruction register,
decodes it and executes the statement it selects. A machine that has stopped stays as it is.
-/
namespace Mips.Machine

namespace State

def halt (s : State) (reason : HaltReason) : Outcome × State :=
  (.halted reason, { s with run := .halted reason })

/-- Stops with a fault, which is reported at a line if that is known. -/
def fail (s : State) (fault : Fault) (line : Option Nat) : Outcome × State :=
  (.faulted fault, {
    s with run := .faulted fault, problems := s.problems ++ [fault.problem line] })

/-- Brings the program counter to the instruction register. -/
def fetch (s : State) : State :=
  let staged := {
    s with bus := { s.bus with cycle := s.cycles + 1 }, control := s.control.stage }
  let announced := staged.publish .controlUnit
  let (instruction, bus) := (announced.bus.receiveControl announced.control).sendInstruction
  { announced with instruction, bus }

/-- Starts the cycle of the statement at an index. -/
def decode (s : State) (index : Nat) : State :=
  { s with
    cycles := s.cycles + 1
    instruction := { s.instruction with decoded := some index } }.publish .instructionRegister

/-- Brings a cycle to its end after its statement has been executed. -/
def complete (line : Option Nat) : Except Fault Completion × State → Outcome × State
  | (.ok .advance, s) =>
      (.retired, { s with control := s.control.advance }.publish .controlUnit)
  | (.ok .jumped, s) => (.retired, s)
  | (.ok .exit, s) => s.halt .exit
  | (.error fault, s) => s.fail fault line

/-- One instruction cycle. -/
def step (s : State) : Outcome × State :=
  match s.run with
  | .halted reason => (.halted reason, s)
  | .faulted fault => (.faulted fault, s)
  | .running =>
      let pc := s.control.pc
      let fetched := s.fetch
      match fetched.layout.textSlot? fetched.instruction.word with
      | none => fetched.fail (.invalidProgramCounter pc) none
      | some .finish => fetched.halt .endOfProgram
      | some (.statement index) =>
          let decoded := fetched.decode index
          match decoded.program.text.get? index with
          | none => decoded.fail (.invalidProgramCounter pc) none
          | some statement => complete statement.line (execute statement decoded)

/-- Runs up to a number of cycles, until one does not retire. -/
def runFor : Nat → State → Outcome × State
  | 0, s => (.retired, s)
  | limit + 1, s =>
      match s.step with
      | (.retired, s) => runFor limit s
      | stopped => stopped

/-- Stops a run from outside; one that has ended already keeps its end. -/
def stop (s : State) : State :=
  match s.run with
  | .running => { s with run := .halted .stopped }
  | _ => s

end State

end Mips.Machine
