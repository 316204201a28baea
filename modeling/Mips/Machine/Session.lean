import Mips.Machine.Run
import Mips.Machine.TickGate

/-!
A session runs a machine one cycle per tick. Its worker asks the gate for a tick, runs a cycle,
and closes the gate when a cycle does not retire. A session is observed only when it has settled:
its worker has finished or is parked at the gate.
-/
namespace Mips.Machine

structure Session where
  machine : State
  gate : TickGate := {}
  isFinished : Bool := false

namespace Session

/-- One round of the worker, given the answer of the gate. -/
def round (s : Session) : Admission × TickGate → Session
  | (.parked, gate) => { s with gate }
  | (.refused, gate) => { s with gate := gate.close, isFinished := true }
  | (.granted, gate) =>
      match s.machine.step with
      | (.retired, machine) => { s with machine, gate }
      | (_, machine) => { machine, gate := gate.close, isFinished := true }

/-- Rounds of a worker that is not parked, for as long as there are ticks. -/
def rounds : Nat → Session → Session
  | 0, s => s.round s.gate.request
  | ticks + 1, s =>
      let next := s.round s.gate.request
      if next.isFinished then next else rounds ticks next

/-- Wakes the worker, if there is something to wake for, and lets it settle. -/
def settle (s : Session) : Session :=
  if s.isFinished || (s.gate.pending = 0 && !s.gate.isClosed) then s
  else rounds s.gate.pending { s with gate := s.gate.wake }

/-- A session whose worker waits for its first tick. -/
def start (machine : State) : Session where
  machine := machine
  gate := (({} : TickGate).request).2

def tick (s : Session) : Session :=
  { s with gate := s.gate.signal }

/-- Grants a number of ticks and lets the worker settle. -/
def grant (ticks : Nat) (s : Session) : Session :=
  (Nat.repeat tick ticks s).settle

/-- Lets the worker use the ticks it has, then stops the machine. -/
def stop (s : Session) : Report :=
  { s with gate := s.gate.close }.settle.machine.stop.report

/-- The report of a session whose worker has finished by itself. -/
def finalReport? (s : Session) : Option Report :=
  let settled := s.settle
  if settled.isFinished then some settled.machine.report else none

/-- Runs the session by a clock, one tick at a time, for up to a number of ticks. -/
def runClock : Nat → Session → Session
  | 0, s => s
  | ticks + 1, s => if s.isFinished then s else runClock ticks (s.grant 1)

end Session

end Mips.Machine
