import Mips.Proofs.Machine.Checked

/-!
What a program can see of its machine: the program counter, the registers, memory and the console.
Most operations only look at these and at the layout. A computation that is composed of such
operations is quiet: whether it answers or faults, it has changed nothing that is visible.
-/
namespace Mips.Machine

structure Visible where
  pc : Word
  registers : RegisterFile
  memory : Memory
  console : String

def State.visible (s : State) : Visible where
  pc := s.control.pc
  registers := s.bus.registers
  memory := s.bus.memory
  console := s.console

/-- The faults that a statement can raise; the others are raised before there is one. -/
def Fault.IsRaised : Fault → Prop
  | .memoryOutOfRange _ _ | .unresolvedLabel _ | .malformedStatement _ | .arithmeticOverflow
  | .unsupportedSyscall _ => True
  | .invalidProgramCounter _ | .dataSegmentTooLarge _ _ | .invalidProgram _ => False

namespace Exec

variable {α β : Type}

structure Quiet (x : Exec α) : Prop where
  visible : ∀ s, (x s).2.visible = s.visible
  raises : ∀ s fault, (x s).1 = .error fault → fault.IsRaised

namespace Quiet

theorem pure (a : α) : Quiet (Pure.pure a : Exec α) :=
  ⟨fun _ => rfl, by simp [pure_apply]⟩

theorem error {fault : Fault} (raised : fault.IsRaised) :
    Quiet (Exec.ofExcept (.error fault) : Exec α) := by
  refine ⟨fun _ => rfl, ?_⟩
  intro s found raise
  obtain rfl := Except.error.inj raise
  exact raised

theorem bind {x : Exec α} {f : α → Exec β} (hx : x.Quiet) (hf : ∀ a, (f a).Quiet) :
    (x >>= f).Quiet := by
  refine ⟨?_, ?_⟩
  · intro s
    have first := hx.visible s
    rw [bind_apply]
    rcases hs : x s with ⟨result, t⟩
    rw [hs] at first
    cases result with
    | ok a => exact ((hf a).visible t).trans first
    | error fault => exact first
  · intro s fault
    have first := hx.raises s
    rw [bind_apply]
    rcases hs : x s with ⟨result, t⟩
    rw [hs] at first
    cases result with
    | ok a => exact (hf a).raises t fault
    | error raised =>
        intro raise
        obtain rfl := Except.error.inj raise
        exact first raised rfl

theorem look (view : State → α) : Quiet (Exec.look view) :=
  ⟨fun _ => rfl, by simp [Exec.look]⟩

theorem readRegister (r : Register) : Quiet (Exec.readRegister r) :=
  ⟨fun _ => rfl, by simp [Exec.readRegister, transfer]⟩

theorem readMemory (address : Word) (length : Nat) (signed : Bool) :
    Quiet (Exec.readMemory address length signed) := by
  refine ⟨?_, ?_⟩
  · intro s
    simp only [Exec.readMemory, transfer, Bus.readMemory]
    split <;> rfl
  · intro s fault raise
    simp only [Exec.readMemory, transfer, Bus.readMemory, Memory.read, Memory.readUnsigned] at raise
    cases bytes : s.bus.memory.readBytes address length with
    | ok read => cases signed <;> simp [bytes, Except.map] at raise
    | error found =>
        obtain rfl : found = fault := by cases signed <;> simpa [bytes, Except.map] using raise
        rw [Memory.readBytes_error bytes]
        trivial

theorem registerAt (st : Statement) (index : Nat) :
    Quiet (Exec.ofExcept (Machine.registerAt st index)) := by
  unfold Machine.registerAt
  split
  · exact pure _
  · exact error trivial

theorem addressAt (st : Statement) (index : Nat) :
    Quiet (Exec.ofExcept (Machine.addressAt st index)) := by
  unfold Machine.addressAt
  split
  · exact pure _
  · exact error trivial

theorem immediateAt (st : Statement) (index : Nat) :
    Quiet (Exec.ofExcept (Machine.immediateAt st index)) := by
  unfold Machine.immediateAt
  split
  · exact pure _
  · exact error trivial

theorem valueAt (st : Statement) (index : Nat) : Quiet (Machine.valueAt st index) := by
  unfold Machine.valueAt
  split
  · exact readRegister _
  · exact pure _
  · exact error trivial

theorem labelAddress (l : Layout) (a : Address) :
    Quiet (Exec.ofExcept (Machine.labelAddress l a)) := by
  unfold Machine.labelAddress
  split
  · exact pure _
  · split
    · exact pure _
    · exact error trivial

theorem effectiveAddress (a : Address) : Quiet (Machine.effectiveAddress a) := by
  refine bind (look _) fun layout => bind (labelAddress layout a) fun start => ?_
  cases a.base with
  | none => exact pure _
  | some r => exact bind (readRegister r) fun _ => pure _

theorem branchOperands (st : Statement) : Quiet (Machine.branchOperands st) := by
  unfold Machine.branchOperands
  split
  · exact bind (addressAt st 1) fun _ => pure _
  · exact bind (valueAt st 1) fun _ => bind (addressAt st 2) fun _ => pure _

end Quiet

end Exec

end Mips.Machine
