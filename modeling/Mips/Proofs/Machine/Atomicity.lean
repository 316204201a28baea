import Mips.Proofs.Machine.Effect

/-!
A cycle that does not retire is atomic: whether it ends the run with a fault or without one, the
program counter, the registers and memory are what they were before it. The console too is what it
was, but for a string that runs out of memory while it is printed.
-/
namespace Mips.Machine.State

/-- The machine is about to print a string. -/
def PrintsString (s : State) : Prop :=
  ∃ st, s.current? = some st ∧ s.visible.PrintsString st

theorem silent_of_current? {s : State} (h : s.current? = none) : ¬s.PrintsString := by
  intro ⟨st, here, _⟩
  rw [h] at here
  contradiction

theorem printsString_iff {s : State} {st : Statement} (h : s.current? = some st) :
    s.PrintsString ↔ s.visible.PrintsString st := by
  simp [PrintsString, h]

/-- A statement that is not completed has changed nothing, or it has printed a part of a string. -/
theorem visible_of_stopped_complete {st : Statement} {line : Option Nat} {s : State}
    (stopped : (complete line (execute st s)).1 ≠ .retired) :
    ¬s.visible.PrintsString st ∧ (complete line (execute st s)).2.visible = s.visible ∨
      s.visible.PrintsString st ∧ ∃ bytes, s.visible.RunsOut bytes ∧
        (complete line (execute st s)).1 = .faulted (s.visible.rangeFault bytes) ∧
        (complete line (execute st s)).2.visible = s.visible.print bytes := by
  have effect := effect_execute st s
  rcases executed : execute st s with ⟨result, t⟩
  rw [executed] at effect stopped
  rw [visible_complete line t stopped]
  simp only at effect
  generalize t.visible = after at effect
  cases effect with
  | faulted fault _ silent => exact .inl ⟨silent, rfl⟩
  | ranOut bytes prints runsOut => exact .inr ⟨prints, bytes, runsOut, rfl, rfl⟩
  | exited service exit =>
      refine .inl ⟨?_, rfl⟩
      intro prints
      rw [prints.2] at exit
      contradiction
  | idle | printed _ _ | computed _ _ _ _ | stored _ _ _ _ _ _ | jumped _ | linked _ _ =>
      exact absurd rfl stopped

theorem visible_of_stopped_step {s : State} (running : s.run = .running)
    (stopped : s.step.1 ≠ .retired) :
    ¬s.PrintsString ∧ s.step.2.visible = s.visible ∨
      s.PrintsString ∧ ∃ bytes, s.visible.RunsOut bytes ∧
        s.step.1 = .faulted (s.visible.rangeFault bytes) ∧
        s.step.2.visible = s.visible.print bytes := by
  have cycle := cycle_of_running running
  generalize s.step = next at cycle stopped ⊢
  cases cycle with
  | astray slot => exact .inl ⟨silent_of_current? (by simp only [current?, slot]), rfl⟩
  | finished slot => exact .inl ⟨silent_of_current? (by simp only [current?, slot]), rfl⟩
  | missing index slot absent =>
      exact .inl ⟨silent_of_current? ((current?_of_slot slot).trans absent), rfl⟩
  | executed index st slot found =>
      rw [printsString_iff ((current?_of_slot slot).trans found)]
      exact visible_of_stopped_complete stopped

/-- A cycle that faults or halts leaves all it could have changed as it was. Only a string that
runs out of memory has been printed up to its last byte. -/
theorem stopped_step_atomic {s : State} (running : s.run = .running)
    (stopped : s.step.1 ≠ .retired) :
    s.step.2.control.pc = s.control.pc ∧ s.step.2.bus.registers = s.bus.registers ∧
      s.step.2.bus.memory = s.bus.memory ∧
      (¬s.PrintsString → s.step.2.console = s.console) ∧
      (s.PrintsString → ∃ bytes,
        s.bus.memory.Spells (s.bus.registers.get .a0) bytes ∧
        s.bus.memory.byte? (addressFrom (s.bus.registers.get .a0) bytes.length) = none ∧
        s.step.1 = .faulted
          (.memoryOutOfRange (addressFrom (s.bus.registers.get .a0) bytes.length) 1) ∧
        s.step.2.console = s.console ++ String.ofList (bytes.map character)) := by
  obtain ⟨silent, same⟩ | ⟨prints, bytes, runsOut, outcome, same⟩ :=
    visible_of_stopped_step running stopped
  · exact ⟨congrArg Visible.pc same, congrArg Visible.registers same,
      congrArg Visible.memory same, fun _ => congrArg Visible.console same,
      fun prints => absurd prints silent⟩
  · exact ⟨congrArg Visible.pc same, congrArg Visible.registers same,
      congrArg Visible.memory same, fun silent => absurd prints silent,
      fun _ => ⟨bytes, runsOut.spells, runsOut.outside, outcome, congrArg Visible.console same⟩⟩

/-- A machine that prints a string of two characters with which its memory ends. -/
def unendedString : State where
  program := { text := { entries := #[⟨.syscall, [], some 3⟩] } }
  config := { memorySize := 2 }
  layout := {
    textBase := 0x400000
    textLength := 1
    dataBase := 0x10010000
    dataOffsets := #[0]
    dataSize := 2 }
  bus := {
    registers := (({} : RegisterFile).set .v0 4).set .a0 0x10010000
    memory := ({ base := 0x10010000, size := 2 } : Memory).store 0 [0x68, 0x69] }
  control := { pc := 0x400000 }

/-- The two characters are on the console, and nothing else has changed. -/
theorem stopped_step_atomic_unendedString :
    unendedString.step.1 = .faulted (.memoryOutOfRange 0x10010002 1) ∧
      unendedString.step.2.console = "hi" ∧
      unendedString.step.2.control.pc = 0x400000 ∧
      unendedString.step.2.bus.registers = unendedString.bus.registers ∧
      unendedString.step.2.bus.memory = unendedString.bus.memory ∧
      ∃ bytes, unendedString.bus.memory.Spells 0x10010000 bytes ∧
        unendedString.step.2.console = "" ++ String.ofList (bytes.map character) := by
  have outcome : unendedString.step.1 = .faulted (.memoryOutOfRange 0x10010002 1) := by
    decide +kernel
  have stopped : unendedString.step.1 ≠ .retired := by simp [outcome]
  have prints : unendedString.PrintsString := ⟨⟨.syscall, [], some 3⟩, rfl, rfl, rfl⟩
  obtain ⟨pc, registers, memory, -, string⟩ := stopped_step_atomic rfl stopped
  obtain ⟨bytes, spells, -, -, console⟩ := string prints
  exact ⟨outcome, by decide +kernel, pc, registers, memory, bytes, spells, console⟩

end Mips.Machine.State
