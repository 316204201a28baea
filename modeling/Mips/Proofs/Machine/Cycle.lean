import Mips.Proofs.Machine.Computation
import Mips.Proofs.Machine.Run

/-!
How the cycle of a running machine can go: the program counter addresses no statement, or the end
of the program, or a statement, which is executed. The program, its configuration and its layout
are the same after any number of cycles.
-/
namespace Mips.Machine

/-- The state of a run after a cycle with this outcome. -/
def Outcome.run : Outcome → RunState
  | .retired => .running
  | .halted reason => .halted reason
  | .faulted fault => .faulted fault

/-- What a machine is loaded with is the same in two states. -/
structure State.SameSetup (s t : State) : Prop where
  program : t.program = s.program
  config : t.config = s.config
  layout : t.layout = s.layout

namespace Exec

variable {s t : State}

theorem Local.run_eq (h : Local s t) : t.run = s.run := by
  obtain ⟨_, _, _, rfl⟩ := h
  rfl

theorem Local.sameSetup (h : Local s t) : s.SameSetup t := by
  obtain ⟨_, _, _, rfl⟩ := h
  exact ⟨rfl, rfl, rfl⟩

end Exec

namespace State

/-- The word that is fetched is the program counter, whatever the slots held before. -/
theorem fetch_word (s : State) : s.fetch.instruction.word = s.control.pc := rfl

inductive Cycle (s : State) : Outcome × State → Prop
  | astray (slot : s.layout.textSlot? s.control.pc = none) :
      Cycle s (s.fetch.fail (.invalidProgramCounter s.control.pc) none)
  | finished (slot : s.layout.textSlot? s.control.pc = some .finish) :
      Cycle s (s.fetch.halt .endOfProgram)
  | missing (index : Nat) (slot : s.layout.textSlot? s.control.pc = some (.statement index))
      (absent : s.program.text.get? index = none) :
      Cycle s ((s.fetch.decode index).fail (.invalidProgramCounter s.control.pc) none)
  | executed (index : Nat) (statement : Statement)
      (slot : s.layout.textSlot? s.control.pc = some (.statement index))
      (found : s.program.text.get? index = some statement) :
      Cycle s (complete statement.line (execute statement (s.fetch.decode index)))

theorem cycle_of_running {s : State} (running : s.run = .running) : Cycle s s.step := by
  have program (index : Nat) : (s.fetch.decode index).program = s.program := rfl
  have layout : s.fetch.layout = s.layout := rfl
  simp only [step, running, fetch_word, layout, program]
  cases slot : s.layout.textSlot? s.control.pc with
  | none => exact .astray slot
  | some place =>
      cases place with
      | finish => exact .finished slot
      | statement index =>
          simp only
          cases found : s.program.text.get? index with
          | none => exact .missing index slot found
          | some statement => exact .executed index statement slot found

theorem step_of_stopped {s : State} (stopped : s.run ≠ .running) : s.step.2 = s := by
  cases hs : s.run with
  | running => exact absurd hs stopped
  | halted reason | faulted fault => simp only [step, hs]

theorem run_complete (line : Option Nat) (result : Except Fault Completion) {s : State}
    (running : s.run = .running) :
    (complete line (result, s)).2.run = (complete line (result, s)).1.run := by
  match result with
  | .ok .advance | .ok .jumped => exact running
  | .ok .exit | .error _ => rfl

/-- The outcome of a cycle is the state in which it leaves the run. -/
theorem run_step (s : State) : s.step.2.run = s.step.1.run := by
  cases hs : s.run with
  | halted reason | faulted fault => simp only [step, hs, Outcome.run]
  | running =>
      have cycle := cycle_of_running hs
      generalize s.step = next at cycle ⊢
      cases cycle with
      | astray _ | finished _ | missing _ _ _ => rfl
      | executed index statement slot found =>
          have frame := Exec.execute_local statement (s.fetch.decode index)
          exact run_complete _ _ (frame.run_eq.trans hs)

theorem SameSetup.refl (s : State) : SameSetup s s :=
  ⟨rfl, rfl, rfl⟩

theorem SameSetup.trans {s t u : State} (h : SameSetup s t) (k : SameSetup t u) :
    SameSetup s u :=
  ⟨k.program.trans h.program, k.config.trans h.config, k.layout.trans h.layout⟩

theorem sameSetup_complete (line : Option Nat) (result : Except Fault Completion) (s : State) :
    SameSetup s (complete line (result, s)).2 := by
  match result with
  | .ok .advance | .ok .jumped | .ok .exit | .error _ => exact ⟨rfl, rfl, rfl⟩

theorem sameSetup_step (s : State) : SameSetup s s.step.2 := by
  by_cases running : s.run = .running
  · have cycle := cycle_of_running running
    generalize s.step = next at cycle ⊢
    cases cycle with
    | astray _ | finished _ | missing _ _ _ => exact ⟨rfl, rfl, rfl⟩
    | executed index statement slot found =>
        have decoded : SameSetup s (s.fetch.decode index) := ⟨rfl, rfl, rfl⟩
        have executed := (Exec.execute_local statement (s.fetch.decode index)).sameSetup
        exact (decoded.trans executed).trans (sameSetup_complete _ _ _)
  · rw [step_of_stopped running]
    exact SameSetup.refl s

theorem sameSetup_after (s : State) (n : Nat) : SameSetup s (s.after n) :=
  after_induction (SameSetup s) (fun t h => h.trans (sameSetup_step t)) (SameSetup.refl s) n

end State

end Mips.Machine
