import Mips.Proofs.Machine.Effect
import Mips.Proofs.Machine.Loading
import Mathlib.Data.List.Basic

/-!
What a machine writes down about its run. As long as the machine runs the log is empty and every
cycle is counted; the cycle that ends the run logs at most its fault, at the line of the statement
that raised it, and counts if it had a statement. After that nothing changes any more, and so a
bounded run can be cut anywhere.
-/
namespace Mips.Machine

def RunState.outcome : RunState → Outcome
  | .running => .retired
  | .halted reason => .halted reason
  | .faulted fault => .faulted fault

theorem Outcome.outcome_run (o : Outcome) : o.run.outcome = o := by
  cases o <;> rfl

namespace RunState

theorem run_outcome (r : RunState) : r.outcome.run = r := by
  cases r <;> rfl

theorem outcome_ne_retired {r : RunState} (stopped : r ≠ .running) : r.outcome ≠ .retired := by
  intro retired
  apply stopped
  rw [← run_outcome r, retired, Outcome.run]

end RunState

namespace Exec

variable {s t : State}

theorem Local.problems_eq (h : Local s t) : t.problems = s.problems := by
  obtain ⟨_, _, _, rfl⟩ := h
  rfl

theorem Local.cycles_eq (h : Local s t) : t.cycles = s.cycles := by
  obtain ⟨_, _, _, rfl⟩ := h
  rfl

end Exec

namespace State

/-- The outcomes of some cycles, the first one first. -/
def outcomes : Nat → State → List Outcome
  | 0, _ => []
  | n + 1, s => s.step.1 :: outcomes n s.step.2

theorem outcomes_succ (n : Nat) (s : State) :
    outcomes (n + 1) s = outcomes n s ++ [(s.after n).step.1] := by
  induction n generalizing s with
  | zero => rfl
  | succ n ih =>
      rw [outcomes, ih s.step.2]
      rfl

theorem step_eq_of_stopped {s : State} (stopped : s.run ≠ .running) :
    s.step = (s.run.outcome, s) := by
  cases hs : s.run with
  | running => exact absurd hs stopped
  | halted reason | faulted fault => simp only [step, hs, RunState.outcome]

theorem outcome_step (s : State) : s.step.1 = s.step.2.run.outcome := by
  rw [run_step, Outcome.outcome_run]

theorem stays_stopped {s : State} (stopped : s.run ≠ .running) (k : Nat) :
    s.outcomes k = List.replicate k s.run.outcome ∧ s.after k = s := by
  induction k with
  | zero => exact ⟨rfl, rfl⟩
  | succ k ih =>
      rw [outcomes, after, step_eq_of_stopped stopped]
      exact ⟨congrArg _ ih.1, ih.2⟩

theorem run_runFor {a : Nat} {s : State} (stopped : (runFor a s).1 ≠ .retired) :
    (runFor a s).2.run = (runFor a s).1.run := by
  induction a generalizing s with
  | zero => exact absurd rfl stopped
  | succ a ih =>
      by_cases retired : s.step.1 = .retired
      · rw [runFor_succ_of_retired _ _ retired] at stopped ⊢
        exact ih stopped
      · rw [runFor_succ_of_stopped _ _ retired]
        exact run_step s

/-- A run that is resumed for at least one cycle is the run of the sum. -/
theorem runFor_runFor (a : Nat) {b : Nat} (s : State) (positive : 1 ≤ b) :
    runFor b (runFor a s).2 = runFor (a + b) s := by
  rw [runFor_add]
  split
  · rfl
  · next stopped =>
      have ended := run_runFor stopped
      have idle : (runFor a s).2.run ≠ .running := by
        intro running
        cases outcome : (runFor a s).1 with
        | retired => exact stopped outcome
        | halted reason | faulted fault => simp [running, outcome, Outcome.run] at ended
      -- The resumed run makes one idle cycle, which answers the last outcome once more.
      have step := step_eq_of_stopped idle
      obtain ⟨rest, rfl⟩ := Nat.exists_eq_add_of_le' positive
      rw [runFor_succ_of_stopped, step, ended, Outcome.outcome_run]
      rw [step, ended, Outcome.outcome_run]
      exact stopped

/-- How a cycle can end a run: the state in which it leaves the run, what it writes into the log
and whether it is counted. -/
inductive Ending (s : State) : RunState → Problems → Nat → Prop
  | exited (st : Statement) (here : s.current? = some st) (service : st.instruction = .syscall)
      (exit : s.bus.registers.get .v0 = 10) : Ending s (.halted .exit) [] 1
  | finished (slot : s.layout.textSlot? s.control.pc = some .finish) :
      Ending s (.halted .endOfProgram) [] 0
  | astray (slot : s.layout.textSlot? s.control.pc = none) :
      Ending s (.faulted (.invalidProgramCounter s.control.pc))
        [(Fault.invalidProgramCounter s.control.pc).problem none] 0
  | faulted (st : Statement) (here : s.current? = some st) (fault : Fault)
      (raised : fault.IsRaised) : Ending s (.faulted fault) [fault.problem st.line] 1

theorem Ending.stopped {s : State} {run : RunState} {logged : Problems} {counted : Nat}
    (h : Ending s run logged counted) : run ≠ .running := by
  cases h <;> nofun

/-- The text of the layout has a place for each statement of the program and no more. -/
def Fits (s : State) : Prop :=
  s.layout.textLength = s.program.text.size

/-- What a cycle adds to the books. -/
inductive Entered (s t : State) : Prop
  | retired (run : t.run = .running) (problems : t.problems = s.problems)
      (cycles : t.cycles = s.cycles + 1)
  | ended {logged : Problems} {counted : Nat} (ending : Ending s t.run logged counted)
      (problems : t.problems = s.problems ++ logged) (cycles : t.cycles = s.cycles + counted)

theorem entered_complete {s t : State} {st : Statement} {result : Except Fault Completion}
    (running : s.run = .running) (here : s.current? = some st) (run : t.run = s.run)
    (problems : t.problems = s.problems) (cycles : t.cycles = s.cycles + 1)
    (effect : Effect st s.visible result t.visible) :
    Entered s (complete st.line (result, t)).2 := by
  match result with
  | .ok .advance | .ok .jumped => exact .retired (run.trans running) problems cycles
  | .ok .exit =>
      obtain ⟨service, exit⟩ := effect.of_exit
      refine .ended (.exited st here service exit) ?_ cycles
      exact problems.trans (List.append_nil _).symm
  | .error fault =>
      refine .ended (.faulted st here fault effect.isRaised) ?_ cycles
      exact congrArg (· ++ [fault.problem st.line]) problems

theorem entered_step {s : State} (running : s.run = .running) (fits : s.Fits) :
    Entered s s.step.2 := by
  have cycle := cycle_of_running running
  generalize s.step = next at cycle ⊢
  cases cycle with
  | astray slot => exact .ended (.astray slot) rfl rfl
  | finished slot => exact .ended (.finished slot) (List.append_nil _).symm rfl
  | missing index slot absent =>
      have inside : index < s.program.text.size := fits ▸ Layout.lt_of_textSlot? slot
      exact absurd absent (by simpa [Segment.get?, Segment.size] using inside)
  | executed index st slot found =>
      have here := (current?_of_slot slot).trans found
      have frame := Exec.execute_local st (s.fetch.decode index)
      exact entered_complete running here frame.run_eq frame.problems_eq frame.cycles_eq
        (effect_execute st (s.fetch.decode index))

/-- The course of some cycles from a machine with empty books: all of them have retired, or one
of them has ended the run. -/
inductive Course (s : State) (n : Nat) : Prop
  | running (run : (s.after n).run = .running) (problems : (s.after n).problems = [])
      (cycles : (s.after n).cycles = n) (retired : s.outcomes n = List.replicate n .retired)
  | ended (k : Nat) (before : k < n) (run : (s.after k).run = .running)
      (last : (s.after k).step.2 = s.after n) {counted : Nat}
      (ending : Ending (s.after k) (s.after n).run (s.after n).problems counted)
      (cycles : (s.after n).cycles = k + counted)
      (outcomes : s.outcomes n =
        List.replicate k .retired ++ List.replicate (n - k) (s.after n).run.outcome)

theorem fits_after {s : State} (fits : s.Fits) (n : Nat) : (s.after n).Fits := by
  have same := sameSetup_after s n
  rw [Fits, same.layout, same.program]
  exact fits

theorem Course.step {s : State} {n : Nat} (h : Course s n) (fits : s.Fits) :
    Course s (n + 1) := by
  cases h with
  | running run problems cycles retired =>
      have entered := entered_step run (fits_after fits n)
      have outcome := outcome_step (s.after n)
      rw [← after_succ] at entered outcome
      have course := outcomes_succ n s
      rw [retired, outcome] at course
      cases entered with
      | retired run' problems' cycles' =>
          refine .running run' (problems'.trans problems) (by omega) ?_
          rw [course, run', List.replicate_succ']
          rfl
      | ended ending problems' cycles' =>
          rw [problems, List.nil_append] at problems'
          refine .ended n (Nat.lt_succ_self n) run (after_succ n s).symm (problems' ▸ ending)
            (by rw [cycles', cycles]) ?_
          rw [course, Nat.add_sub_cancel_left]
          rfl
  | ended k before run last ending cycles outcomes =>
      -- The run has ended before, so that one more cycle only repeats its outcome.
      have still := step_eq_of_stopped ending.stopped
      have same : s.after (n + 1) = s.after n := by rw [after_succ, still]
      refine .ended k (by omega) run (last.trans same.symm) (same ▸ ending) (same ▸ cycles) ?_
      rw [outcomes_succ, outcomes, same, still, List.append_assoc, ← List.replicate_succ',
        show n + 1 - k = n - k + 1 by omega]

theorem course {s : State} (run : s.run = .running) (problems : s.problems = [])
    (cycles : s.cycles = 0) (fits : s.Fits) (n : Nat) : Course s n := by
  induction n with
  | zero => exact .running run problems cycles rfl
  | succ n ih => exact ih.step fits

/-- The books of a machine after some cycles. -/
structure Books (s : State) (n : Nat) : Prop where
  running : (s.after n).run = .running →
    (s.after n).problems = [] ∧ (s.after n).cycles = (s.outcomes n).count .retired
  /-- The cycle that has ended the run has found empty books and left them as they are now. -/
  ended : (s.after n).run ≠ .running → ∃ k < n, (s.after k).run = .running ∧
    (s.after k).step.2 = s.after n ∧ ∃ counted,
      Ending (s.after k) (s.after n).run (s.after n).problems counted ∧
      (s.after n).cycles = (s.outcomes n).count .retired + counted
  still : (s.after n).run ≠ .running → ∃ outcome, outcome.run = (s.after n).run ∧
    (s.outcomes n).getLast? = some outcome ∧
      ∀ k, (s.after n).outcomes k = List.replicate k outcome ∧ (s.after n).after k = s.after n
  cut : ∀ a b, 1 ≤ b → runFor b (runFor a (s.after n)).2 = runFor (a + b) (s.after n)

theorem Course.books {s : State} {n : Nat} (h : Course s n) : Books s n := by
  cases h with
  | running run problems cycles retired =>
      refine ⟨fun _ => ⟨problems, ?_⟩, fun stopped => absurd run stopped,
        fun stopped => absurd run stopped, fun a _ => runFor_runFor a _⟩
      rw [cycles, retired, List.count_replicate_self]
  | ended k before run last ending cycles outcomes =>
      have stopped := ending.stopped
      have other := RunState.outcome_ne_retired stopped
      refine ⟨fun running => absurd running stopped, fun _ => ?_, fun _ => ?_,
        fun a _ => runFor_runFor a _⟩
      · refine ⟨k, before, run, last, _, ending, ?_⟩
        rw [cycles, outcomes, List.count_append, List.count_replicate_self, List.count_replicate,
          if_neg (by simpa using other), Nat.add_zero]
      · refine ⟨_, RunState.run_outcome _, ?_, stays_stopped stopped⟩
        rw [outcomes, show n - k = n - k - 1 + 1 by omega, List.replicate_succ',
          ← List.append_assoc, List.getLast?_append]
        rfl

/-- The books of a machine that has been loaded are right after any number of cycles, whoever
observes it. -/
theorem books_of_load {p : Program} {c : Config} {loaded : State}
    (h : State.load p c = .ok loaded) (channel : Channel) (n : Nat) :
    Books (loaded.mapChannel fun _ => channel) n := by
  obtain ⟨program, running, planned⟩ := load_ok h
  obtain ⟨problems, cycles⟩ := empty_of_load h
  have fits : loaded.Fits := by
    rw [Fits, Layout.textLength_of_plan planned, program]
  exact (course (s := loaded.mapChannel fun _ => channel) running problems cycles fits n).books

/-- A program whose second statement overflows. -/
def overflow : Program where
  text := {
    entries := #[⟨.li, [.register .v0, .integer 0x7FFFFFFF], some 4⟩,
      ⟨.addi, [.register .v0, .register .v0, .integer 1], some 5⟩] }

/-- The second statement is counted and reported once, however often the machine is stepped. -/
theorem books_of_load_overflow : ∃ loaded, State.load overflow {} = .ok loaded ∧
    (loaded.after 9).run = .faulted .arithmeticOverflow ∧
    (loaded.after 9).problems = [Fault.arithmeticOverflow.problem (some 5)] ∧
    (loaded.after 9).cycles = 2 ∧
    ∀ channel n, Books (loaded.mapChannel fun _ => channel) n := by
  have ends : (State.load overflow {}).toOption.map (fun s =>
      ((s.after 9).run, (s.after 9).problems, (s.after 9).cycles)) =
      some (.faulted .arithmeticOverflow, [Fault.arithmeticOverflow.problem (some 5)], 2) := by
    decide +kernel
  cases loads : State.load overflow {} with
  | error fault =>
      rw [loads] at ends
      contradiction
  | ok loaded =>
      rw [loads] at ends
      obtain ⟨run, problems, cycles⟩ :=
        Prod.mk.injEq .. ▸ Prod.mk.injEq .. ▸ Option.some.inj ends
      exact ⟨loaded, rfl, run, problems, cycles, books_of_load loads⟩

end State

end Mips.Machine
