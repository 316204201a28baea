import Mips.Proofs.Machine.Bookkeeping
import Mips.Proofs.Machine.Observation
import Mathlib.Order.Monotone.Basic

/-!
The numbers that announcements are stamped with. A cycle that executes a statement is counted, and
what it announces carries its number, with one exception: the cycle is opened before it is counted,
so that its first announcement still carries the number of the cycle before. All later
announcements of a cycle tell it apart from every other cycle of a run.
-/
namespace Mips.Machine.State

/-- The next cycle fetches a statement and executes it. -/
structure Executes (s : State) : Prop where
  running : s.run = .running
  here : s.current? ≠ none

theorem cycles_complete (line : Option Nat) (result : Except Fault Completion) (t : State) :
    (complete line (result, t)).2.cycles = t.cycles := by
  match result with
  | .ok .advance | .ok .jumped | .ok .exit | .error _ => rfl

/-- No cycle is taken back, and the one that executes a statement is counted. -/
theorem cycles_step (s : State) :
    s.cycles ≤ s.step.2.cycles ∧ (s.Executes → s.step.2.cycles = s.cycles + 1) := by
  by_cases running : s.run = .running
  · have cycle := cycle_of_running running
    generalize s.step = next at cycle ⊢
    cases cycle with
    | astray slot | finished slot =>
        exact ⟨Nat.le_refl _, fun executes => absurd (by simp [current?, slot]) executes.here⟩
    | missing index slot absent =>
        have nothing : s.current? = none := (current?_of_slot slot).trans absent
        exact ⟨Nat.le_succ _, fun executes => absurd nothing executes.here⟩
    | executed index st slot found =>
        have kept := (Exec.execute_local st (s.fetch.decode index)).cycles_eq
        have counted : (complete st.line (execute st (s.fetch.decode index))).2.cycles =
            s.cycles + 1 := (cycles_complete _ _ _).trans kept
        exact ⟨counted ▸ Nat.le_succ _, fun _ => counted⟩
  · rw [step_of_stopped running]
    exact ⟨Nat.le_refl _, fun executes => absurd executes.running running⟩

theorem cycles_after_mono (s : State) : Monotone fun n => (s.after n).cycles := by
  refine monotone_nat_of_le_succ fun n => ?_
  rw [after_succ]
  exact (cycles_step _).1

/-- Of two cycles that execute statements the later one has the greater number. -/
theorem cycles_step_lt {s : State} {i j : Nat} (before : i < j) (executes : (s.after j).Executes) :
    (s.after i).step.2.cycles < (s.after j).step.2.cycles := by
  rw [(cycles_step _).2 executes, ← after_succ]
  exact Nat.lt_succ_of_le (cycles_after_mono s before)

theorem eq_of_cycles_step {s : State} {i j : Nat} (hi : (s.after i).Executes)
    (hj : (s.after j).Executes)
    (same : (s.after i).step.2.cycles = (s.after j).step.2.cycles) : i = j := by
  obtain before | rfl | later := Nat.lt_trichotomy i j
  · exact absurd same (Nat.ne_of_lt (cycles_step_lt before hj))
  · rfl
  · exact absurd same (Nat.ne_of_gt (cycles_step_lt later hi))

/-- How a cycle is counted, and its announcements are stamped. -/
structure Stamped (s : State) : Prop where
  counted : s.step.2.cycles = s.cycles + 1
  first : s.announcements.head? = some ⟨.controlUnit, s.cycles⟩
  rest : ∀ event ∈ s.announcements.tail, event.cycle = s.step.2.cycles

theorem Executes.stamped {s : State} (h : s.Executes) : s.Stamped := by
  have counted := (cycles_step s).2 h
  obtain ⟨units, -, events⟩ := trail_step h.running
  refine ⟨counted, ?_, fun event heard => ?_⟩
  · rw [events]
    rfl
  · have later : event ∈ [⟨.loadStoreUnit, s.cycles + 1⟩, ⟨.instructionRegister, s.cycles + 1⟩] ++
        units.map fun unit => (⟨unit, s.cycles + 1⟩ : Event) := by
      simpa only [events, opening, List.cons_append, List.tail_cons] using heard
    rw [counted]
    simp only [List.cons_append, List.nil_append, List.mem_cons, List.mem_map] at later
    obtain rfl | rfl | ⟨unit, -, rfl⟩ := later <;> rfl

/-- What some cycles announce, the events of the first cycle first. -/
def transcript (s : State) (n : Nat) : List Event :=
  (List.range n).flatMap fun i => (s.after i).announcements

theorem transcript_succ (s : State) (n : Nat) :
    s.transcript (n + 1) = s.transcript n ++ (s.after n).announcements := by
  rw [transcript, List.range_succ, List.flatMap_append, List.flatMap_singleton]
  rfl

theorem channel_after (s : State) (n : Nat) :
    (s.after n).bus.channel = s.bus.channel.emitAll (s.transcript n) := by
  induction n with
  | zero => rfl
  | succ n ih => rw [after_succ, channel_step, ih, ← Channel.emitAll_append, transcript_succ]

/-- An observer receives what the cycles announce, one cycle after the other. A cycle that executes
a statement stamps all events but its first with its own number, and so these events tell which
cycle has sent them. -/
theorem stamps_after {s : State} (connected : s.bus.channel.isConnected = true) :
    (∀ n, (s.after n).bus.channel.events? = s.bus.channel.events?.map (· ++ s.transcript n)) ∧
      (∀ i, (s.after i).Executes → (s.after i).Stamped) ∧
      ∀ i j, (s.after i).Executes → (s.after j).Executes →
        ∀ event ∈ (s.after i).announcements.tail, ∀ other ∈ (s.after j).announcements.tail,
          event.cycle = other.cycle → i = j := by
  refine ⟨fun n => ?_, fun i executes => executes.stamped, ?_⟩
  · rw [channel_after, Channel.events?_emitAll connected]
  · intro i j hi hj event heard other heard' same
    rw [hi.stamped.rest event heard, hj.stamped.rest other heard'] at same
    exact eq_of_cycles_step hi hj same

/-- What the relay sends under the number 2, and not as the first event of a cycle, belongs to its
jump. -/
theorem stamps_after_relay : relay.listen.bus.channel.isConnected = true ∧
    (relay.listen.after 1).Executes ∧ (relay.listen.after 1).Stamped ∧
    (relay.listen.after 1).bus.channel.events? = some [⟨.controlUnit, 0⟩, ⟨.loadStoreUnit, 1⟩,
      ⟨.instructionRegister, 1⟩, ⟨.instructionRegister, 1⟩, ⟨.registers, 1⟩, ⟨.controlUnit, 1⟩] ∧
    ∀ i, (relay.listen.after i).Executes →
      ⟨.loadStoreUnit, 2⟩ ∈ (relay.listen.after i).announcements.tail → i = 1 := by
  have connected : relay.listen.bus.channel.isConnected = true := rfl
  have jumps : (relay.listen.after 1).Executes := ⟨by decide +kernel, by decide +kernel⟩
  have carries : ⟨.loadStoreUnit, 2⟩ ∈ (relay.listen.after 1).announcements.tail := by
    decide +kernel
  obtain ⟨received, stamped, identify⟩ := stamps_after connected
  refine ⟨connected, jumps, stamped 1 jumps, ?_, fun i executes heard => ?_⟩
  · rw [received 1]
    decide +kernel
  · exact identify i 1 executes jumps _ heard _ carries rfl

/-- A program of two statements that do nothing. -/
def idle : Program where
  text := { entries := #[⟨.nop, [], none⟩, ⟨.nop, [], none⟩] }

/-- The control unit opens both cycles under the number of the cycle before. An event of the number
1 belongs to the first statement or to the second. -/
theorem stamps_idle : ∃ loaded, State.load idle {} = .ok loaded ∧
    loaded.listen.bus.channel.isConnected = true ∧
    loaded.listen.Executes ∧ (loaded.listen.after 1).Executes ∧
    loaded.listen.announcements = [⟨.controlUnit, 0⟩, ⟨.loadStoreUnit, 1⟩,
      ⟨.instructionRegister, 1⟩, ⟨.instructionRegister, 1⟩, ⟨.controlUnit, 1⟩] ∧
    loaded.listen.step.2.cycles = 1 ∧
    (loaded.listen.after 1).announcements = [⟨.controlUnit, 1⟩, ⟨.loadStoreUnit, 2⟩,
      ⟨.instructionRegister, 2⟩, ⟨.instructionRegister, 2⟩, ⟨.controlUnit, 2⟩] ∧
    (loaded.listen.after 1).step.2.cycles = 2 := by
  have runs : (State.load idle {}).toOption.any (fun s => decide (
      s.listen.run = .running ∧ s.listen.current? ≠ none ∧
      (s.listen.after 1).run = .running ∧ (s.listen.after 1).current? ≠ none ∧
      s.listen.announcements = [⟨.controlUnit, 0⟩, ⟨.loadStoreUnit, 1⟩,
        ⟨.instructionRegister, 1⟩, ⟨.instructionRegister, 1⟩, ⟨.controlUnit, 1⟩] ∧
      s.listen.step.2.cycles = 1 ∧
      (s.listen.after 1).announcements = [⟨.controlUnit, 1⟩, ⟨.loadStoreUnit, 2⟩,
        ⟨.instructionRegister, 2⟩, ⟨.instructionRegister, 2⟩, ⟨.controlUnit, 2⟩] ∧
      (s.listen.after 1).step.2.cycles = 2)) = true := by
    decide +kernel
  cases loads : State.load idle {} with
  | error fault =>
      rw [loads] at runs
      contradiction
  | ok loaded =>
      rw [loads] at runs
      obtain ⟨first, here, second, here', events⟩ := of_decide_eq_true runs
      exact ⟨loaded, rfl, rfl, ⟨first, here⟩, ⟨second, here'⟩, events⟩

end Mips.Machine.State
