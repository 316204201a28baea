import Mips.Machine.Run

/-!
Runs of a machine: as many cycles as one likes, and bounded runs, which end early when a cycle does
not retire. A bounded run can be cut at any point, and a longer bound changes no run that has
stopped.
-/
namespace Mips.Machine.State

/-- A machine with three statements, of which the second jumps to the third. -/
def relay : State where
  program := {
    text := {
      entries := #[⟨.li, [.register .v0, .integer 0x400008], some 1⟩,
        ⟨.jr, [.register .v0], some 2⟩, ⟨.nop, [], some 3⟩] } }
  config := {}
  layout := {
    textBase := 0x400000
    textLength := 3
    dataBase := 0x10010000
    dataOffsets := #[]
    dataSize := 0 }
  bus := { memory := { base := 0x10010000, size := 0x100000 } }
  control := { pc := 0x400000 }

/-- The state after a number of cycles, whatever their outcomes. -/
def after : Nat → State → State
  | 0, s => s
  | n + 1, s => after n s.step.2

theorem after_succ (n : Nat) (s : State) : after (n + 1) s = (after n s).step.2 := by
  induction n generalizing s with
  | zero => rfl
  | succ n ih => exact ih s.step.2

/-- What holds at the start and is kept by every cycle holds along the whole run. -/
theorem after_induction (P : State → Prop) (keeps : ∀ s, P s → P s.step.2) {s : State}
    (start : P s) (n : Nat) : P (after n s) := by
  induction n with
  | zero => exact start
  | succ n ih =>
      rw [after_succ]
      exact keeps _ ih

theorem runFor_succ_of_retired (limit : Nat) (s : State) (h : s.step.1 = .retired) :
    runFor (limit + 1) s = runFor limit s.step.2 := by
  rcases he : s.step with ⟨outcome, t⟩
  rw [he] at h
  subst h
  simp only [runFor, he]

theorem runFor_succ_of_stopped (limit : Nat) (s : State) (h : s.step.1 ≠ .retired) :
    runFor (limit + 1) s = s.step := by
  rcases he : s.step with ⟨outcome, t⟩
  rw [he] at h
  cases outcome with
  | retired => exact absurd rfl h
  | halted reason => simp only [runFor, he]
  | faulted fault => simp only [runFor, he]

/-- A bounded run is cut in two where its first part ends; a part that stops is the whole. -/
theorem runFor_add (a b : Nat) (s : State) :
    runFor (a + b) s =
      if (runFor a s).1 = .retired then runFor b (runFor a s).2 else runFor a s := by
  induction a generalizing s with
  | zero => simp only [Nat.zero_add, runFor, ite_true]
  | succ a ih =>
      rw [show a + 1 + b = a + b + 1 by omega]
      by_cases h : s.step.1 = .retired
      · rw [runFor_succ_of_retired _ _ h, runFor_succ_of_retired _ _ h, ih]
      · rw [runFor_succ_of_stopped _ _ h, runFor_succ_of_stopped _ _ h, if_neg h]

theorem runFor_of_le_of_stopped {a b : Nat} {s : State} (le : a ≤ b)
    (h : (runFor a s).1 ≠ .retired) : runFor b s = runFor a s := by
  obtain ⟨rest, rfl⟩ := Nat.exists_eq_add_of_le le
  rw [runFor_add, if_neg h]

theorem runFor_succ_last {n : Nat} {s : State} (h : (runFor n s).1 = .retired) :
    runFor (n + 1) s = (runFor n s).2.step := by
  rw [runFor_add, if_pos h]
  by_cases last : (runFor n s).2.step.1 = .retired
  · rw [runFor_succ_of_retired _ _ last]
    exact Prod.ext last.symm rfl
  · exact runFor_succ_of_stopped _ _ last

theorem runFor_eq_of_stopped {a b : Nat} {s : State} (ha : (runFor a s).1 ≠ .retired)
    (hb : (runFor b s).1 ≠ .retired) : runFor a s = runFor b s := by
  rcases Nat.le_total a b with le | le
  · exact (runFor_of_le_of_stopped le ha).symm
  · exact runFor_of_le_of_stopped le hb

end Mips.Machine.State
