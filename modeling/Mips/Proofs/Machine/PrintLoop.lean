import Mips.Proofs.Machine.Evaluation
import Mips.Proofs.Machine.Atomicity
import Mips.Proofs.Machine.Advance

/-!
The loop that prints a string. Its rounds are given here without a bound on their number, and every
run of it ends, since no memory holds all addresses: at the first zero byte, or at the first address
that is not in memory. So the bound on the bytes that are left changes nothing, and the service for
strings prints the string at its address, or what memory has of it.
-/
namespace Mips.Machine

/-- One round: the byte at an address is printed and the next address is the answer, unless the
byte is zero. -/
def printByte (address : Word) : Exec (Option Word) := do
  let byte ← Exec.readMemory address 1 false
  if byte = 0 then return none
  else
    Exec.print [Char.ofNat byte.toNat]
    return some (address + 1)

/-- The rounds from an address on, up to the one that faults or has no next address. -/
inductive PrintLoop : Word → State → Except Fault Unit × State → Prop
  | ended {address : Word} {s t : State} (last : printByte address s = (.ok none, t)) :
      PrintLoop address s (.ok (), t)
  | faulted {address : Word} {s t : State} {fault : Fault}
      (last : printByte address s = (.error fault, t)) : PrintLoop address s (.error fault, t)
  | again {address next : Word} {s t : State} {run : Except Fault Unit × State}
      (round : printByte address s = (.ok (some next), t)) (later : PrintLoop next t run) :
      PrintLoop address s run

namespace PrintLoop

variable {address : Word} {s : State} {run other : Except Fault Unit × State}

theorem unique (h : PrintLoop address s run) (k : PrintLoop address s other) : run = other := by
  induction h with
  | ended last =>
      cases k with
      | ended last' => cases last.symm.trans last'; rfl
      | faulted last' => cases last.symm.trans last'
      | again round' _ => cases last.symm.trans round'
  | faulted last =>
      cases k with
      | ended last' => cases last.symm.trans last'
      | faulted last' => cases last.symm.trans last'; rfl
      | again round' _ => cases last.symm.trans round'
  | again round _ ih =>
      cases k with
      | ended last' => cases round.symm.trans last'
      | faulted last' => cases round.symm.trans last'
      | again round' later' =>
          cases round.symm.trans round'
          exact ih later'

end PrintLoop

section Round

variable {address : Word} {s : State} {b : Byte}

theorem printByte_outside (outside : s.bus.memory.byte? address = none) :
    printByte address s = (.error (.memoryOutOfRange address 1), s) := by
  simp only [printByte, Exec.bind_apply, Exec.readMemory_one, outside]

theorem printByte_zero (zero : s.bus.memory.byte? address = some 0) :
    printByte address s = (.ok none, { s with bus := s.bus.carry 0 }) := by
  simp only [printByte, Exec.bind_apply, Exec.readMemory_one, zero]
  rfl

theorem printByte_nonzero (found : s.bus.memory.byte? address = some b) (nonzero : b ≠ 0) :
    printByte address s = (.ok (some (address + 1)), s.printed b) := by
  simp only [printByte, Exec.bind_apply, Exec.readMemory_one, found,
    if_neg (setWidth_ne_zero nonzero), Exec.print, Exec.change, toNat_setWidth]
  rfl

end Round

/-- A bound that covers the rest of memory never ends the loop: what it computes is the run of the
loop without a bound. -/
theorem printLoop_printFrom (left : Nat) (address : Word) (s : State)
    (enough : Covers s.bus.memory left address) :
    PrintLoop address s (printFrom left address s) := by
  induction left generalizing address s with
  | zero =>
      rw [printFrom_ranOut enough.outside]
      exact .faulted (printByte_outside enough.outside)
  | succ left ih =>
      cases found : s.bus.memory.byte? address with
      | none =>
          rw [printFrom_ranOut found]
          exact .faulted (printByte_outside found)
      | some b =>
          by_cases zero : b = 0
          · subst zero
            rw [printFrom_zero found]
            exact .ended (printByte_zero found)
          · rw [printFrom_nonzero found zero]
            have here : (s.bus.memory.byte? address).isSome = true := by simp [found]
            exact .again (printByte_nonzero found zero) (ih _ _ (enough.next here))

namespace Memory

variable {m : Memory} {address : Word} {bytes : List Byte}

/-- The bytes of a string stand in memory from an address on, and the first zero behind them; no
address of theirs wraps. -/
structure HoldsString (m : Memory) (address : Word) (bytes : List Byte) : Prop where
  unwrapped : address.toNat + bytes.length < 0x100000000
  spells : m.Spells address bytes
  zero : m.byte? (addressFrom address bytes.length) = some 0

theorem Spells.isSome_byte? (h : m.Spells address bytes)
    (last : (m.byte? (addressFrom address bytes.length)).isSome = true) :
    (m.byte? address).isSome = true := by
  cases bytes with
  | nil => rwa [List.length_nil, addressFrom_zero] at last
  | cons b rest =>
      have first := (h 0 (Nat.succ_pos _)).1
      rw [addressFrom_zero] at first
      simp [first]

/-- Addresses that are all in memory do not wrap. -/
theorem Spells.unwrapped (h : m.Spells address bytes)
    (last : (m.byte? (addressFrom address bytes.length)).isSome = true) :
    address.toNat + bytes.length < 0x100000000 := by
  induction bytes generalizing address with
  | nil => exact address.isLt
  | cons b rest ih =>
      have here := h.isSome_byte? last
      rw [List.length_cons, addressFrom_succ] at last
      have next := toNat_add_one here (h.tail.isSome_byte? last)
      have below := ih h.tail last
      rw [List.length_cons]
      omega

end Memory

namespace State

variable {s : State}

/-- The cycle of a machine that prints a string: it ends as the only run of the loop ends. -/
structure LoopsTo (s : State) (run : Except Fault Unit × State) : Prop where
  loop : ∃ t, t.visible = s.visible ∧
    ∀ other, PrintLoop (s.bus.registers.get .a0) t other ↔ other = run
  step : ∃ line, s.step = complete line (run.1.map fun _ => .advance, run.2)

/-- What a machine prints that has a string to print, and how its cycle ends. -/
structure PrintsItsString (s : State) : Prop where
  ends : ∃ run, s.LoopsTo run
  whole : ∀ bytes, s.bus.memory.HoldsString (s.bus.registers.get .a0) bytes →
    s.step.1 = .retired ∧
      s.step.2.visible = { s.visible.print bytes with pc := s.control.pc + 4 }
  part : (¬∃ bytes, s.bus.memory.HoldsString (s.bus.registers.get .a0) bytes) →
    ∃ bytes, s.bus.memory.Spells (s.bus.registers.get .a0) bytes ∧
      s.bus.memory.byte? (addressFrom (s.bus.registers.get .a0) bytes.length) = none ∧
      s.step.1 = .faulted
        (.memoryOutOfRange (addressFrom (s.bus.registers.get .a0) bytes.length) 1) ∧
      s.step.2.visible = s.visible.print bytes

/-- Whatever is in memory and wherever the string begins, the service for strings ends. It prints
the string if there is one, and else what is in memory from its address on. -/
theorem printsItsString (running : s.run = .running) (prints : s.PrintsString) :
    s.PrintsItsString := by
  obtain ⟨st, current, prints⟩ := prints
  obtain ⟨t, same, -, step⟩ := exists_complete running current
  obtain ⟨u, run, looks, computed, executed⟩ := execute_printString (same ▸ prints)
  have shown := looks.trans same
  have registers : u.bus.registers = s.bus.registers := congrArg Visible.registers shown
  have memory : u.bus.memory = s.bus.memory := congrArg Visible.memory shown
  have covers := covers_bytesLeft u.bus.memory (u.bus.registers.get .a0)
  have loop := printLoop_printFrom _ _ u covers
  rw [← computed] at loop
  have concluded := complete_eq_conclude st.line (execute st t)
  rw [← step, executed] at concluded
  refine ⟨⟨run, ⟨u, shown, fun other => ⟨fun h => ?_, ?_⟩⟩, st.line, executed ▸ step⟩, ?_, ?_⟩
  · exact h.unique (registers ▸ loop)
  · rintro rfl
    exact registers ▸ loop
  · rintro bytes ⟨-, spells, zero⟩
    rw [← memory, ← registers] at spells zero
    obtain ⟨ended, printed⟩ := printFrom_spelled spells zero
    rw [← computed] at ended printed
    rw [ended, printed, shown] at concluded
    exact concluded
  · intro without
    obtain ⟨bytes, spells, ends, printed⟩ := printFrom_prints _ _ u covers
    rw [← computed] at ends printed
    rw [memory, registers] at spells ends
    rw [printed, shown] at concluded
    generalize run.1 = result at ends concluded
    cases ends with
    | ended zero =>
        exact absurd ⟨bytes, spells.unwrapped (by simp [zero]), spells, zero⟩ without
    | ranOut outside => exact ⟨bytes, spells, outside, concluded⟩

/-- A machine that prints a string at the last two addresses there are. Its memory is larger, but
has no more addresses. -/
def lastString : State where
  program := { text := { entries := #[⟨.syscall, [], some 3⟩] } }
  config := { memorySize := 4, dataBase := 0xFFFFFFFE }
  layout := {
    textBase := 0x400000
    textLength := 1
    dataBase := 0xFFFFFFFE
    dataOffsets := #[0]
    dataSize := 4 }
  bus := {
    registers := (({} : RegisterFile).set .v0 4).set .a0 0xFFFFFFFE
    memory := ({ base := 0xFFFFFFFE, size := 4 } : Memory).store 0 [0x68, 0x69] }
  control := { pc := 0x400000 }

/-- The address after the last one is zero, and there the loop has run out of memory. -/
theorem printsItsString_lastString :
    lastString.run = .running ∧ lastString.PrintsString ∧ lastString.PrintsItsString ∧
      lastString.step.1 = .faulted (.memoryOutOfRange 0 1) ∧
      lastString.step.2.console = "hi" := by
  have prints : lastString.PrintsString := ⟨⟨.syscall, [], some 3⟩, rfl, rfl, rfl⟩
  exact ⟨rfl, prints, printsItsString rfl prints, by decide +kernel, by decide +kernel⟩

end State

end Mips.Machine
