import Mips.Proofs.Machine.ControlFlow
import Mips.Proofs.Machine.Evaluation

/-!
Cycles that retire. A statement that advances on every machine that looks the same makes its cycle
retire, with the changes it makes and the next statement to come. What a string in memory spells is
fixed by its zero byte, so printing it shows just that.
-/
namespace Mips.Machine

namespace Memory

variable {m : Memory} {address : Word} {bytes others : List Byte}

/-- A string does not go on past a place where there is no byte or a zero. -/
theorem Spells.length_le (h : m.Spells address others)
    (stop : ∀ b ∈ m.byte? (addressFrom address bytes.length), b = 0) :
    others.length ≤ bytes.length := by
  by_contra longer
  obtain ⟨found, nonzero⟩ := h bytes.length (Nat.lt_of_not_le longer)
  exact nonzero (stop _ found)

theorem Spells.ext (h : m.Spells address bytes) (k : m.Spells address others)
    (length : bytes.length = others.length) : bytes = others := by
  refine List.ext_getElem length fun i here there => ?_
  exact Option.some.inj ((h i here).1.symm.trans (k i there).1)

theorem byte?_of_readBytes (read : m.readBytes address bytes.length = .ok bytes)
    (low : address.toNat + bytes.length ≤ 0x100000000) {i : Nat} (h : i < bytes.length) :
    m.byte? (addressFrom address i) = some bytes[i] := by
  rw [readBytes] at read
  split at read
  · next offset found =>
      obtain ⟨place, inside⟩ := offset?_eq_some_iff.mp found
      have one : m.offset? (addressFrom address i) 1 = some (offset + i) := by
        refine offset?_eq_some_iff.mpr ⟨?_, by omega⟩
        rw [addressFrom, BitVec.toNat_add, BitVec.toNat_ofNat]
        omega
      have listed : bytes[i]? = some (m.byteAt (offset + i)) := by
        rw [← Except.ok.inj read, bytesAt, List.getElem?_map, List.getElem?_range h]
        rfl
      rw [byte?, one, Option.map_some, ← listed, List.getElem?_eq_getElem h]
  · contradiction

/-- Bytes with a zero after them are a string. -/
theorem spells_of_readBytes (read : m.readBytes address (bytes ++ [0]).length = .ok (bytes ++ [0]))
    (low : address.toNat + (bytes ++ [0]).length ≤ 0x100000000) (nonzero : ∀ b ∈ bytes, b ≠ 0) :
    m.Spells address bytes ∧ m.byte? (addressFrom address bytes.length) = some 0 := by
  have stop := byte?_of_readBytes read low (i := bytes.length) (by simp)
  refine ⟨fun i h => ⟨?_, nonzero _ (List.getElem_mem h)⟩, ?_⟩
  · have here := byte?_of_readBytes read low (i := i) (by simp; omega)
    rwa [List.getElem_append_left h] at here
  · rwa [List.getElem_concat_length rfl] at stop

end Memory

/-- Printing a string that ends in memory shows its bytes. -/
theorem printFrom_spelled {s : State} {address : Word} {bytes : List Byte}
    (spells : s.bus.memory.Spells address bytes)
    (stop : s.bus.memory.byte? (addressFrom address bytes.length) = some 0) :
    (printFrom (bytesLeft s.bus.memory address) address s).1 = .ok () ∧
      (printFrom (bytesLeft s.bus.memory address) address s).2.visible = s.visible.print bytes := by
  obtain ⟨others, spelled, prints, shown⟩ :=
    printFrom_prints _ address s (covers_bytesLeft s.bus.memory address)
  have le : others.length ≤ bytes.length := by
    refine spelled.length_le fun b found => ?_
    exact Option.some.inj (found.symm.trans stop)
  generalize (printFrom (bytesLeft s.bus.memory address) address s).1 = result at prints ⊢
  cases prints with
  | ended zero =>
      have ge : bytes.length ≤ others.length := by
        refine spells.length_le fun b found => ?_
        exact Option.some.inj (found.symm.trans zero)
      rw [spells.ext spelled (Nat.le_antisymm ge le)]
      exact ⟨rfl, shown⟩
  | ranOut outside =>
      have ge : bytes.length ≤ others.length := by
        refine spells.length_le fun b found => ?_
        rw [outside] at found
        cases found
      rw [Nat.le_antisymm ge le, outside] at stop
      cases stop

theorem Exec.bind_pure_apply {α β : Type} (x : Exec α) (b : β) (s : State) :
    (x >>= fun _ => pure b) s = ((x s).1.map fun _ => b, (x s).2) := by
  rw [bind_apply]
  rcases x s with ⟨result, t⟩
  cases result <;> rfl

/-- Lines of statements that print the string at an address. -/
def printStatements (place : Address) (line : Nat) : List Statement :=
  [⟨.la, [.register .a0, .address place], some line⟩,
    ⟨.li, [.register .v0, .integer 4], some (line + 1)⟩,
    ⟨.syscall, [], some (line + 2)⟩]

namespace State

variable {s t : State} {st : Statement} {statements : List Statement}

/-- The service reads its number and the address of the string, and then does what the loop does. -/
theorem execute_printString (prints : s.visible.PrintsString st) :
    ∃ t run, t.visible = s.visible ∧
      run = printFrom (bytesLeft t.bus.memory (t.bus.registers.get .a0))
        (t.bus.registers.get .a0) t ∧
      execute st s = (run.1.map fun _ => .advance, run.2) := by
  obtain ⟨instruction, service⟩ := prints
  have read : Exec.readRegister .v0 s = (.ok 4, { s with bus := s.bus.carry 4 }) := by
    rw [← service]
    rfl
  have asks : execute st = syscall := by simp only [execute, instruction, behaviour]
  -- The two registers have passed through the transport slot, which is not visible.
  let asked : State := { s with bus := (s.bus.carry 4).carry (s.bus.registers.get .a0) }
  have loops : execute st s = (printFrom (bytesLeft asked.bus.memory (s.bus.registers.get .a0))
      (s.bus.registers.get .a0) >>= fun _ => pure .advance) asked := by
    rw [asks, syscall, Exec.bind_apply, read]
    rfl
  exact ⟨asked, _, rfl, rfl, loops.trans (Exec.bind_pure_apply _ _ _)⟩

/-- On every machine that looks like this one the statement advances, and what is visible then is
the same. -/
def Advances (s : State) (st : Statement) (v : Visible) : Prop :=
  ∀ t, t.visible = s.visible → t.layout = s.layout →
    (execute st t).1 = .ok .advance ∧ (execute st t).2.visible = v

section Advances

variable {r : Register} {line : Option Nat}

theorem advances_la {place : Address} (alone : place.isLabelOnly = true) {address : Word}
    (placed : place.target.bind s.layout.targetAddress? = some address) :
    s.Advances ⟨.la, [.register r, .address place], line⟩
      { s.visible with registers := s.visible.registers.set r address } := by
  intro t same layout
  have executed : execute ⟨.la, [.register r, .address place], line⟩ t =
      (effectiveAddress place >>= fun address => Exec.writeRegister r address >>= fun _ =>
        pure .advance) t := rfl
  rw [executed, Exec.bind_apply, Exec.effectiveAddress_placed alone (layout ▸ placed), ← same]
  exact ⟨rfl, rfl⟩

theorem advances_li (value : Int) :
    s.Advances ⟨.li, [.register r, .integer value], line⟩
      { s.visible with registers := s.visible.registers.set r (Word.ofInt value) } := by
  intro t same _
  rw [← same]
  exact ⟨rfl, rfl⟩

/-- The service for strings prints the string at the address in `$a0`. -/
theorem advances_printString {bytes : List Byte} (service : s.bus.registers.get .v0 = 4)
    (spells : s.bus.memory.Spells (s.bus.registers.get .a0) bytes)
    (stop : s.bus.memory.byte? (addressFrom (s.bus.registers.get .a0) bytes.length) = some 0) :
    s.Advances ⟨.syscall, [], line⟩ (s.visible.print bytes) := by
  intro t same _
  have prints : t.visible.PrintsString ⟨.syscall, [], line⟩ := ⟨rfl, same ▸ service⟩
  obtain ⟨u, run, looks, computed, executed⟩ := execute_printString prints
  have shown := looks.trans same
  have registers : u.bus.registers = s.bus.registers := congrArg Visible.registers shown
  have memory : u.bus.memory = s.bus.memory := congrArg Visible.memory shown
  rw [← memory, ← registers] at spells stop
  obtain ⟨ended, printed⟩ := printFrom_spelled spells stop
  rw [← computed] at ended printed
  rw [executed, ended, printed, shown]
  exact ⟨rfl, rfl⟩

end Advances

/-- A running machine whose program counter stands before these statements of the text. -/
structure StandsBefore (s : State) (statements : List Statement) : Prop where
  running : s.run = .running
  room : s.layout.HasRoom
  length : s.layout.textLength = s.program.text.size
  here : ∃ before later, s.program.text.entries.toList = before ++ (statements ++ later) ∧
    s.control.pc.toNat = s.layout.textBase.toNat + 4 * before.length

/-- The next cycles retire these statements, one after the other. -/
inductive Retires : State → List Statement → State → Prop
  | nil (s : State) : Retires s [] s
  | cons {s t : State} {st : Statement} {statements : List Statement}
      (current : s.current? = some st) (retired : s.step.1 = .retired)
      (later : Retires s.step.2 statements t) : Retires s (st :: statements) t

theorem Retires.runFor (h : Retires s statements t) :
    s.runFor statements.length = (.retired, t) := by
  induction h with
  | nil s => rfl
  | cons current retired later ih =>
      rw [List.length_cons, runFor_succ_of_retired _ _ retired]
      exact ih

namespace StandsBefore

theorem slot (h : s.StandsBefore (st :: statements)) :
    ∃ before later, s.program.text.entries.toList = before ++ (st :: statements ++ later) ∧
      s.layout.textSlot? s.control.pc = some (.statement before.length) := by
  obtain ⟨before, later, entries, place⟩ := h.here
  refine ⟨before, later, entries, Layout.textSlot?_eq_statement_iff.mpr ⟨?_, place⟩⟩
  rw [h.length, Segment.size, ← Array.length_toList, entries]
  simp

theorem current? (h : s.StandsBefore (st :: statements)) : s.current? = some st := by
  obtain ⟨before, later, entries, slot⟩ := h.slot
  rw [current?_of_slot slot, Segment.get?, ← Array.getElem?_toList, entries]
  simp

/-- A statement that advances makes its cycle retire. -/
theorem step (h : s.StandsBefore (st :: statements)) {v : Visible} (advances : s.Advances st v) :
    s.step.1 = .retired ∧ s.step.2.visible = { v with pc := s.control.pc + 4 } ∧
      s.step.2.StandsBefore statements := by
  obtain ⟨before, later, entries, slot⟩ := h.slot
  obtain ⟨retired, shown⟩ := step_of_ends h.running h.current? advances
  have straight : v.pc = s.control.pc := by
    have effect := effect_execute st s
    obtain ⟨result, same⟩ := advances s rfl rfl
    rw [result, same] at effect
    exact effect.pc_eq (by simp)
  replace shown : s.step.2.visible = { v with pc := s.control.pc + 4 } := straight ▸ shown
  have same := sameSetup_step s
  have pc : s.step.2.control.pc = s.control.pc + 4 := congrArg Visible.pc shown
  refine ⟨retired, shown, ?_, same.layout ▸ h.room, ?_, before ++ [st], later, ?_, ?_⟩
  · rw [run_step, retired]
    rfl
  · rw [same.layout, same.program]
    exact h.length
  · rw [same.program, entries]
    simp
  · rw [pc, same.layout, Layout.toNat_next h.room slot, List.length_append, List.length_singleton]

end StandsBefore

/-- A machine that was loaded stands before the statements from its entry on. -/
theorem standsBefore_of_load {p : Program} {c : Config} (loaded : load p c = .ok s)
    (room : c.textBase.toNat + 4 * p.text.size < 0x100000000) :
    s.StandsBefore (p.text.entries.toList.drop (entryIndex p)) := by
  obtain ⟨program, running, planned⟩ := load_ok loaded
  obtain ⟨labelled, entry⟩ := entered_of_load loaded
  have length := Layout.textLength_of_plan planned
  have within : entryIndex p ≤ p.text.entries.toList.length := entryIndex_le labelled
  have room := Layout.hasRoom_of_plan planned room
  refine ⟨running, room, program ▸ length, p.text.entries.toList.take (entryIndex p), [], ?_, ?_⟩
  · rw [program, List.append_nil, List.take_append_drop]
  · rw [entry, Layout.toNat_textAddress room (length ▸ within), List.length_take_of_le within]

/-- The statements that print a string retire on any machine on which it has an address and an end,
and they append its bytes to the console. -/
theorem StandsBefore.prints {place : Address} {line : Nat}
    (h : s.StandsBefore (printStatements place line)) (alone : place.isLabelOnly = true)
    {address : Word} (placed : place.target.bind s.layout.targetAddress? = some address)
    {bytes : List Byte} (spells : s.bus.memory.Spells address bytes)
    (stop : s.bus.memory.byte? (addressFrom address bytes.length) = some 0) :
    ∃ t, s.Retires (printStatements place line) t ∧
      t.console = s.console ++ String.ofList (bytes.map character) := by
  obtain ⟨retired₁, shown₁, next₁⟩ := h.step (advances_la alone placed)
  obtain ⟨retired₂, shown₂, next₂⟩ := next₁.step (advances_li 4)
  rw [shown₁] at shown₂
  have registers : s.step.2.step.2.bus.registers =
      (s.bus.registers.set .a0 address).set .v0 4 := congrArg Visible.registers shown₂
  have memory : s.step.2.step.2.bus.memory = s.bus.memory := congrArg Visible.memory shown₂
  have service : s.step.2.step.2.bus.registers.get .v0 = 4 := by
    rw [registers, RegisterFile.get_set, if_pos (by decide)]
  have argument : s.step.2.step.2.bus.registers.get .a0 = address := by
    rw [registers, RegisterFile.get_set, if_neg (by decide), RegisterFile.get_set,
      if_pos (by decide)]
  rw [← memory, ← argument] at spells stop
  obtain ⟨retired₃, shown₃, -⟩ := next₂.step (advances_printString service spells stop)
  rw [shown₂] at shown₃
  exact ⟨_, .cons h.current? retired₁ (.cons next₁.current? retired₂
    (.cons next₂.current? retired₃ (.nil _))), congrArg Visible.console shown₃⟩

end State

end Mips.Machine
