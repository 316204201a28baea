import Mips.Machine.State
import Mips.Proofs.Machine.Checked
import Mips.Proofs.Program.Labels

/-!
Loading a program. Each entry of the program gets an address, and loading fails for one of three
reasons: the program is not valid, its variables do not fit, or its data lie outside of memory.
-/
namespace Mips.Machine

namespace Layout

theorem pack_error {capacity position : Nat} {declared : List Variable} {fault : Fault}
    (h : pack capacity position declared = .error fault) :
    ∃ required, fault = .dataSegmentTooLarge required capacity := by
  induction declared generalizing position with
  | nil => contradiction
  | cons v rest ih =>
      simp only [pack] at h
      split at h
      · exact ⟨_, (Except.error.inj h).symm⟩
      · next fits =>
          generalize min (alignUp position v.kind.alignment + v.size) sizeBound = stop at h
          cases packed : pack capacity stop rest with
          | ok found => simp [packed, Except.map] at h
          | error found =>
              obtain rfl : found = fault := by simpa [packed, Except.map] using h
              exact ih packed

theorem length_pack {capacity position : Nat} {declared : List Variable}
    {packed : List Nat × Nat} (h : pack capacity position declared = .ok packed) :
    packed.1.length = declared.length := by
  induction declared generalizing position packed with
  | nil =>
      obtain rfl := Except.ok.inj h
      rfl
  | cons v rest ih =>
      simp only [pack] at h
      split at h
      · contradiction
      · generalize min (alignUp position v.kind.alignment + v.size) sizeBound = stop at h
        cases found : pack capacity stop rest with
        | error fault => simp [found, Except.map] at h
        | ok more =>
            simp only [found, Except.map, Except.ok.injEq] at h
            simp [← h, ih found]

theorem plan_error {p : Program} {c : Config} {fault : Fault} (h : plan p c = .error fault) :
    ∃ required, fault = .dataSegmentTooLarge required c.memorySize.toNat := by
  simp only [plan] at h
  cases packed : pack c.memorySize.toNat 0 p.data.entries.toList with
  | ok found => simp [packed, Except.map] at h
  | error found =>
      obtain rfl : found = fault := by simpa [packed, Except.map] using h
      exact pack_error packed

theorem targetAddress?_of_plan {p : Program} {c : Config} {l : Layout} (h : plan p c = .ok l)
    {target : Target} (inside : target.IsIn p) : ∃ word, l.targetAddress? target = some word := by
  simp only [plan] at h
  cases packed : pack c.memorySize.toNat 0 p.data.entries.toList with
  | error fault => simp [packed, Except.map] at h
  | ok found =>
      simp only [packed, Except.map, Except.ok.injEq] at h
      subst h
      cases target with
      | text index => exact ⟨_, if_pos inside⟩
      | data index =>
          have length : found.1.length = p.data.size := length_pack packed
          have lt : index < found.1.length := length ▸ inside
          simp [targetAddress?, dataAddress?, lt]

theorem textLength_of_plan {p : Program} {c : Config} {l : Layout} (h : plan p c = .ok l) :
    l.textLength = p.text.size := by
  simp only [plan] at h
  cases packed : pack c.memorySize.toNat 0 p.data.entries.toList with
  | error fault => simp [packed, Except.map] at h
  | ok found =>
      simp only [packed, Except.map, Except.ok.injEq] at h
      rw [← h]

theorem textBase_of_plan {p : Program} {c : Config} {l : Layout} (h : plan p c = .ok l) :
    l.textBase = c.textBase := by
  simp only [plan] at h
  cases packed : pack c.memorySize.toNat 0 p.data.entries.toList with
  | error fault => simp [packed, Except.map] at h
  | ok found =>
      simp only [packed, Except.map, Except.ok.injEq] at h
      rw [← h]

theorem lt_of_textSlot? {l : Layout} {address : Word} {index : Nat}
    (h : l.textSlot? address = some (.statement index)) : index < l.textLength := by
  simp only [textSlot?] at h
  split at h
  · split at h
    · next inside =>
        obtain rfl := TextSlot.statement.inj (Option.some.inj h)
        exact inside
    · split at h <;> simp at h
  · contradiction

theorem loadAt_error {placed : List (Word × Variable)} {m : Memory} {fault : Fault}
    (h : (loadAt placed m).1 = .error fault) :
    ∃ address length, fault = .memoryOutOfRange address length := by
  induction placed generalizing m with
  | nil => contradiction
  | cons v rest ih =>
      obtain ⟨address, v⟩ := v
      simp only [loadAt] at h
      split at h
      · exact ih h
      · split at h
        · exact ih h
        · next raised write =>
            rw [← Except.error.inj h]
            exact ⟨_, _, Memory.write_error write⟩

end Layout

namespace State

/-- Loading succeeds in one way: a valid program runs under the layout that was planned, with its
data in memory. -/
theorem exists_of_load {p : Program} {c : Config} {s : State} (h : load p c = .ok s) :
    ∃ layout memory, p.validate = .ok () ∧ Layout.plan p c = .ok layout ∧
      layout.load p { base := c.dataBase, size := c.memorySize } = (.ok (), memory) ∧
      s = {
        program := p, config := c, layout
        bus := { registers := initialRegisters c, memory }
        control := { pc := layout.textAddress (entryIndex p) } } := by
  simp only [load] at h
  split at h
  · contradiction
  · next valid =>
      split at h
      · contradiction
      · next layout planned =>
          split at h
          · contradiction
          · next memory loaded =>
              exact ⟨layout, memory, valid, planned, loaded, (Except.ok.inj h).symm⟩

/-- A machine that was loaded runs its program under the layout that was planned. -/
theorem load_ok {p : Program} {c : Config} {s : State} (h : load p c = .ok s) :
    s.program = p ∧ s.run = .running ∧ Layout.plan p c = .ok s.layout := by
  obtain ⟨layout, memory, -, planned, -, rfl⟩ := exists_of_load h
  exact ⟨rfl, rfl, planned⟩

theorem empty_of_load {p : Program} {c : Config} {s : State} (h : load p c = .ok s) :
    s.problems = [] ∧ s.cycles = 0 := by
  obtain ⟨layout, memory, -, -, -, rfl⟩ := exists_of_load h
  exact ⟨rfl, rfl⟩

/-- A machine that was loaded has a valid program and starts at its entry. -/
theorem entered_of_load {p : Program} {c : Config} {s : State} (h : load p c = .ok s) :
    p.WellLabelled ∧ s.control.pc = s.layout.textAddress (entryIndex p) := by
  obtain ⟨layout, memory, valid, -, -, rfl⟩ := exists_of_load h
  exact ⟨(Program.validate_eq_ok_iff p).mp valid, rfl⟩

theorem entryIndex_le {p : Program} (h : p.WellLabelled) : entryIndex p ≤ p.text.size := by
  rw [entryIndex]
  cases bound : p.text.labelIndex? "main" with
  | none => exact Nat.zero_le _
  | some index => exact Nat.le_of_lt (h.text _ (Segment.mem_labels_of_labelIndex? bound))

/-- Only validation finds a program invalid. -/
theorem load_eq_invalidProgram_iff {p : Program} {c : Config} {e : ProgramError} :
    load p c = .error (.invalidProgram e) ↔ p.validate = .error e := by
  simp only [load]
  cases p.validate with
  | error found => simp
  | ok _ =>
      refine iff_of_false ?_ (by simp)
      intro h
      simp only at h
      split at h
      · next fault planned =>
          obtain ⟨required, same⟩ := Layout.plan_error planned
          simp [same] at h
      · next layout planned =>
          split at h
          · next fault memory loaded =>
              obtain ⟨address, length, same⟩ := Layout.loadAt_error (congrArg Prod.fst loaded)
              simp [same] at h
          · contradiction

end State

end Mips.Machine
