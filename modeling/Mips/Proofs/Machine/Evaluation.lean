import Mips.Proofs.Machine.Agreement
import Mips.Proofs.Machine.Effect
import Mips.Proofs.Machine.Loading

/-!
The evaluation of a statement. What a computation answers is fixed by what is visible and by the
layout, and the cycle of a statement ends as its execution ends on any machine that looks the same.
So a statement is evaluated once, on what is visible. The addresses of a program that is set up
are sums of their parts.
-/
namespace Mips

/-- The label of an address stands for an entry of the program, unless there is no label. -/
def Address.IsIn (p : Program) (a : Address) : Prop :=
  ∀ name, a.label = some name → ∃ target, a.target = some target ∧ target.IsIn p

namespace Machine

/-- What a register holds, or an immediate. -/
def RegisterFile.value? (file : RegisterFile) : Operand → Option Word
  | .register r => some (file.get r)
  | .integer value => some (Word.ofInt value)
  | .string _ | .address _ => none

@[simp] theorem RegisterFile.value?_register (file : RegisterFile) (r : Register) :
    file.value? (.register r) = some (file.get r) := rfl

@[simp] theorem RegisterFile.value?_integer (file : RegisterFile) (value : Int) :
    file.value? (.integer value) = some (Word.ofInt value) := rfl

theorem RegisterFile.exists_value (file : RegisterFile) {o : Operand} (h : o.IsValue) :
    ∃ w, file.value? o = some w := by
  cases o with
  | register r => exact ⟨_, rfl⟩
  | integer n => exact ⟨_, rfl⟩
  | string _ | address _ => simp [Operand.IsValue, Operand.kind] at h

/-- The address of a label as a number; without a label it is zero. -/
def Layout.origin (l : Layout) (a : Address) : Int :=
  if a.label.isSome then (a.target.bind l.targetAddress?).elim 0 fun word => word.toNat else 0

/-- The exact sum of the parts of an address. -/
def Visible.sum (l : Layout) (v : Visible) (a : Address) : Int :=
  l.origin a + a.offset.getD 0 + a.base.elim 0 fun r => (v.registers.get r).toInt

/-- The address to which the parts add up modulo the size of a word. -/
def Visible.place (l : Layout) (v : Visible) (a : Address) : Word :=
  Word.ofInt (v.sum l a)

theorem Layout.labelAddress_eq {l : Layout} {a : Address} (places : l.Places a) :
    labelAddress l a = .ok (l.origin a) := by
  simp only [labelAddress, origin]
  cases label : a.label with
  | none => rfl
  | some name =>
      obtain ⟨word, found⟩ := places name label
      simp [found]

namespace Exec

variable {α : Type} {l : Layout} {v w : Visible} {result : Except Fault Completion}

/-- Every machine that looks like this gives the answer, and it looks the same afterwards. -/
def Answers (l : Layout) (v : Visible) (x : Exec α) (a : α) : Prop :=
  ∀ s, s.visible = v → s.layout = l → (x s).1 = .ok a ∧ (x s).2.visible = v ∧ (x s).2.layout = l

/-- Every machine that looks like this ends with the result, and it looks like that then. -/
def Ends (l : Layout) (v : Visible) (x : Exec Completion) (result : Except Fault Completion)
    (w : Visible) : Prop :=
  ∀ s, s.visible = v → s.layout = l → (x s).1 = result ∧ (x s).2.visible = w

namespace Answers

theorem pure (a : α) : Answers l v (Pure.pure a) a :=
  fun _ same layout => ⟨rfl, same, layout⟩

theorem ofExcept (a : α) : Answers l v (Exec.ofExcept (.ok a)) a :=
  fun _ same layout => ⟨rfl, same, layout⟩

theorem bind {β : Type} {x : Exec α} {f : α → Exec β} {a : α} {b : β} (hx : Answers l v x a)
    (hf : Answers l v (f a) b) : Answers l v (x >>= f) b := by
  intro s same layout
  obtain ⟨answer, kept, still⟩ := hx s same layout
  rw [bind_apply]
  rcases hs : x s with ⟨found, t⟩
  rw [hs] at answer kept still
  obtain rfl : found = .ok a := answer
  exact hf t kept still

theorem layout : Answers l v (look State.layout) l :=
  fun _ same layout => ⟨congrArg _ layout, same, layout⟩

theorem readRegister (r : Register) : Answers l v (Exec.readRegister r) (v.registers.get r) := by
  intro s same layout
  subst same
  exact ⟨rfl, rfl, layout⟩

theorem registerAt {st : Statement} {index : Nat} {r : Register}
    (found : st.operands[index]? = some (.register r)) :
    Answers l v (Exec.ofExcept (Machine.registerAt st index)) r := by
  rw [Machine.registerAt, found]
  exact ofExcept r

theorem addressAt {st : Statement} {index : Nat} {a : Address}
    (found : st.operands[index]? = some (.address a)) :
    Answers l v (Exec.ofExcept (Machine.addressAt st index)) a := by
  rw [Machine.addressAt, found]
  exact ofExcept a

theorem immediateAt {st : Statement} {index : Nat} {value : Int}
    (found : st.operands[index]? = some (.integer value)) :
    Answers l v (Exec.ofExcept (Machine.immediateAt st index)) (Word.ofInt value) := by
  rw [Machine.immediateAt, found]
  exact ofExcept _

theorem valueAt {st : Statement} {index : Nat} {o : Operand} {value : Word}
    (found : st.operands[index]? = some o) (h : v.registers.value? o = some value) :
    Answers l v (Machine.valueAt st index) value := by
  simp only [Machine.valueAt, found]
  cases o with
  | register r =>
      obtain rfl := Option.some.inj h
      exact readRegister r
  | integer n =>
      obtain rfl := Option.some.inj h
      exact pure _
  | string _ | address _ => contradiction

theorem effectiveAddress {a : Address} (places : l.Places a) :
    Answers l v (Machine.effectiveAddress a) (v.place l a) := by
  refine bind layout (bind (a := l.origin a) ?_ ?_)
  · rw [Layout.labelAddress_eq places]
    exact ofExcept _
  · rw [Visible.place, Visible.sum]
    cases a.base with
    | none =>
        rw [Option.elim_none, Int.add_zero]
        exact pure _
    | some r => exact bind (readRegister r) (pure _)

end Answers

namespace Ends

theorem bind {x : Exec α} {f : α → Exec Completion} {a : α} (hx : Answers l v x a)
    (hf : Ends l v (f a) result w) : Ends l v (x >>= f) result w := by
  intro s same layout
  obtain ⟨answer, kept, still⟩ := hx s same layout
  rw [bind_apply]
  rcases hs : x s with ⟨found, t⟩
  rw [hs] at answer kept still
  obtain rfl : found = .ok a := answer
  exact hf t kept still

theorem advance : Ends l v (pure .advance) (.ok .advance) v :=
  fun _ same _ => ⟨rfl, same⟩

theorem fault (fault : Fault) : Ends l v (ofExcept (.error fault)) (.error fault) v :=
  fun _ same _ => ⟨rfl, same⟩

theorem writeResult (r : Register) (value : Word) :
    Ends l v (do
      Exec.writeRegister r value
      return .advance) (.ok .advance) { v with registers := v.registers.set r value } := by
  intro s same _
  subst same
  exact ⟨rfl, rfl⟩

end Ends

end Exec

/-- The outcome of a cycle whose statement ends like this, and what is visible then. -/
def conclude : Except Fault Completion → Visible → Outcome × Visible
  | .ok .advance, v => (.retired, { v with pc := v.pc + 4 })
  | .ok .jumped, v => (.retired, v)
  | .ok .exit, v => (.halted .exit, v)
  | .error fault, v => (.faulted fault, v)

theorem memory_conclude (result : Except Fault Completion) (v : Visible) :
    (conclude result v).2.memory = v.memory := by
  match result with
  | .ok .advance | .ok .jumped | .ok .exit | .error _ => rfl

/-- Memory covers the same addresses after a write. -/
theorem Memory.covers_of_write {m n : Memory} {address : Word} {bytes : List Byte}
    (written : m.write address bytes = .ok n) : n.base = m.base ∧ n.size = m.size := by
  rw [write] at written
  split at written
  · obtain rfl := Except.ok.inj written
    exact ⟨base_store _ _ _, size_store _ _ _⟩
  · contradiction

theorem Layout.covers_loadAt (placed : List (Word × Variable)) (m : Memory) :
    (loadAt placed m).2.base = m.base ∧ (loadAt placed m).2.size = m.size := by
  induction placed generalizing m with
  | nil => exact ⟨rfl, rfl⟩
  | cons v rest ih =>
      obtain ⟨address, v⟩ := v
      simp only [loadAt]
      split
      · exact ih m
      · split
        · next n written =>
            have kept := Memory.covers_of_write written
            exact ⟨(ih n).1.trans kept.1, (ih n).2.trans kept.2⟩
        · exact ⟨rfl, rfl⟩

/-- Memory covers the same addresses, whatever a statement does. -/
theorem Effect.covers {st : Statement} {v w : Visible} {result : Except Fault Completion}
    (h : Effect st v result w) : w.memory.base = v.memory.base ∧ w.memory.size = v.memory.size := by
  cases h with
  | faulted _ _ _ | ranOut _ _ _ | exited _ _ | idle | printed _ _ | computed _ _ _ _ | jumped _
  | linked _ _ => exact ⟨rfl, rfl⟩
  | stored address value width memory _ written => exact Memory.covers_of_write written

namespace State

variable {s : State} {st : Statement}

theorem complete_eq_conclude (line : Option Nat) (executed : Except Fault Completion × State) :
    (complete line executed).1 = (conclude executed.1 executed.2.visible).1 ∧
      (complete line executed).2.visible = (conclude executed.1 executed.2.visible).2 := by
  match executed with
  | (.ok .advance, _) | (.ok .jumped, _) | (.ok .exit, _) | (.error _, _) => exact ⟨rfl, rfl⟩

/-- A machine as loading leaves it: the layout is the plan of the program, and memory covers what
the configuration says. -/
structure SetUp (s : State) : Prop where
  planned : Layout.plan s.program s.config = .ok s.layout
  base : s.bus.memory.base = s.config.dataBase
  size : s.bus.memory.size = s.config.memorySize

namespace SetUp

theorem places (h : s.SetUp) {a : Address} (inside : a.IsIn s.program) : s.layout.Places a := by
  intro name label
  obtain ⟨target, found, isIn⟩ := inside name label
  rw [found]
  exact Layout.targetAddress?_of_plan h.planned isIn

theorem step (h : s.SetUp) : s.step.2.SetUp := by
  have same := sameSetup_step s
  have covers : s.step.2.bus.memory.base = s.bus.memory.base ∧
      s.step.2.bus.memory.size = s.bus.memory.size := by
    by_cases running : s.run = .running
    · have cycle := cycle_of_running running
      generalize s.step = next at cycle ⊢
      cases cycle with
      | astray _ | finished _ | missing _ _ _ => exact ⟨rfl, rfl⟩
      | executed index found slot here =>
          have shown := (complete_eq_conclude found.line (execute found (s.fetch.decode index))).2
          have memory := (congrArg Visible.memory shown).trans (memory_conclude _ _)
          have covers := (effect_execute found (s.fetch.decode index)).covers
          rwa [← memory] at covers
    · rw [step_of_stopped running]
      exact ⟨rfl, rfl⟩
  refine ⟨?_, ?_, ?_⟩
  · rw [same.program, same.config, same.layout]
    exact h.planned
  · rw [same.config, covers.1, h.base]
  · rw [same.config, covers.2, h.size]

theorem after (h : s.SetUp) (n : Nat) : (s.after n).SetUp :=
  after_induction SetUp (fun _ setUp => setUp.step) h n

end SetUp

theorem setUp_of_load {p : Program} {c : Config} (loaded : load p c = .ok s) : s.SetUp := by
  obtain ⟨layout, memory, -, planned, filled, rfl⟩ := exists_of_load loaded
  have covers := Layout.covers_loadAt
    ((layout.dataOffsets.toList.map fun offset =>
      layout.dataBase + BitVec.ofNat 32 offset).zip p.data.entries.toList)
    { base := c.dataBase, size := c.memorySize }
  simp only [Layout.load] at filled
  rw [filled] at covers
  exact ⟨planned, covers.1, covers.2⟩

/-- The cycle of the current statement executes it on a machine that looks the same. -/
theorem exists_complete (running : s.run = .running) (current : s.current? = some st) :
    ∃ t, t.visible = s.visible ∧ t.layout = s.layout ∧
      s.step = complete st.line (execute st t) := by
  have cycle := cycle_of_running running
  generalize s.step = next at cycle ⊢
  cases cycle with
  | astray slot | finished slot => simp [current?, slot] at current
  | missing index slot absent =>
      rw [current?_of_slot slot, absent] at current
      contradiction
  | executed index found slot here =>
      rw [current?_of_slot slot, here] at current
      obtain rfl := Option.some.inj current
      exact ⟨s.fetch.decode index, rfl, rfl, rfl⟩

theorem step_of_ends (running : s.run = .running) (current : s.current? = some st)
    {result : Except Fault Completion} {w : Visible}
    (ends : Exec.Ends s.layout s.visible (execute st) result w) :
    s.step.1 = (conclude result w).1 ∧ s.step.2.visible = (conclude result w).2 := by
  obtain ⟨t, same, layout, step⟩ := exists_complete running current
  obtain ⟨ended, shown⟩ := ends t same layout
  have completed := complete_eq_conclude st.line (execute st t)
  rwa [ended, shown, ← step] at completed

/-- The next cycle retires and gives a register a value, which `$zero` does not take. -/
structure Assigns (s : State) (r : Register) (value : Word) : Prop where
  retired : s.step.1 = .retired
  registers : ∀ q, s.step.2.bus.registers.get q =
    if q = r ∧ r ≠ .zero then value else s.bus.registers.get q
  memory : s.step.2.bus.memory = s.bus.memory
  console : s.step.2.console = s.console
  pc : s.step.2.control.pc.toNat = (s.control.pc.toNat + 4) % 0x100000000

theorem assigns_of_ends (running : s.run = .running) (current : s.current? = some st) {r : Register}
    {value : Word} (ends : Exec.Ends s.layout s.visible (execute st) (.ok .advance)
      { s.visible with registers := s.visible.registers.set r value }) : s.Assigns r value := by
  obtain ⟨retired, shown⟩ := step_of_ends running current ends
  have registers : s.step.2.bus.registers = s.bus.registers.set r value :=
    congrArg Visible.registers shown
  have pc : s.step.2.control.pc = s.control.pc + 4 := congrArg Visible.pc shown
  refine ⟨retired, ?_, congrArg Visible.memory shown, congrArg Visible.console shown, ?_⟩
  · intro q
    rw [registers, RegisterFile.get_set]
    simp only [ne_eq, and_comm, eq_comm]
  · rw [pc, BitVec.toNat_add]
    rfl

end State

end Machine

end Mips
