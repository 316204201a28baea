import Mips.Proofs.Machine.Cycle

/-!
What passes over the bus leaves no trace. Two machines agree if they differ at most in the
transport slot, the instruction register, the data slot of the control unit, the stamp of the bus
and the channel. Every computation of a statement is blind to these: it answers agreeing machines
alike and leaves them in agreement, and so does every cycle.
-/
namespace Mips.Machine

/-- The same bytes at the same addresses, however they are stored. -/
structure Memory.Same (m n : Memory) : Prop where
  base : m.base = n.base
  size : m.size = n.size
  image : m.image = n.image

namespace Memory

theorem image_eq_iff {m n : Memory} (size : m.size = n.size) :
    m.image = n.image ↔ ∀ i, i < m.size.toNat → m.byteAt i = n.byteAt i := by
  simp [image, bytesAt, ← size, List.map_inj_left]

theorem Same.byteAt_eq {m n : Memory} (h : m.Same n) {i : Nat} (inside : i < m.size.toNat) :
    m.byteAt i = n.byteAt i :=
  (image_eq_iff h.size).mp h.image i inside

theorem Same.offset?_eq {m n : Memory} (h : m.Same n) (address : Word) (length : Nat) :
    m.offset? address length = n.offset? address length := by
  simp only [offset?, h.base, h.size]

theorem Same.readBytes_eq {m n : Memory} (h : m.Same n) (address : Word) (length : Nat) :
    m.readBytes address length = n.readBytes address length := by
  simp only [readBytes, ← h.offset?_eq]
  cases found : m.offset? address length with
  | none => rfl
  | some offset =>
      have inside := (offset?_eq_some_iff.mp found).2
      simp only [bytesAt, Except.ok.injEq, List.map_inj_left, List.mem_range]
      intro i hi
      exact h.byteAt_eq (by omega)

theorem base_store (m : Memory) (offset : Nat) (bytes : List Byte) :
    (m.store offset bytes).base = m.base := by
  induction bytes generalizing m offset with
  | nil => rfl
  | cons byte rest ih => exact ih _ _

theorem size_store (m : Memory) (offset : Nat) (bytes : List Byte) :
    (m.store offset bytes).size = m.size := by
  induction bytes generalizing m offset with
  | nil => rfl
  | cons byte rest ih => exact ih _ _

theorem Same.store {m n : Memory} (h : m.Same n) (offset : Nat) (bytes : List Byte) :
    (m.store offset bytes).Same (n.store offset bytes) := by
  refine ⟨?_, ?_, ?_⟩
  · simpa only [base_store] using h.base
  · simpa only [size_store] using h.size
  · refine (image_eq_iff (by simpa only [size_store] using h.size)).mpr ?_
    intro i hi
    rw [size_store] at hi
    rw [byteAt_store, byteAt_store, h.byteAt_eq hi]

end Memory

/-- Two machines that agree on everything but what is on its way over the bus and who listens. -/
structure State.Agrees (s t : State) : Prop where
  program : s.program = t.program
  config : s.config = t.config
  layout : s.layout = t.layout
  pc : s.control.pc = t.control.pc
  registers : s.bus.registers = t.bus.registers
  memory : s.bus.memory.Same t.bus.memory
  console : s.console = t.console
  run : s.run = t.run
  cycles : s.cycles = t.cycles
  problems : s.problems = t.problems

namespace Exec

variable {α β : Type}

/-- A computation that answers agreeing machines alike and keeps them in agreement. -/
def Blind (x : Exec α) : Prop :=
  ∀ s t : State, s.Agrees t → (x s).1 = (x t).1 ∧ (x s).2.Agrees (x t).2

theorem Blind.bind {x : Exec α} {f : α → Exec β} (hx : x.Blind) (hf : ∀ a, (f a).Blind) :
    (x >>= f).Blind := by
  intro s t h
  obtain ⟨same, agree⟩ := hx s t h
  rcases hs : x s with ⟨result, s'⟩
  rcases ht : x t with ⟨result', t'⟩
  rw [hs, ht] at same agree
  cases same
  simp only [bind_apply, hs, ht]
  cases result with
  | ok a => exact hf a s' t' agree
  | error fault => exact ⟨rfl, agree⟩

theorem Blind.readRegister (r : Register) : Blind (Exec.readRegister r) := by
  intro s t h
  refine ⟨?_, { h with }⟩
  simp only [Exec.readRegister, transfer, Bus.readRegister, Bus.carry, Bus.publish, h.registers]

theorem Blind.writeRegister (r : Register) (value : Word) :
    Blind (Exec.writeRegister r value) := by
  intro s t h
  refine ⟨rfl, { h with registers := ?_ }⟩
  simp only [Exec.writeRegister, transfer, Bus.writeRegister, Bus.publish, h.registers]

theorem Blind.readMemory (address : Word) (length : Nat) (signed : Bool) :
    Blind (Exec.readMemory address length signed) := by
  intro s t h
  simp only [Exec.readMemory, transfer, Bus.readMemory, Memory.read, Memory.readUnsigned,
    ← h.memory.readBytes_eq]
  split
  · exact ⟨rfl, { h with }⟩
  · exact ⟨rfl, { h with }⟩

theorem Blind.writeMemory (address value : Word) (length : Nat) :
    Blind (Exec.writeMemory address value length) := by
  intro s t h
  simp only [Exec.writeMemory, transfer, Bus.writeMemory, Memory.write, ← h.memory.offset?_eq]
  cases s.bus.memory.offset? address (value.lowBytes length).length with
  | none => exact ⟨rfl, { h with }⟩
  | some offset => exact ⟨rfl, { h with memory := h.memory.store offset _ }⟩

/-- Every value that comes out of a slot was put there by the same operation. -/
theorem Composed.blind {x : Exec α} (h : Composed x) : x.Blind := by
  induction h with
  | pure a | ofExcept result => exact fun s t h => ⟨rfl, h⟩
  | bind _ _ ihx ihf => exact Blind.bind ihx ihf
  | layout => exact fun s t h => ⟨congrArg Except.ok h.layout, h⟩
  | bytesLeft address =>
      intro s t h
      refine ⟨?_, h⟩
      simp only [look, Machine.bytesLeft, h.memory.base, h.memory.size]
  | nextAddress =>
      intro s t h
      refine ⟨?_, h⟩
      simp only [look, h.pc]
  | readRegister r => exact Blind.readRegister r
  | writeRegister r value => exact Blind.writeRegister r value
  | readMemory address length signed => exact Blind.readMemory address length signed
  | writeMemory address value length => exact Blind.writeMemory address value length
  | print text =>
      intro s t h
      exact ⟨rfl, { h with console := congrArg (· ++ String.ofList text) h.console }⟩
  | jumpTo target => exact fun s t h => ⟨rfl, { h with pc := rfl }⟩
  | jumpToRegister r =>
      intro s t h
      have value : s.bus.registers.get r = t.bus.registers.get r := by rw [h.registers]
      exact ⟨rfl, { h with pc := value }⟩

end Exec

namespace State

theorem Agrees.fetch {s t : State} (h : s.Agrees t) : s.fetch.Agrees t.fetch :=
  { h with }

theorem Agrees.decode {s t : State} (h : s.Agrees t) (index : Nat) :
    (s.decode index).Agrees (t.decode index) :=
  { h with cycles := congrArg (· + 1) h.cycles }

theorem Agrees.fail {s t : State} (h : s.Agrees t) (fault : Fault) (line : Option Nat) :
    (s.fail fault line).1 = (t.fail fault line).1 ∧
      (s.fail fault line).2.Agrees (t.fail fault line).2 :=
  ⟨rfl, { h with run := rfl, problems := congrArg (· ++ [fault.problem line]) h.problems }⟩

theorem Agrees.halt {s t : State} (h : s.Agrees t) (reason : HaltReason) :
    (s.halt reason).1 = (t.halt reason).1 ∧ (s.halt reason).2.Agrees (t.halt reason).2 :=
  ⟨rfl, { h with run := rfl }⟩

theorem Agrees.complete {s t : State} (h : s.Agrees t) (line : Option Nat)
    (result : Except Fault Completion) :
    (complete line (result, s)).1 = (complete line (result, t)).1 ∧
      (complete line (result, s)).2.Agrees (complete line (result, t)).2 := by
  match result with
  | .ok .advance => exact ⟨rfl, { h with pc := congrArg (· + 4) h.pc }⟩
  | .ok .jumped => exact ⟨rfl, h⟩
  | .ok .exit => exact h.halt .exit
  | .error fault => exact h.fail fault line

theorem Agrees.cycle {s t : State} (h : s.Agrees t) (running : s.run = .running) :
    s.step.1 = t.step.1 ∧ s.step.2.Agrees t.step.2 := by
  have running' : t.run = .running := h.run ▸ running
  simp only [step, running, running', fetch_word, ← h.pc, ← h.fetch.layout]
  cases s.fetch.layout.textSlot? s.control.pc with
  | none => exact h.fetch.fail _ _
  | some slot =>
      cases slot with
      | finish => exact h.fetch.halt _
      | statement index =>
          have decoded := h.fetch.decode index
          simp only [← decoded.program]
          cases (s.fetch.decode index).program.text.get? index with
          | none => exact decoded.fail _ _
          | some statement =>
              obtain ⟨same, agree⟩ := (Exec.Composed.execute statement).blind _ _ decoded
              rcases hs : execute statement (s.fetch.decode index) with ⟨result, s'⟩
              rcases ht : execute statement (t.fetch.decode index) with ⟨result', t'⟩
              rw [hs, ht] at same agree
              cases same
              simp only [hs, ht]
              exact agree.complete statement.line result

theorem Agrees.step {s t : State} (h : s.Agrees t) :
    s.step.1 = t.step.1 ∧ s.step.2.Agrees t.step.2 := by
  cases hs : s.run with
  | running => exact h.cycle hs
  | halted reason =>
      simp only [State.step, hs, ← h.run]
      exact ⟨trivial, h⟩
  | faulted fault =>
      simp only [State.step, hs, ← h.run]
      exact ⟨trivial, h⟩

theorem Agrees.after {s t : State} (h : s.Agrees t) (n : Nat) :
    (s.after n).Agrees (t.after n) := by
  induction n with
  | zero => exact h
  | succ n ih =>
      rw [after_succ, after_succ]
      exact ih.step.2

/-- Machines that agree have the same outcomes for ever. -/
theorem outcomes_eq_of_agrees {s t : State} (h : s.Agrees t) (n : Nat) :
    (s.after n).step.1 = (t.after n).step.1 ∧ (s.after n).Agrees (t.after n) :=
  ⟨(h.after n).step.1, h.after n⟩

/-- The relay with something else in every place that is passed over, and an observer. -/
def disturbedRelay : State :=
  { relay with
    instruction := ⟨0x12345678, some 7⟩
    control := { relay.control with data := 0x400000 }
    bus := { relay.bus with slot := 0xDEADBEEF, cycle := 5, channel := .connected } }

/-- The jump of the relay goes through the slot, and yet finds its own value there. -/
theorem outcomes_eq_disturbedRelay : relay.Agrees disturbedRelay ∧ ∀ n,
    (relay.after n).step.1 = (disturbedRelay.after n).step.1 ∧
      (relay.after n).Agrees (disturbedRelay.after n) := by
  have agrees : relay.Agrees disturbedRelay :=
    ⟨rfl, rfl, rfl, rfl, rfl, ⟨rfl, rfl, rfl⟩, rfl, rfl, rfl, rfl⟩
  exact ⟨agrees, outcomes_eq_of_agrees agrees⟩

end State

end Mips.Machine
