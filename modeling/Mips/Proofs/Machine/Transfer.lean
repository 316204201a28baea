import Mips.Proofs.Machine.Agreement
import Mips.Proofs.Machine.Observation

/-!
The operations of the bus. One that succeeds is announced once. One that faults is not announced and
leaves registers and memory as they were, so a sequence of operations does the same without those
that fault. The transport slot is the exception: a store takes its word into the slot before memory
checks the range, and there the word stays when the store faults.
-/
namespace Mips.Machine

namespace Bus

section Memory

variable (b : Bus) {address : Word} {length : Nat}

theorem readMemory_refused (h : b.memory.contains address length = false) (signed : Bool) :
    b.readMemory address length signed = (.error (.memoryOutOfRange address length), b) := by
  have outside : b.memory.offset? address length = none := by simpa [Memory.contains] using h
  cases signed <;>
    simp [readMemory, Memory.read, Memory.readUnsigned, Memory.readBytes, outside, Except.map]

theorem readMemory_allowed (h : b.memory.contains address length = true) (signed : Bool) :
    ∃ word, b.readMemory address length signed = (.ok word, b.carry word) := by
  obtain ⟨offset, inside⟩ := Option.isSome_iff_exists.mp h
  cases signed <;>
    simp [readMemory, Memory.read, Memory.readUnsigned, Memory.readBytes, inside, Except.map]

variable {value : Word}

theorem writeMemory_refused
    (h : b.memory.contains address (value.lowBytes length).length = false) :
    b.writeMemory address value length =
      (.error (.memoryOutOfRange address (value.lowBytes length).length),
        { b with slot := value }) := by
  have outside : b.memory.offset? address (value.lowBytes length).length = none := by
    simpa [Memory.contains] using h
  simp [writeMemory, Memory.write, outside]

theorem writeMemory_allowed
    (h : b.memory.contains address (value.lowBytes length).length = true) :
    ∃ offset, b.writeMemory address value length = (.ok (), { b with
      slot := value
      memory := b.memory.store offset (value.lowBytes length) }.publish .memory) := by
  obtain ⟨offset, inside⟩ := Option.isSome_iff_exists.mp h
  exact ⟨offset, by simp [writeMemory, Memory.write, inside]⟩

end Memory

end Bus

/-- An operation of the bus with what it is given. -/
inductive Transfer
  | receiveInstruction (ir : InstructionRegister)
  | receiveControl (cu : ControlUnit)
  | sendInstruction
  | sendControl (cu : ControlUnit)
  | readRegister (r : Register)
  | writeRegister (r : Register) (value : Word)
  | readMemory (address : Word) (length : Nat) (signed : Bool)
  | writeMemory (address value : Word) (length : Nat)

namespace Transfer

/-- Whether the operation faults, and the bus after it. -/
def perform (b : Bus) : Transfer → Except Fault Unit × Bus
  | receiveInstruction ir => (.ok (), b.receiveInstruction ir)
  | receiveControl cu => (.ok (), b.receiveControl cu)
  | sendInstruction => (.ok (), b.sendInstruction.2)
  | sendControl cu => (.ok (), (b.sendControl cu).2)
  | readRegister r => (.ok (), (b.readRegister r).2)
  | writeRegister r value => (.ok (), b.writeRegister r value)
  | readMemory address length signed =>
      let (result, b) := b.readMemory address length signed
      (result.map fun _ => (), b)
  | writeMemory address value length => b.writeMemory address value length

/-- The unit that the operation changes. -/
def target : Transfer → Component
  | receiveInstruction _ | receiveControl _ | readRegister _ | readMemory _ _ _ => .loadStoreUnit
  | sendInstruction => .instructionRegister
  | sendControl _ => .controlUnit
  | writeRegister _ _ => .registers
  | writeMemory _ _ _ => .memory

/-- The address and the number of bytes of an access to memory. -/
def access? : Transfer → Option (Word × Nat)
  | readMemory address length _ => some (address, length)
  | writeMemory address value length => some (address, (value.lowBytes length).length)
  | _ => none

/-- The word that a store takes into the slot. -/
def staged? : Transfer → Option Word
  | writeMemory _ value _ => some value
  | _ => none

/-- An access that is not in memory as a whole faults, and nothing else does. -/
def fault? (m : Memory) (t : Transfer) : Option Fault :=
  match t.access? with
  | none => none
  | some (address, length) =>
      if m.contains address length then none else some (.memoryOutOfRange address length)

variable (b : Bus)

theorem perform_refused {t : Transfer} {fault : Fault} (h : t.fault? b.memory = some fault) :
    t.perform b = (.error fault, { b with slot := t.staged?.getD b.slot }) := by
  cases t with
  | receiveInstruction _ | receiveControl _ | sendInstruction | sendControl _ | readRegister _
  | writeRegister _ _ => cases h
  | readMemory address length signed =>
      simp only [fault?, access?, Option.ite_none_left_eq_some, Option.some.injEq] at h
      obtain ⟨outside, rfl⟩ := h
      rw [perform, b.readMemory_refused (by simpa using outside)]
      rfl
  | writeMemory address value length =>
      simp only [fault?, access?, Option.ite_none_left_eq_some, Option.some.injEq] at h
      obtain ⟨outside, rfl⟩ := h
      rw [perform, b.writeMemory_refused (by simpa using outside)]
      rfl

/-- What an operation leaves behind that is done: one announcement, and memory where it was. -/
structure Done (b : Bus) (t : Transfer) (after : Bus) : Prop where
  channel : after.channel = b.channel.emitAll [⟨t.target, b.cycle⟩]
  cycle : after.cycle = b.cycle
  base : after.memory.base = b.memory.base
  size : after.memory.size = b.memory.size

theorem perform_allowed {t : Transfer} (h : t.fault? b.memory = none) :
    ∃ after, t.perform b = (.ok (), after) ∧ Done b t after := by
  cases t with
  | receiveInstruction _ | receiveControl _ | sendInstruction | sendControl _ | readRegister _
  | writeRegister _ _ => exact ⟨_, rfl, rfl, rfl, rfl, rfl⟩
  | readMemory address length signed =>
      have inside : b.memory.contains address length = true := by simpa [fault?, access?] using h
      obtain ⟨word, read⟩ := b.readMemory_allowed inside signed
      refine ⟨b.carry word, ?_, rfl, rfl, rfl, rfl⟩
      rw [perform, read]
      rfl
  | writeMemory address value length =>
      have inside : b.memory.contains address (value.lowBytes length).length = true := by
        simpa [fault?, access?] using h
      obtain ⟨offset, written⟩ := b.writeMemory_allowed inside
      exact ⟨_, written, rfl, rfl, Memory.base_store _ _ _, Memory.size_store _ _ _⟩

/-- What is in the slot decides neither whether an operation is done nor what else it changes. -/
theorem perform_slot (t : Transfer) (word : Word) : ∃ next,
    t.perform { b with slot := word } = ((t.perform b).1, { (t.perform b).2 with slot := next }) := by
  cases t with
  | receiveInstruction ir => exact ⟨ir.word, rfl⟩
  | receiveControl cu => exact ⟨cu.data, rfl⟩
  | sendInstruction | sendControl _ | writeRegister _ _ => exact ⟨word, rfl⟩
  | readRegister r => exact ⟨b.registers.get r, rfl⟩
  | readMemory address length signed =>
      simp only [perform, Bus.readMemory]
      cases if signed then b.memory.read address length
          else b.memory.readUnsigned address length with
      | error fault => exact ⟨word, rfl⟩
      | ok read => exact ⟨read, rfl⟩
  | writeMemory address value length =>
      refine ⟨value, ?_⟩
      simp only [perform, Bus.writeMemory]
      cases b.memory.write address (value.lowBytes length) <;> rfl

/-- Operations in order, whether they are done or not. -/
def performAll (b : Bus) (ts : List Transfer) : Bus :=
  ts.foldl (fun b t => (t.perform b).2) b

/-- The operations that are done, if memory covers the same addresses all the time. -/
def allowed (m : Memory) (ts : List Transfer) : List Transfer :=
  ts.filter fun t => (t.fault? m).isNone

theorem performAll_slot (ts : List Transfer) (word : Word) : ∃ next,
    performAll { b with slot := word } ts = { performAll b ts with slot := next } := by
  induction ts generalizing b word with
  | nil => exact ⟨word, rfl⟩
  | cons t rest ih =>
      obtain ⟨next, performed⟩ := perform_slot b t word
      have first : performAll { b with slot := word } (t :: rest) =
          performAll { (t.perform b).2 with slot := next } rest := by
        rw [performAll, List.foldl_cons, performed]
        rfl
      rw [first]
      exact ih (t.perform b).2 next

theorem fault?_congr {m n : Memory} (base : m.base = n.base) (size : m.size = n.size)
    (t : Transfer) : t.fault? m = t.fault? n := by
  have covers (address : Word) (length : Nat) :
      m.contains address length = n.contains address length := by
    rw [Memory.contains, Memory.contains, Memory.offset?, Memory.offset?, base, size]
  simp only [fault?, covers]

/-- Operations that fault leave nothing behind them but a word in the slot, and each of the others
is announced once. -/
theorem performAll_allowed (ts : List Transfer) :
    (∃ word, performAll b ts = { performAll b (allowed b.memory ts) with slot := word }) ∧
      (performAll b ts).channel =
        b.channel.emitAll ((allowed b.memory ts).map fun t => ⟨t.target, b.cycle⟩) := by
  induction ts generalizing b with
  | nil => exact ⟨⟨b.slot, rfl⟩, rfl⟩
  | cons t rest ih =>
      cases refusal : t.fault? b.memory with
      | some fault =>
          have skipped : allowed b.memory (t :: rest) = allowed b.memory rest :=
            List.filter_cons_of_neg (by simp [refusal])
          obtain ⟨⟨word, same⟩, channel⟩ := ih b
          obtain ⟨next, performed⟩ := performAll_slot b rest (t.staged?.getD b.slot)
          have whole : performAll b (t :: rest) = { performAll b rest with slot := next } := by
            rw [← performed, performAll, List.foldl_cons, perform_refused b refusal]
            rfl
          rw [whole, skipped]
          exact ⟨⟨next, by rw [same]⟩, channel⟩
      | none =>
          obtain ⟨after, performed, done⟩ := perform_allowed b refusal
          have faults : (fun t => (fault? after.memory t).isNone) =
              fun t => (fault? b.memory t).isNone :=
            funext fun t => by rw [fault?_congr done.base done.size]
          have taken : allowed b.memory (t :: rest) = t :: allowed after.memory rest := by
            rw [allowed, List.filter_cons_of_pos (by simp [refusal]), allowed, faults]
          have first (ts : List Transfer) : performAll b (t :: ts) = performAll after ts := by
            rw [performAll, List.foldl_cons, performed]
            rfl
          obtain ⟨same, channel⟩ := ih after
          rw [taken, first, first]
          refine ⟨same, ?_⟩
          rw [channel, done.channel, done.cycle, ← Channel.emitAll_append]
          rfl

/-- How an operation ends. -/
structure Settles (b : Bus) (t : Transfer) : Prop where
  outcome : (t.perform b).1 = (t.fault? b.memory).elim (.ok ()) .error
  faults : ∀ fault, (t.perform b).1 = .error fault →
    (t.perform b).2 = { b with slot := t.staged?.getD b.slot }
  announced : (t.perform b).1 = .ok () →
    (t.perform b).2.channel = b.channel.emitAll [⟨t.target, b.cycle⟩]
  received : (t.perform b).1 = .ok () → b.channel.isConnected = true →
    (t.perform b).2.channel.events? = b.channel.events?.map (· ++ [⟨t.target, b.cycle⟩])

theorem settles (t : Transfer) : Settles b t := by
  cases refusal : t.fault? b.memory with
  | some fault =>
      have performed := perform_refused b refusal
      refine ⟨by rw [performed, refusal]; rfl, fun _ _ => by rw [performed], ?_, ?_⟩
      · simp [performed]
      · simp [performed]
  | none =>
      obtain ⟨after, performed, done⟩ := perform_allowed b refusal
      refine ⟨by rw [performed, refusal]; rfl, ?_, fun _ => ?_, fun _ connected => ?_⟩
      · simp [performed]
      · rw [performed]
        exact done.channel
      · rw [performed, done.channel, Channel.events?_emitAll connected]

/-- On every bus, an operation either is done and announced once, or it faults and changes nothing
but the slot, into which a store that faults has taken its word. A sequence of operations leaves
registers, memory and what is announced as if only those had been there that are done. -/
theorem transfers_settle (ts : List Transfer) :
    (∀ t, Settles b t) ∧
      (∃ word, performAll b ts = { performAll b (allowed b.memory ts) with slot := word }) ∧
      (performAll b ts).channel =
        b.channel.emitAll ((allowed b.memory ts).map fun t => ⟨t.target, b.cycle⟩) :=
  ⟨settles b, performAll_allowed b ts⟩

/-- A store just behind a memory of four bytes faults, and the slot has changed. -/
theorem refused_store_stages :
    ((writeMemory 4 7 4).perform { memory := ⟨0, 4, {}⟩ }).1 =
        .error (.memoryOutOfRange 4 4) ∧
      ((writeMemory 4 7 4).perform { memory := ⟨0, 4, {}⟩ }).2.slot = 7 ∧
      ({ memory := ⟨0, 4, {}⟩ } : Bus).slot = 0 :=
  ⟨rfl, rfl, rfl⟩

end Transfer

end Mips.Machine
