import Mips.Proofs.Machine.Visible

/-!
Printing a string from memory. The bytes from an address on are printed up to the first zero byte;
if memory ends before one is found, the bytes that are left are printed and the read after them
faults. The bound on the number of bytes is never what ends the loop.
-/
namespace Mips.Machine

/-- The character that is printed for a byte. -/
def character (b : Byte) : Char :=
  Char.ofNat b.toNat

/-- The address of a byte, counted from a first one; it is taken modulo the size of a word. -/
def addressFrom (address : Word) (i : Nat) : Word :=
  address + BitVec.ofNat 32 i

theorem addressFrom_zero (address : Word) : addressFrom address 0 = address :=
  BitVec.add_zero address

theorem addressFrom_succ (address : Word) (i : Nat) :
    addressFrom address (i + 1) = addressFrom (address + 1) i := by
  simp only [addressFrom, BitVec.ofNat_add]
  ac_rfl

theorem toNat_setWidth (b : Byte) : (b.setWidth 32).toNat = b.toNat := by
  have size := b.isLt
  rw [BitVec.toNat_setWidth, Nat.mod_eq_of_lt (by omega)]

theorem setWidth_ne_zero {b : Byte} (nonzero : b ≠ 0) : b.setWidth 32 ≠ (0 : Word) := by
  intro zero
  apply nonzero
  apply BitVec.eq_of_toNat_eq
  rw [← toNat_setWidth b, zero]
  rfl

theorem ofBytesUnsigned_singleton (b : Byte) : Word.ofBytesUnsigned [b] = b.setWidth 32 := by
  simp [Word.ofBytesUnsigned, Word.pushByte]

namespace Memory

variable {m : Memory} {address : Word} {b : Byte} {bytes : List Byte}

/-- The byte at an address, if it is in memory. -/
def byte? (m : Memory) (address : Word) : Option Byte :=
  (m.offset? address 1).map m.byteAt

/-- Bytes that are in memory from an address on, none of them zero. -/
def Spells (m : Memory) (address : Word) (bytes : List Byte) : Prop :=
  ∀ i (h : i < bytes.length), m.byte? (addressFrom address i) = some bytes[i] ∧ bytes[i] ≠ 0

theorem Spells.nil (m : Memory) (address : Word) : m.Spells address [] :=
  fun _ h => absurd h (Nat.not_lt_zero _)

theorem Spells.cons (here : m.byte? address = some b) (nonzero : b ≠ 0)
    (h : m.Spells (address + 1) bytes) : m.Spells address (b :: bytes) := by
  intro i inside
  cases i with
  | zero =>
      rw [addressFrom_zero]
      exact ⟨here, nonzero⟩
  | succ i =>
      rw [addressFrom_succ]
      exact h i (Nat.lt_of_succ_lt_succ inside)

theorem Spells.tail (h : m.Spells address (b :: bytes)) : m.Spells (address + 1) bytes := by
  intro i inside
  have next := h (i + 1) (Nat.succ_lt_succ inside)
  rwa [addressFrom_succ] at next

theorem readUnsigned_one (m : Memory) (address : Word) :
    m.readUnsigned address 1 = match m.byte? address with
      | some b => .ok (b.setWidth 32)
      | none => .error (.memoryOutOfRange address 1) := by
  simp only [readUnsigned, readBytes, byte?]
  cases m.offset? address 1 with
  | none => rfl
  | some offset =>
      have read : m.bytesAt offset 1 = [m.byteAt offset] := rfl
      simp [Except.map, read, ofBytesUnsigned_singleton]

theorem byte?_isSome_iff : (m.byte? address).isSome = true ↔
    m.base.toNat ≤ address.toNat ∧ address.toNat < m.base.toNat + m.size.toNat := by
  rw [byte?, Option.isSome_map, Option.isSome_iff_exists]
  constructor
  · intro ⟨offset, found⟩
    obtain ⟨place, inside⟩ := offset?_eq_some_iff.mp found
    omega
  · intro ⟨low, high⟩
    exact ⟨address.toNat - m.base.toNat, offset?_eq_some_iff.mpr ⟨by omega, by omega⟩⟩

/-- No memory holds the last address and the first one. -/
theorem toNat_add_one (here : (m.byte? address).isSome = true)
    (next : (m.byte? (address + 1)).isSome = true) :
    (address + 1).toNat = address.toNat + 1 := by
  rw [byte?_isSome_iff] at here next
  have size := m.size.isLt
  have one : (1 : Word).toNat = 1 := rfl
  rw [BitVec.toNat_add, one] at next ⊢
  omega

end Memory

theorem Exec.readMemory_one (s : State) (address : Word) :
    Exec.readMemory address 1 false s = match s.bus.memory.byte? address with
      | some b => (.ok (b.setWidth 32), { s with bus := s.bus.carry (b.setWidth 32) })
      | none => (.error (.memoryOutOfRange address 1), s) := by
  simp only [Exec.readMemory, Exec.transfer, Bus.readMemory, Memory.readUnsigned_one]
  cases s.bus.memory.byte? address <;> rfl

def Visible.print (v : Visible) (bytes : List Byte) : Visible :=
  { v with console := v.console ++ String.ofList (bytes.map character) }

@[simp] theorem Visible.print_nil (v : Visible) : v.print [] = v := by
  simp [print]

/-- How printing from an address can end: at a zero byte, or out of memory. -/
inductive Prints (m : Memory) (address : Word) (bytes : List Byte) : Except Fault Unit → Prop
  | ended (zero : m.byte? (addressFrom address bytes.length) = some 0) :
      Prints m address bytes (.ok ())
  | ranOut (outside : m.byte? (addressFrom address bytes.length) = none) :
      Prints m address bytes
        (.error (.memoryOutOfRange (addressFrom address bytes.length) 1))

namespace Prints

variable {m : Memory} {address : Word} {b : Byte} {bytes : List Byte} {result : Except Fault Unit}

theorem zero (h : m.byte? address = some 0) : Prints m address [] (.ok ()) :=
  .ended (by rwa [List.length_nil, addressFrom_zero])

theorem outside (h : m.byte? address = none) :
    Prints m address [] (.error (.memoryOutOfRange address 1)) := by
  have there : m.byte? (addressFrom address ([] : List Byte).length) = none := by
    rwa [List.length_nil, addressFrom_zero]
  have ended := ranOut there
  rwa [List.length_nil, addressFrom_zero] at ended

theorem cons (h : Prints m (address + 1) bytes result) :
    Prints m address (b :: bytes) result := by
  cases h with
  | ended zero => exact .ended (by rwa [List.length_cons, addressFrom_succ])
  | ranOut outside =>
      rw [← addressFrom_succ] at outside ⊢
      exact .ranOut outside

end Prints

/-- As long as the address is in memory, the bound covers all bytes from it to the end. -/
def Covers (m : Memory) (left : Nat) (address : Word) : Prop :=
  (m.byte? address).isSome = true → m.base.toNat + m.size.toNat ≤ address.toNat + left

theorem covers_bytesLeft (m : Memory) (address : Word) :
    Covers m (bytesLeft m address) address := by
  intro _
  simp only [bytesLeft]
  omega

theorem Covers.outside {m : Memory} {address : Word} (h : Covers m 0 address) :
    m.byte? address = none := by
  cases found : m.byte? address with
  | none => rfl
  | some b =>
      have here : (m.byte? address).isSome = true := Option.isSome_iff_exists.mpr ⟨b, found⟩
      have inside := Memory.byte?_isSome_iff.mp here
      have bound := h here
      omega

theorem Covers.next {m : Memory} {left : Nat} {address : Word} (h : Covers m (left + 1) address)
    (here : (m.byte? address).isSome = true) : Covers m left (address + 1) := by
  intro next
  have bound := h here
  rw [Memory.toNat_add_one here next]
  omega

theorem printFrom_ranOut {left : Nat} {address : Word} {s : State}
    (outside : s.bus.memory.byte? address = none) :
    printFrom left address s = (.error (.memoryOutOfRange address 1), s) := by
  cases left <;> simp only [printFrom, Exec.bind_apply, Exec.readMemory_one, outside]

theorem printFrom_zero {left : Nat} {address : Word} {s : State}
    (zero : s.bus.memory.byte? address = some 0) :
    printFrom (left + 1) address s = (.ok (), { s with bus := s.bus.carry 0 }) := by
  simp only [printFrom, Exec.bind_apply, Exec.readMemory_one, zero]
  rfl

/-- The machine after one character of a string. -/
def State.printed (s : State) (b : Byte) : State :=
  { s with
    bus := s.bus.carry (b.setWidth 32)
    console := s.console ++ String.ofList [character b] }

theorem State.print_visible_printed (s : State) (b : Byte) (bytes : List Byte) :
    (s.printed b).visible.print bytes = s.visible.print (b :: bytes) := by
  simp only [Visible.print, visible, printed, String.append_assoc, ← String.ofList_append,
    List.map_cons, List.singleton_append]
  rfl

theorem printFrom_nonzero {left : Nat} {address : Word} {s : State} {b : Byte}
    (found : s.bus.memory.byte? address = some b) (nonzero : b ≠ 0) :
    printFrom (left + 1) address s = printFrom left (address + 1) (s.printed b) := by
  simp only [printFrom, Exec.bind_apply, Exec.readMemory_one, found,
    if_neg (setWidth_ne_zero nonzero), Exec.print, Exec.change, toNat_setWidth]
  rfl

/-- What is printed and how it ends. The induction is on the bound, which covers the rest of memory
until the loop has left it. -/
theorem printFrom_prints (left : Nat) (address : Word) (s : State)
    (enough : Covers s.bus.memory left address) :
    ∃ bytes, s.bus.memory.Spells address bytes ∧
      Prints s.bus.memory address bytes (printFrom left address s).1 ∧
      (printFrom left address s).2.visible = s.visible.print bytes := by
  induction left generalizing address s with
  | zero =>
      rw [printFrom_ranOut enough.outside]
      exact ⟨[], .nil _ _, .outside enough.outside, (Visible.print_nil _).symm⟩
  | succ left ih =>
      cases found : s.bus.memory.byte? address with
      | none =>
          rw [printFrom_ranOut found]
          exact ⟨[], .nil _ _, .outside found, (Visible.print_nil _).symm⟩
      | some b =>
          by_cases zero : b = 0
          · subst zero
            rw [printFrom_zero found]
            exact ⟨[], .nil _ _, .zero found, (Visible.print_nil _).symm⟩
          · have here : (s.bus.memory.byte? address).isSome = true := by simp [found]
            obtain ⟨bytes, spells, prints, shown⟩ :=
              ih (address + 1) (s.printed b) (enough.next here)
            rw [printFrom_nonzero found zero]
            rw [State.print_visible_printed] at shown
            exact ⟨b :: bytes, spells.cons found zero, prints.cons, shown⟩

end Mips.Machine
