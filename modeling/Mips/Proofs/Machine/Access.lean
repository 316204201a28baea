import Mips.Proofs.Machine.Arithmetic
import Mips.Proofs.Machine.Image

/-!
Loads and stores. Bytes are the digits of a number to the base 256, and a word is made of the number
that they stand for, with a sign or without. An access works on the addresses from the sum of the
parts of its operand on, as numbers: it is in memory as a whole or faults. What was stored is what
the next load from there finds.
-/
namespace Mips

/-- The number with these digits to the base 256. -/
def fromBigEndian : List Byte → Nat
  | [] => 0
  | b :: rest => b.toNat * 256 ^ rest.length + fromBigEndian rest

/-- The integer for which a number of some bytes stands, which is negative if it has a sign and the
first bit is set. -/
def extended (signed : Bool) (width n : Nat) : Int :=
  if signed ∧ 256 ^ width ≤ 2 * n then (n : Int) - (256 ^ width : Nat) else n

section Digits

theorem fromBigEndian_lt (bytes : List Byte) : fromBigEndian bytes < 256 ^ bytes.length := by
  induction bytes with
  | nil => exact Nat.one_pos
  | cons b rest ih =>
      have digit : b.toNat * 256 ^ rest.length ≤ 255 * 256 ^ rest.length :=
        Nat.mul_le_mul_right _ (Nat.le_of_lt_succ b.isLt)
      rw [fromBigEndian, List.length_cons, Nat.pow_succ]
      omega

theorem fromBigEndian_concat (bytes : List Byte) (b : Byte) :
    fromBigEndian (bytes ++ [b]) = 256 * fromBigEndian bytes + b.toNat := by
  induction bytes with
  | nil => simp [fromBigEndian]
  | cons first rest ih =>
      have shifted : first.toNat * 256 ^ (rest.length + 1) =
          256 * (first.toNat * 256 ^ rest.length) := by
        rw [Nat.pow_succ, ← Nat.mul_assoc, Nat.mul_comm]
      simp only [List.cons_append, fromBigEndian, ih, List.length_append, List.length_singleton,
        shifted]
      omega

theorem length_bigEndian (value : Int) (count : Nat) : (bigEndian value count).length = count := by
  induction count generalizing value with
  | zero => rfl
  | succ count ih => rw [bigEndian, List.length_append, ih, List.length_singleton]

theorem fromBigEndian_bigEndian (n count : Nat) :
    fromBigEndian (bigEndian n count) = n % 256 ^ count := by
  induction count generalizing n with
  | zero => rw [bigEndian, fromBigEndian, Nat.pow_zero, Nat.mod_one]
  | succ count ih =>
      have quotient : (n : Int) / 256 = (n / 256 : Nat) := rfl
      have power : 256 ^ (count + 1) = 256 * 256 ^ count := by rw [Nat.pow_succ, Nat.mul_comm]
      rw [bigEndian, fromBigEndian_concat, quotient, ih, BitVec.ofInt_natCast, BitVec.toNat_ofNat,
        power, Nat.mod_mul, Nat.add_comm]

/-- The first byte has its first bit set if the number is in the upper half. -/
theorem any_msb_iff (bytes : List Byte) :
    bytes.head?.any BitVec.msb = true ↔ 256 ^ bytes.length ≤ 2 * fromBigEndian bytes := by
  cases bytes with
  | nil => simp [fromBigEndian]
  | cons b rest =>
      have small := fromBigEndian_lt rest
      simp only [List.head?_cons, Option.any_some, BitVec.msb_eq_decide, decide_eq_true_eq,
        fromBigEndian, List.length_cons, Nat.pow_succ]
      constructor
      · intro high
        have digit := Nat.mul_le_mul_right (256 ^ rest.length) high
        omega
      · intro high
        by_contra low
        have digit : b.toNat * 256 ^ rest.length ≤ 127 * 256 ^ rest.length :=
          Nat.mul_le_mul_right _ (by omega)
        omega

end Digits

namespace Word

theorem pushByte_ofInt (value : Int) (b : Byte) :
    pushByte (ofInt value) b = ofInt (256 * value + b.toNat) := by
  have apart : ofInt value <<< 8 &&& b.setWidth 32 = 0 := by
    apply BitVec.eq_of_getLsbD_eq
    intro i small
    by_cases low : i < 8
    · simp [low]
    · simp [BitVec.getLsbD_of_ge b i (Nat.le_of_not_lt low)]
  have shifted : ofInt value <<< 8 = ofInt (256 * value) := by
    rw [ofInt, BitVec.shiftLeft_eq_mul_twoPow, ofInt, BitVec.ofInt_mul, BitVec.mul_comm]
    rfl
  have widened : b.setWidth 32 = ofInt b.toNat := by
    rw [ofInt, BitVec.ofInt_natCast, BitVec.ofNat_toNat]
  rw [pushByte, ← BitVec.add_eq_or_of_and_eq_zero _ _ apart, shifted, widened, ofInt, ofInt, ofInt,
    BitVec.ofInt_add]

theorem foldl_pushByte (value : Int) (bytes : List Byte) :
    bytes.foldl pushByte (ofInt value) =
      ofInt (value * (256 ^ bytes.length : Nat) + fromBigEndian bytes) := by
  induction bytes generalizing value with
  | nil => simp [fromBigEndian]
  | cons b rest ih =>
      rw [List.foldl_cons, pushByte_ofInt, ih, fromBigEndian, List.length_cons, Nat.pow_succ]
      generalize 256 ^ rest.length = p
      congr 1
      rw [Int.natCast_add, Int.natCast_mul, Int.natCast_mul, Int.add_mul, Int.add_assoc]
      grind

/-- Bytes that are read make the word of the integer for which they stand. -/
theorem ofBytes_eq_ofInt (bytes : List Byte) :
    ofBytes bytes = ofInt (extended true bytes.length (fromBigEndian bytes)) := by
  rw [ofBytes, extended]
  by_cases high : bytes.head?.any BitVec.msb = true
  · -- The fill counts as minus one before the first byte, so it takes away the whole range.
    have ones : BitVec.allOnes 32 = ofInt (-1) := by decide
    rw [if_pos high, if_pos ⟨rfl, (any_msb_iff bytes).mp high⟩, ones, foldl_pushByte]
    congr 1
    omega
  · have zero : (0 : Word) = ofInt 0 := rfl
    rw [if_neg high, if_neg fun upper => high ((any_msb_iff bytes).mpr upper.2), zero,
      foldl_pushByte, Int.zero_mul, Int.zero_add]

theorem ofBytesUnsigned_eq_ofInt (bytes : List Byte) :
    ofBytesUnsigned bytes = ofInt (extended false bytes.length (fromBigEndian bytes)) := by
  have zero : (0 : Word) = ofInt 0 := rfl
  rw [ofBytesUnsigned, extended, if_neg (by simp), zero, foldl_pushByte, Int.zero_mul, Int.zero_add]

end Word

/-- The bytes that an access is for. -/
inductive Width
  | byte
  | half
  | word

def Width.count : Width → Nat
  | byte => 1
  | half => 2
  | word => 4

theorem Word.lowBytes_count (w : Word) (width : Width) :
    w.lowBytes width.count = bigEndian w.toNat width.count := by
  have same : w = ofInt w.toNat := by
    rw [ofInt, BitVec.ofInt_natCast, BitVec.ofNat_toNat, BitVec.setWidth_eq]
  obtain ⟨first, second, third, fourth⟩ := extractLsb'_ofInt w.toNat
  rw [← same] at first second third fourth
  cases width <;> simp [Width.count, lowBytes, bytes, bigEndian, first, second, third, fourth]

theorem Word.length_lowBytes_count (w : Word) (width : Width) :
    (w.lowBytes width.count).length = width.count := by
  rw [lowBytes_count, length_bigEndian]

/-- What an instruction does with the address in its second operand. -/
inductive Access
  | address
  | load (width : Width) (signed : Bool)
  | store (width : Width)

def Instruction.access? : Instruction → Option Access
  | la => some .address
  | lw => some (.load .word true)
  | lh => some (.load .half true)
  | lb => some (.load .byte true)
  | lbu => some (.load .byte false)
  | sw => some (.store .word)
  | sh => some (.store .half)
  | sb => some (.store .byte)
  | _ => none

namespace Machine

namespace Memory

variable {m : Memory} {address : Word} {width : Nat}

/-- The byte at an address that is given as a number. -/
def at? (m : Memory) (x : Nat) : Option Byte :=
  if m.base.toNat ≤ x ∧ x < m.base.toNat + m.size.toNat then some (m.byteAt (x - m.base.toNat))
  else none

/-- The bytes of a range of addresses are all in memory. -/
def HasRange (m : Memory) (address : Word) (width : Nat) : Prop :=
  m.base.toNat ≤ address.toNat ∧
    address.toNat + width ≤ m.base.toNat + m.size.toNat

theorem HasRange.offset? (h : m.HasRange address width) :
    m.offset? address width = some (address.toNat - m.base.toNat) := by
  obtain ⟨low, high⟩ := h
  exact offset?_eq_some_iff.mpr ⟨by omega, by omega⟩

theorem offset?_eq_none (h : ¬m.HasRange address width) : m.offset? address width = none := by
  rw [Option.eq_none_iff_forall_ne_some]
  intro offset found
  obtain ⟨place, inside⟩ := offset?_eq_some_iff.mp found
  exact h ⟨by omega, by omega⟩

theorem length_bytesAt (m : Memory) (offset length : Nat) :
    (m.bytesAt offset length).length = length := by
  rw [bytesAt, List.length_map, List.length_range]

theorem HasRange.readBytes (h : m.HasRange address width) :
    m.readBytes address width = .ok (m.bytesAt (address.toNat - m.base.toNat) width) := by
  rw [Memory.readBytes, h.offset?]

theorem readBytes_outside (h : ¬m.HasRange address width) :
    m.readBytes address width = .error (.memoryOutOfRange address width) := by
  rw [readBytes, offset?_eq_none h]

/-- What is read is the word of the integer for which the bytes stand. -/
theorem HasRange.read (h : m.HasRange address width) (signed : Bool) :
    (if signed then m.read address width else m.readUnsigned address width) =
      .ok (Word.ofInt (extended signed width
        (fromBigEndian (m.bytesAt (address.toNat - m.base.toNat) width)))) := by
  cases signed with
  | true =>
      have word := Word.ofBytes_eq_ofInt (m.bytesAt (address.toNat - m.base.toNat) width)
      rw [length_bytesAt] at word
      rw [if_pos rfl, Memory.read, h.readBytes]
      exact congrArg Except.ok word
  | false =>
      have word := Word.ofBytesUnsigned_eq_ofInt (m.bytesAt (address.toNat - m.base.toNat) width)
      rw [length_bytesAt] at word
      rw [if_neg Bool.false_ne_true, readUnsigned, h.readBytes]
      exact congrArg Except.ok word

theorem read_outside (h : ¬m.HasRange address width) (signed : Bool) :
    (if signed then m.read address width else m.readUnsigned address width) =
      .error (.memoryOutOfRange address width) := by
  rw [read, readUnsigned, readBytes_outside h]
  exact ite_self _

/-- The bytes at a range of addresses. -/
def Holds (m : Memory) (address : Word) (bytes : List Byte) : Prop :=
  ∀ i (h : i < bytes.length), m.at? (address.toNat + i) = some bytes[i]

theorem HasRange.holds (h : m.HasRange address width) :
    m.Holds address (m.bytesAt (address.toNat - m.base.toNat) width) := by
  obtain ⟨low, high⟩ := h
  intro i inside
  simp only [bytesAt, List.length_map, List.length_range] at inside
  rw [at?, if_pos ⟨by omega, by omega⟩]
  simp only [bytesAt, List.getElem_map, List.getElem_range]
  congr 2
  omega

theorem Holds.ext {bytes others : List Byte} (h : m.Holds address bytes)
    (k : m.Holds address others) (length : bytes.length = others.length) : bytes = others := by
  refine List.ext_getElem length fun i here there => ?_
  exact Option.some.inj ((h i here).symm.trans (k i there))

/-- A write changes its bytes and no others. -/
theorem HasRange.at?_store {bytes : List Byte} (h : m.HasRange address bytes.length) (x : Nat) :
    (m.store (address.toNat - m.base.toNat) bytes).at? x =
      if address.toNat ≤ x ∧ x < address.toNat + bytes.length then bytes[x - address.toNat]?
      else m.at? x := by
  obtain ⟨low, high⟩ := h
  simp only [at?, base_store, size_store, byteAt_store]
  by_cases inside : address.toNat ≤ x ∧ x < address.toNat + bytes.length
  · have index : x - m.base.toNat - (address.toNat - m.base.toNat) = x - address.toNat := by omega
    rw [if_pos ⟨by omega, by omega⟩, if_pos inside, if_pos (by omega), index,
      List.getD_eq_getElem?_getD, List.getElem?_eq_getElem (by omega), Option.getD_some]
  · rw [if_neg inside]
    split
    · next covered =>
        split
        · next after =>
            rw [List.getD_eq_getElem?_getD, List.getElem?_eq_none (by omega), Option.getD_none]
        · rfl
    · rfl

end Memory

theorem behaviour_loadAddress {i : Instruction} (h : i.access? = some .address) :
    behaviour i = .loadAddress := by
  cases i with
  | la => rfl
  | _ => cases h

theorem behaviour_load {i : Instruction} {width : Width} {signed : Bool}
    (h : i.access? = some (.load width signed)) : behaviour i = .load width.count signed := by
  cases i with
  | lw | lh | lb | lbu =>
      cases h
      rfl
  | _ => cases h

theorem behaviour_store {i : Instruction} {width : Width} (h : i.access? = some (.store width)) :
    behaviour i = .store width.count := by
  cases i with
  | sw | sh | sb =>
      cases h
      rfl
  | _ => cases h

namespace Exec

variable {l : Layout} {v w : Visible} {st : Statement} {address value : Word} {width : Nat}
  {r : Register} {a : Address}

theorem readMemory_apply (address : Word) (width : Nat) (signed : Bool) (s : State) :
    Exec.readMemory address width signed s =
      match if signed then s.bus.memory.read address width
        else s.bus.memory.readUnsigned address width with
      | .ok word => (.ok word, { s with bus := s.bus.carry word })
      | .error fault => (.error fault, s) := by
  simp only [Exec.readMemory, transfer, Bus.readMemory]
  generalize (if signed = true then s.bus.memory.read address width
    else s.bus.memory.readUnsigned address width) = read
  cases read <;> rfl

theorem Answers.readMemory (inside : v.memory.HasRange address width) (signed : Bool) :
    Answers l v (Exec.readMemory address width signed) (Word.ofInt (extended signed width
      (fromBigEndian (v.memory.bytesAt (address.toNat - v.memory.base.toNat) width)))) := by
  intro s same layout
  subst same
  have read := readMemory_apply address width signed s
  rw [Memory.HasRange.read (m := s.bus.memory) inside signed] at read
  rw [read]
  exact ⟨rfl, rfl, layout⟩

namespace Ends

theorem readOutside (outside : ¬v.memory.HasRange address width) (signed : Bool)
    (f : Word → Exec Completion) : Ends l v (Exec.readMemory address width signed >>= f)
      (.error (.memoryOutOfRange address width)) v := by
  intro s same _
  subst same
  have read := readMemory_apply address width signed s
  rw [Memory.read_outside (m := s.bus.memory) outside signed] at read
  rw [bind_apply, read]
  exact ⟨rfl, rfl⟩

theorem writeMemory {width : Width} (inside : v.memory.HasRange address width.count) :
    Ends l v (do
      Exec.writeMemory address value width.count
      return .advance) (.ok .advance)
      { v with
        memory := v.memory.store (address.toNat - v.memory.base.toNat)
          (bigEndian value.toNat width.count) } := by
  intro s same _
  subst same
  have place := Memory.HasRange.offset? (m := s.bus.memory) inside
  rw [bind_apply, Exec.writeMemory, transfer, Bus.writeMemory, Memory.write,
    value.length_lowBytes_count, place, value.lowBytes_count]
  exact ⟨rfl, rfl⟩

theorem writeOutside {width : Width} (outside : ¬v.memory.HasRange address width.count) :
    Ends l v (do
      Exec.writeMemory address value width.count
      return .advance) (.error (.memoryOutOfRange address width.count)) v := by
  intro s same _
  subst same
  have place := Memory.offset?_eq_none (m := s.bus.memory) outside
  rw [bind_apply, Exec.writeMemory, transfer, Bus.writeMemory, Memory.write,
    value.length_lowBytes_count, place]
  exact ⟨rfl, rfl⟩

variable {result : Except Fault Completion}

theorem loadAddress (performed : behaviour st.instruction = .loadAddress)
    (operands : st.operands = [.register r, .address a]) (places : l.Places a) :
    Ends l v (execute st) (.ok .advance)
      { v with registers := v.registers.set r (v.place l a) } := by
  simp only [execute, performed]
  refine bind (.addressAt (by rw [operands]; rfl)) (bind (.effectiveAddress places) ?_)
  exact bind (.registerAt (by rw [operands]; rfl)) (writeResult r _)

/-- A load ends as it ends after its address is known. -/
theorem load {signed : Bool} (performed : behaviour st.instruction = .load width signed)
    (operands : st.operands = [.register r, .address a]) (places : l.Places a)
    (ends : Ends l v (do
      let value ← Exec.readMemory (v.place l a) width signed
      Exec.writeRegister r value
      return .advance) result w) : Ends l v (execute st) result w := by
  simp only [execute, performed]
  refine bind (.registerAt (by rw [operands]; rfl)) (bind (.addressAt (by rw [operands]; rfl)) ?_)
  exact bind (.effectiveAddress places) ends

/-- A store ends as it ends after its value and its address are known. -/
theorem store (performed : behaviour st.instruction = .store width)
    (operands : st.operands = [.register r, .address a]) (places : l.Places a)
    (ends : Ends l v (do
      Exec.writeMemory (v.place l a) (v.registers.get r) width
      return .advance) result w) : Ends l v (execute st) result w := by
  simp only [execute, performed]
  refine bind (.registerAt (by rw [operands]; rfl)) (bind (.readRegister r) ?_)
  exact bind (.addressAt (by rw [operands]; rfl)) (bind (.effectiveAddress places) ends)

end Ends

end Exec

namespace State

variable {s : State} {st : Statement} {r : Register} {a : Address} {address : Word} {width : Width}
  {signed : Bool}

/-- The addresses of a range, as numbers, are among those that the configuration gives to memory. -/
def InRange (s : State) (address : Word) (width : Width) : Prop :=
  s.config.dataBase.toNat ≤ address.toNat ∧
    address.toNat + width.count ≤ s.config.dataBase.toNat + s.config.memorySize.toNat

theorem SetUp.hasRange_iff (h : s.SetUp) :
    s.visible.memory.HasRange address width.count ↔ s.InRange address width := by
  rw [Memory.HasRange, InRange, ← h.base, ← h.size]
  rfl

/-- The next cycle faults if the range is not in memory, and then nothing changes. -/
structure Reaches (s : State) (address : Word) (width : Width) : Prop where
  faults : s.step.1 = .faulted (.memoryOutOfRange address width.count) ↔ ¬s.InRange address width
  leaves : ¬s.InRange address width → s.step.2.visible = s.visible

/-- A load gives its register the word of the integer for which the bytes in memory stand. -/
structure Loads (s : State) (r : Register) (address : Word) (width : Width) (signed : Bool) : Prop
    extends s.Reaches address width where
  loads : s.InRange address width → ∃ bytes, bytes.length = width.count ∧
    s.bus.memory.Holds address bytes ∧
    s.Assigns r (Word.ofInt (extended signed width.count (fromBigEndian bytes)))

/-- The next cycle retires and puts bytes into memory. -/
structure Puts (s : State) (address : Word) (bytes : List Byte) : Prop where
  retired : s.step.1 = .retired
  memory : ∀ x, s.step.2.bus.memory.at? x =
    if address.toNat ≤ x ∧ x < address.toNat + bytes.length then bytes[x - address.toNat]?
    else s.bus.memory.at? x
  registers : s.step.2.bus.registers = s.bus.registers
  console : s.step.2.console = s.console
  pc : s.step.2.control.pc.toNat = (s.control.pc.toNat + 4) % 0x100000000

/-- A store puts the low bytes of its register into memory. A load that follows finds them there. -/
structure Stores (s : State) (r : Register) (address : Word) (width : Width) : Prop
    extends s.Reaches address width where
  stores : s.InRange address width →
    s.Puts address (bigEndian (s.bus.registers.get r).toNat width.count)
  reloads : s.InRange address width → ∀ st q a signed, s.step.2.current? = some st →
    st.instruction.access? = some (.load width signed) →
    st.operands = [.register q, .address a] → a.IsIn s.step.2.program →
    s.step.2.visible.place s.step.2.layout a = address →
    s.step.2.Assigns q (Word.ofInt
      (extended signed width.count ((s.bus.registers.get r).toNat % 256 ^ width.count)))

/-- What an access does with the place of its operand, which is the sum of the parts modulo the
size of a word. -/
structure Accesses (s : State) (x : Access) (r : Register) (a : Address) : Prop where
  place : (s.visible.place s.layout a).toNat = s.visible.sum s.layout a % 0x100000000
  access : match x with
    | .address => s.Assigns r (s.visible.place s.layout a)
    | .load width signed => s.Loads r (s.visible.place s.layout a) width signed
    | .store width => s.Stores r (s.visible.place s.layout a) width

theorem reaches_of_ends (running : s.run = .running) (current : s.current? = some st)
    (retires : s.InRange address width → s.step.1 = .retired)
    (ends : ¬s.InRange address width → Exec.Ends s.layout s.visible (execute st)
      (.error (.memoryOutOfRange address width.count)) s.visible) : s.Reaches address width := by
  refine ⟨⟨fun faulted inside => ?_, fun outside => ?_⟩, fun outside => ?_⟩
  · cases (retires inside).symm.trans faulted
  · exact (step_of_ends running current (ends outside)).1
  · exact (step_of_ends running current (ends outside)).2

theorem SetUp.loads (h : s.SetUp) (running : s.run = .running) (current : s.current? = some st)
    (access : st.instruction.access? = some (.load width signed))
    (operands : st.operands = [.register r, .address a]) (inside : a.IsIn s.program) :
    s.Loads r (s.visible.place s.layout a) width signed := by
  have places := h.places inside
  have performed := behaviour_load access
  have assigns (covered : s.InRange (s.visible.place s.layout a) width) :=
    assigns_of_ends running current (.load performed operands places
      (.bind (.readMemory (h.hasRange_iff.mpr covered) signed) (.writeResult r _)))
  refine ⟨reaches_of_ends running current (fun covered => (assigns covered).retired)
    fun outside => ?_, fun covered => ⟨_, ?_, ?_, assigns covered⟩⟩
  · exact .load performed operands places
      (.readOutside (fun covered => outside (h.hasRange_iff.mp covered)) signed _)
  · exact Memory.length_bytesAt _ _ _
  · exact (h.hasRange_iff.mpr covered).holds

theorem Puts.holds {bytes : List Byte} (h : s.Puts address bytes) :
    s.step.2.bus.memory.Holds address bytes := by
  intro i inside
  rw [h.memory, if_pos ⟨by omega, by omega⟩, Nat.add_sub_cancel_left,
    List.getElem?_eq_getElem inside]

theorem SetUp.puts (h : s.SetUp) (running : s.run = .running) (current : s.current? = some st)
    (access : st.instruction.access? = some (.store width))
    (operands : st.operands = [.register r, .address a]) (inside : a.IsIn s.program)
    (covered : s.InRange (s.visible.place s.layout a) width) :
    s.Puts (s.visible.place s.layout a) (bigEndian (s.bus.registers.get r).toNat width.count) := by
  have covers := h.hasRange_iff.mpr covered
  have range : s.visible.memory.HasRange (s.visible.place s.layout a)
      (bigEndian (s.bus.registers.get r).toNat width.count).length := by
    rwa [length_bigEndian]
  obtain ⟨retired, shown⟩ := step_of_ends running current
    (.store (behaviour_store access) operands (h.places inside) (.writeMemory covers))
  have memory := congrArg Visible.memory shown
  have pc : s.step.2.control.pc = s.control.pc + 4 := congrArg Visible.pc shown
  refine ⟨retired, fun x => ?_, congrArg Visible.registers shown, congrArg Visible.console shown,
    ?_⟩
  · exact (congrArg (Memory.at? · x) memory).trans (range.at?_store x)
  · rw [pc, BitVec.toNat_add]
    rfl

theorem SetUp.stores (h : s.SetUp) (running : s.run = .running) (current : s.current? = some st)
    (access : st.instruction.access? = some (.store width))
    (operands : st.operands = [.register r, .address a]) (inside : a.IsIn s.program) :
    s.Stores r (s.visible.place s.layout a) width := by
  have puts := h.puts running current access operands inside
  refine ⟨reaches_of_ends running current (fun covered => (puts covered).retired)
    fun outside => ?_, puts, ?_⟩
  · exact .store (behaviour_store access) operands (h.places inside)
      (.writeOutside fun covers => outside (h.hasRange_iff.mp covers))
  · intro covered next q b signed there loads operands inside same
    have again : s.step.2.run = .running := by
      rw [run_step, (puts covered).retired]
      rfl
    have stays : s.step.2.InRange (s.step.2.visible.place s.step.2.layout b) width := by
      rw [same, InRange, (sameSetup_step s).config]
      exact covered
    obtain ⟨bytes, length, holds, assigns⟩ :=
      (h.step.loads again there loads operands inside).loads stays
    -- The bytes that are loaded and the bytes that were stored stand at the same place.
    rw [same] at holds
    rwa [holds.ext (puts covered).holds (by rw [length, length_bigEndian]),
      fromBigEndian_bigEndian] at assigns

/-- Every access goes to the place of its operand. -/
theorem accesses_place (setUp : s.SetUp) (running : s.run = .running)
    (current : s.current? = some st)
    (accepted : st.instruction.format.accepts (st.operands.map Operand.kind) = true) {x : Access}
    (access : st.instruction.access? = some x)
    (inside : ∀ a, .address a ∈ st.operands → a.IsIn s.program) :
    ∃ r a, st.operands = [.register r, .address a] ∧ s.Accesses x r a := by
  obtain ⟨r, a, operands⟩ : ∃ r a, st.operands = [.register r, .address a] := by
    have format : st.instruction.format = .registerAddress := by
      generalize st.instruction = i at access
      cases i <;> cases access <;> rfl
    exact Format.registerAddress_accepts (format ▸ accepted)
  have inside : a.IsIn s.program := inside a (by simp [operands])
  refine ⟨r, a, operands, ?_, ?_⟩
  · exact Exact.modular_isHeldBy_ofInt _
  · cases x with
    | address =>
        exact assigns_of_ends running current
          (.loadAddress (behaviour_loadAddress access) operands (setUp.places inside))
    | load width signed => exact setUp.loads running current access operands inside
    | store width => exact setUp.stores running current access operands inside

/-- The last two bytes of the buffer `x`, by an offset and a negative register. -/
def lastHalf : Address :=
  { label := some "x", offset := some 2, base := some .v0, target := some (.data 0) }

/-- A machine that stores `$a0` into a buffer of three bytes and loads it from there. -/
def storing : State where
  program := {
    text := { entries := #[⟨.sh, [.register .a0, .address lastHalf], some 2⟩,
      ⟨.lh, [.register .v0, .address lastHalf], some 3⟩] }
    data := { entries := #[⟨.space, 3, none, some 1⟩], labels := [("x", 0)] } }
  config := { memorySize := 3 }
  layout := {
    textBase := 0x400000
    textLength := 2
    dataBase := 0x10010000
    dataOffsets := #[0]
    dataSize := 3 }
  bus := {
    registers := (({} : RegisterFile).set .a0 0x1234ABCD).set .v0 0xFFFFFFFF
    memory := { base := 0x10010000, size := 3 } }
  control := { pc := 0x400000 }

/-- The half word ends where memory ends, and its sign comes back with the load. -/
theorem accesses_place_storing :
    (∃ r a, [Operand.register .a0, .address lastHalf] = [.register r, .address a] ∧
      storing.Accesses (.store .half) r a) ∧
      storing.InRange 0x10010001 .half ∧
      storing.step.2.step.2.bus.registers.get .v0 = 0xFFFFABCD := by
  refine ⟨@accesses_place storing ⟨.sh, [.register .a0, .address lastHalf], some 2⟩
    ⟨rfl, rfl, rfl⟩ rfl rfl (by decide) _ rfl ?_, ⟨by decide, by decide⟩, by decide +kernel⟩
  intro a listed
  obtain rfl : a = lastHalf := by simpa using listed
  intro _ _
  exact ⟨.data 0, rfl, Nat.one_pos⟩

end State

end Machine

end Mips
