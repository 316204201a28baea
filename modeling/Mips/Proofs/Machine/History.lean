import Mips.Proofs.Machine.Access

/-!
The history of memory. Memory is a partial map from addresses to bytes: at every address that it
covers stands the byte that the last write in its bounds has put there, or zero if there has been
none. A call is answered from this map alone, if the whole range that it asks for is covered, and
else it is refused and changes nothing.
-/
namespace Mips.Machine.Memory

/-- A call of memory with what it is given. -/
inductive Call
  | write (address : Word) (bytes : List Byte)
  | read (address : Word) (length : Nat)
  | readUnsigned (address : Word) (length : Nat)
  | readBytes (address : Word) (length : Nat)
  | contains (address : Word) (length : Nat)

inductive Answer
  | done
  | word (value : Word)
  | bytes (value : List Byte)
  | truth (value : Bool)

/-- The addresses of a range, as numbers, are among those that memory covers. -/
def InBounds (base size address : Word) (length : Nat) : Prop :=
  base.toNat ≤ address.toNat ∧ address.toNat + length ≤ base.toNat + size.toNat

instance (base size address : Word) (length : Nat) :
    Decidable (InBounds base size address length) :=
  inferInstanceAs (Decidable (_ ∧ _))

namespace Call

/-- The answer to a call, and memory after it. -/
def perform (m : Memory) : Call → Except Fault Answer × Memory
  | write address bytes =>
      match m.write address bytes with
      | .ok written => (.ok .done, written)
      | .error fault => (.error fault, m)
  | read address length => ((m.read address length).map .word, m)
  | readUnsigned address length => ((m.readUnsigned address length).map .word, m)
  | readBytes address length => ((m.readBytes address length).map .bytes, m)
  | contains address length => (.ok (.truth (m.contains address length)), m)

/-- The range of an access, by its address and its length. -/
def range? : Call → Option (Word × Nat)
  | write address bytes => some (address, bytes.length)
  | read address length | readUnsigned address length | readBytes address length =>
      some (address, length)
  | contains _ _ => none

/-- The byte that a write in bounds puts at an address. -/
def byte? (base size : Word) (x : Nat) : Call → Option Byte
  | write address bytes =>
      if InBounds base size address bytes.length ∧ address.toNat ≤ x then bytes[x - address.toNat]?
      else none
  | _ => none

end Call

/-- Memory after some calls, the first one first. -/
def after (m : Memory) (past : List Call) : Memory :=
  past.foldl (fun m c => (c.perform m).2) m

/-- The byte that the last of some calls to do so has put at an address. -/
def lastByte (base size : Word) (past : List Call) (x : Nat) : Byte :=
  (past.reverse.findSome? (Call.byte? base size x)).getD 0

/-- What stands in memory is what the calls have put there. -/
structure Mirrors (m : Memory) (base size : Word) (past : List Call) : Prop where
  base_eq : m.base = base
  size_eq : m.size = size
  at?_eq : ∀ x, m.at? x =
    if base.toNat ≤ x ∧ x < base.toNat + size.toNat then some (lastByte base size past x) else none

variable {m : Memory} {base size address : Word} {length : Nat} {past : List Call}

theorem lastByte_concat (c : Call) (x : Nat) : lastByte base size (past ++ [c]) x =
    (c.byte? base size x).getD (lastByte base size past x) := by
  rw [lastByte, lastByte, List.reverse_concat, List.findSome?_cons]
  cases c.byte? base size x <;> rfl

theorem byte?_of_outside {bytes : List Byte} {x : Nat}
    (outside : ¬(address.toNat ≤ x ∧ x < address.toNat + bytes.length)) :
    (Call.write address bytes).byte? base size x = none := by
  rw [Call.byte?]
  split
  · next covered => exact List.getElem?_eq_none (by omega)
  · rfl

theorem contains_iff : m.contains address length = true ↔ m.HasRange address length := by
  rw [contains, Option.isSome_iff_exists]
  constructor
  · rintro ⟨offset, found⟩
    obtain ⟨place, inside⟩ := offset?_eq_some_iff.mp found
    exact ⟨by omega, by omega⟩
  · intro inside
    exact ⟨_, inside.offset?⟩

theorem write_inside {bytes : List Byte} (inside : m.HasRange address bytes.length) :
    m.write address bytes = .ok (m.store (address.toNat - m.base.toNat) bytes) := by
  rw [write, inside.offset?]

theorem write_outside {bytes : List Byte} (outside : ¬m.HasRange address bytes.length) :
    m.write address bytes = .error (.memoryOutOfRange address bytes.length) := by
  rw [write, offset?_eq_none outside]

namespace Mirrors

theorem hasRange_iff (h : m.Mirrors base size past) :
    m.HasRange address length ↔ InBounds base size address length := by
  rw [HasRange, InBounds, h.base_eq, h.size_eq]

theorem fresh (base size : Word) : Mirrors { base, size } base size [] := by
  refine ⟨rfl, rfl, fun x => ?_⟩
  have empty (offset : Nat) : ({ base, size } : Memory).byteAt offset = 0 := by
    simp [byteAt]
  rw [at?, empty]
  rfl

/-- A call that puts no byte anywhere leaves no trace. -/
theorem idle (h : m.Mirrors base size past) {c : Call} (idle : ∀ x, c.byte? base size x = none) :
    m.Mirrors base size (past ++ [c]) := by
  refine ⟨h.base_eq, h.size_eq, fun x => ?_⟩
  rw [h.at?_eq, lastByte_concat, idle, Option.getD_none]

theorem write (h : m.Mirrors base size past) {bytes : List Byte}
    (inside : m.HasRange address bytes.length) :
    (m.store (address.toNat - m.base.toNat) bytes).Mirrors base size
      (past ++ [.write address bytes]) := by
  refine ⟨(base_store _ _ _).trans h.base_eq, (size_store _ _ _).trans h.size_eq, fun x => ?_⟩
  have bounded : InBounds base size address bytes.length := h.hasRange_iff.mp inside
  rw [inside.at?_store, lastByte_concat]
  by_cases here : address.toNat ≤ x ∧ x < address.toNat + bytes.length
  · have covered : base.toNat ≤ x ∧ x < base.toNat + size.toNat := by
      obtain ⟨low, high⟩ := bounded
      omega
    rw [if_pos here, if_pos covered, Call.byte?, if_pos ⟨bounded, here.1⟩,
      List.getElem?_eq_getElem (by omega), Option.getD_some]
  · rw [if_neg here, byte?_of_outside here, h.at?_eq, Option.getD_none]

theorem perform (h : m.Mirrors base size past) (c : Call) :
    (c.perform m).2.Mirrors base size (past ++ [c]) := by
  cases c with
  | read _ _ | readUnsigned _ _ | readBytes _ _ | contains _ _ => exact h.idle fun _ => rfl
  | write address bytes =>
      by_cases inside : m.HasRange address bytes.length
      · rw [Call.perform, write_inside inside]
        exact h.write inside
      · rw [Call.perform, write_outside inside]
        refine h.idle fun x => ?_
        rw [Call.byte?, if_neg fun bounded => inside (h.hasRange_iff.mpr bounded.1)]

theorem after (h : m.Mirrors base size past) (more : List Call) :
    (m.after more).Mirrors base size (past ++ more) := by
  induction more generalizing m past with
  | nil =>
      rw [List.append_nil]
      exact h
  | cons c rest ih =>
      have whole := ih (h.perform c)
      rw [List.append_assoc, List.singleton_append] at whole
      exact whole

end Mirrors

/-- The words of a range are made of its bytes, most significant first. Each byte that has an
address of its own is read there alone. -/
structure Composes (m : Memory) (address : Word) (width : Width) (bytes : List Byte) : Prop where
  whole : m.readBytes address width.count = .ok bytes
  alone : ∀ i (h : i < bytes.length) (place : Word), place.toNat = address.toNat + i →
    m.readUnsigned place 1 = .ok (bytes[i].setWidth 32)
  unsigned : ∃ word, m.readUnsigned address width.count = .ok word ∧
    word.toNat = fromBigEndian bytes
  signed : ∃ word, m.read address width.count = .ok word ∧
    word.toInt = extended true width.count (fromBigEndian bytes)

/-- What memory answers with these bounds and these calls behind it. -/
structure Refines (m : Memory) (base size : Word) (past : List Call) : Prop where
  contains : ∀ address length,
    m.contains address length = true ↔ InBounds base size address length
  done : ∀ (c : Call) address length, c.range? = some (address, length) →
    ((∃ answer, (c.perform m).1 = .ok answer) ↔ m.contains address length = true)
  refused : ∀ (c : Call) address length, c.range? = some (address, length) →
    m.contains address length = false →
    c.perform m = (.error (.memoryOutOfRange address length), m)
  last : ∀ address length bytes, m.readBytes address length = .ok bytes →
    bytes = (List.range length).map fun i => lastByte base size past (address.toNat + i)
  composed : ∀ address width, m.contains address width.count = true →
    ∃ bytes, m.Composes address width bytes

theorem perform_refused {c : Call} (range : c.range? = some (address, length))
    (outside : ¬m.HasRange address length) :
    c.perform m = (.error (.memoryOutOfRange address length), m) := by
  cases c with
  | contains _ _ => cases range
  | write _ bytes =>
      cases range
      rw [Call.perform, write_outside outside]
  | read _ _ | readUnsigned _ _ | readBytes _ _ =>
      cases range
      simp only [Call.perform, read, readUnsigned, readBytes_outside outside, Except.map]

theorem perform_done {c : Call} (range : c.range? = some (address, length))
    (inside : m.HasRange address length) : ∃ answer, (c.perform m).1 = .ok answer := by
  cases c with
  | contains _ _ => cases range
  | write _ bytes =>
      cases range
      rw [Call.perform, write_inside inside]
      exact ⟨_, rfl⟩
  | read _ _ | readUnsigned _ _ | readBytes _ _ =>
      cases range
      simp only [Call.perform, read, readUnsigned, inside.readBytes, Except.map]
      exact ⟨_, rfl⟩

theorem byte?_eq_at? (m : Memory) (address : Word) : m.byte? address = m.at? address.toNat := by
  by_cases inside : m.HasRange address 1
  · rw [byte?, inside.offset?, at?, if_pos ⟨inside.1, inside.2⟩]
    rfl
  · rw [byte?, offset?_eq_none inside, at?, if_neg fun covered => inside ⟨covered.1, covered.2⟩]
    rfl

theorem toNat_unsigned (width : Width) {n : Nat} (small : n < 256 ^ width.count) :
    (Word.ofInt (extended false width.count n)).toNat = n := by
  have fits : n < 0x100000000 := by
    cases width <;> simp only [Width.count] at small <;> omega
  rw [extended, if_neg fun signed => Bool.false_ne_true signed.1, Word.ofInt, BitVec.ofInt_natCast,
    BitVec.toNat_ofNat, Nat.mod_eq_of_lt fits]

theorem toInt_signed (width : Width) {n : Nat} (small : n < 256 ^ width.count) :
    (Word.ofInt (extended true width.count n)).toInt = extended true width.count n := by
  rw [Word.ofInt, BitVec.toInt_ofInt]
  apply Int.bmod_eq_of_le <;> cases width <;> simp [extended, Width.count] at small ⊢ <;> omega

theorem HasRange.composes {width : Width} (inside : m.HasRange address width.count) :
    m.Composes address width (m.bytesAt (address.toNat - m.base.toNat) width.count) := by
  have small := fromBigEndian_lt (m.bytesAt (address.toNat - m.base.toNat) width.count)
  rw [length_bytesAt] at small
  refine ⟨inside.readBytes, ?_, ?_, ?_⟩
  · intro i here place same
    rw [readUnsigned_one, byte?_eq_at?, same, inside.holds i here]
  · exact ⟨_, inside.read false, toNat_unsigned width small⟩
  · exact ⟨_, inside.read true, toInt_signed width small⟩

/-- What is read is what the last writes have put there. -/
theorem Mirrors.bytesAt_eq (h : m.Mirrors base size past) (inside : m.HasRange address length) :
    m.bytesAt (address.toNat - m.base.toNat) length =
      (List.range length).map fun i => lastByte base size past (address.toNat + i) := by
  obtain ⟨low, high⟩ := h.hasRange_iff.mp inside
  apply List.ext_getElem
  · rw [length_bytesAt, List.length_map, List.length_range]
  · intro i here there
    have found := inside.holds i here
    rw [length_bytesAt] at here
    rw [h.at?_eq, if_pos ⟨by omega, by omega⟩] at found
    rw [List.getElem_map, List.getElem_range]
    exact (Option.some.inj found).symm

/-- After any calls memory answers as the partial map does that their writes have made. -/
theorem refines_after (base size : Word) (past : List Call) :
    Refines (after { base, size } past) base size past := by
  have mirrors : Mirrors (after { base, size } past) base size past :=
    (Mirrors.fresh base size).after past
  generalize after { base, size } past = m at mirrors
  refine ⟨fun _ _ => contains_iff.trans mirrors.hasRange_iff, ?_, ?_, ?_, ?_⟩
  · intro c address length range
    by_cases inside : m.HasRange address length
    · exact iff_of_true (perform_done range inside) (contains_iff.mpr inside)
    · rw [perform_refused range inside]
      exact iff_of_false nofun (mt contains_iff.mp inside)
  · intro c address length range outside
    exact perform_refused range fun inside => by simp [contains_iff.mpr inside] at outside
  · intro address length bytes read
    by_cases inside : m.HasRange address length
    · rw [inside.readBytes, mirrors.bytesAt_eq inside] at read
      exact (Except.ok.inj read).symm
    · rw [readBytes_outside inside] at read
      contradiction
  · intro address width inside
    exact ⟨_, (contains_iff.mp inside).composes⟩

/-- The last write ends beyond memory, so it does not count. -/
example : lastByte 0 4 [.write 0 [1, 2, 3], .write 2 [9], .write 2 [7, 7, 7]] 2 = 9 := by decide

end Mips.Machine.Memory
