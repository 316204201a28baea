import Std.Data.TreeMap
import Mips.Machine.Fault

/-!
Main memory: a range of addresses that holds a byte at each. Bytes that were never written are
zero and take no space. An access is in range as a whole or faults without effect.
-/
namespace Mips.Machine

structure Memory where
  base : Word
  size : Word
  stored : Std.TreeMap Nat Byte := {}

namespace Memory

/-- The position of an access from the base, if all its bytes are in memory. -/
def offset? (m : Memory) (address : Word) (length : Nat) : Option Nat :=
  if m.base.toNat ≤ address.toNat ∧
      address.toNat - m.base.toNat + length ≤ m.size.toNat then
    some (address.toNat - m.base.toNat)
  else none

def contains (m : Memory) (address : Word) (length : Nat) : Bool :=
  (m.offset? address length).isSome

/-- The byte at a position from the base. -/
def byteAt (m : Memory) (offset : Nat) : Byte :=
  m.stored.getD offset 0

def bytesAt (m : Memory) (offset length : Nat) : List Byte :=
  (List.range length).map fun i => m.byteAt (offset + i)

/-- All bytes in order. -/
def image (m : Memory) : List Byte :=
  m.bytesAt 0 m.size.toNat

def readBytes (m : Memory) (address : Word) (length : Nat) : Except Fault (List Byte) :=
  match m.offset? address length with
  | some offset => .ok (m.bytesAt offset length)
  | none => .error (.memoryOutOfRange address length)

def read (m : Memory) (address : Word) (length : Nat) : Except Fault Word :=
  (m.readBytes address length).map Word.ofBytes

def readUnsigned (m : Memory) (address : Word) (length : Nat) : Except Fault Word :=
  (m.readBytes address length).map Word.ofBytesUnsigned

/-- Puts bytes at consecutive positions. -/
def store (m : Memory) : Nat → List Byte → Memory
  | _, [] => m
  | offset, byte :: rest =>
      store { m with stored := m.stored.insert offset byte } (offset + 1) rest

def write (m : Memory) (address : Word) (bytes : List Byte) : Except Fault Memory :=
  match m.offset? address bytes.length with
  | some offset => .ok (m.store offset bytes)
  | none => .error (.memoryOutOfRange address bytes.length)

theorem offset?_eq_some_iff {m : Memory} {address : Word} {length offset : Nat} :
    m.offset? address length = some offset ↔
      address.toNat = m.base.toNat + offset ∧ offset + length ≤ m.size.toNat := by
  simp only [offset?]
  split
  · simp only [Option.some.injEq]
    omega
  · simp only [reduceCtorEq, false_iff]
    omega

theorem byteAt_store (m : Memory) (offset : Nat) (bytes : List Byte) (i : Nat) :
    (m.store offset bytes).byteAt i =
      if offset ≤ i then bytes.getD (i - offset) (m.byteAt i) else m.byteAt i := by
  induction bytes generalizing m offset with
  | nil => simp [store]
  | cons byte rest ih =>
      rw [store, ih]
      rcases Nat.lt_trichotomy i offset with before | here | after
      · rw [if_neg (by omega), if_neg (by omega)]
        simp only [byteAt, Std.TreeMap.getD_insert, Nat.compare_eq_eq]
        rw [if_neg (by omega)]
      · subst here
        rw [if_neg (by omega), if_pos (Nat.le_refl i)]
        simp [byteAt]
      · rw [if_pos (by omega), if_pos (by omega), show i - offset = i - (offset + 1) + 1 by omega]
        simp only [byteAt, Std.TreeMap.getD_insert, Nat.compare_eq_eq, List.getD_cons_succ]
        rw [if_neg (by omega)]

end Memory

end Mips.Machine
