import Mips.Machine.Config
import Mips.Machine.Memory
import Mips.Text.Encoding

/-!
The address map of a program. Statements stand four bytes apart; variables are packed in order,
each at the next multiple of its alignment.
-/
namespace Mips.Machine

/-- Where an address leads in the text. -/
inductive TextSlot
  | statement (index : Nat)
  | finish
  deriving DecidableEq, Repr

structure Layout where
  textBase : Word
  textLength : Nat
  dataBase : Word
  dataOffsets : Array Nat
  dataSize : Nat
  deriving DecidableEq, Repr

namespace Layout

/-- The bytes between two statements. -/
def stride : Nat := 4

/-- Sizes are counted up to this bound and no further. -/
def sizeBound : Nat := 0xFFFFFFFFFFFFFFFF

def alignUp (position alignment : Nat) : Nat :=
  (position + alignment - 1) / alignment * alignment

/-- The offsets of variables that are packed from a position on, and the end of the last. -/
def pack (capacity : Nat) : Nat → List Variable → Except Fault (List Nat × Nat)
  | position, [] => .ok ([], position)
  | position, v :: rest =>
      let start := alignUp position v.kind.alignment
      let stop := min (start + v.size) sizeBound
      if capacity < stop then .error (.dataSegmentTooLarge stop capacity)
      else (pack capacity stop rest).map fun packed => (start :: packed.1, packed.2)

def plan (p : Program) (c : Config) : Except Fault Layout :=
  (pack c.memorySize.toNat 0 p.data.entries.toList).map fun packed => {
    textBase := c.textBase
    textLength := p.text.size
    dataBase := c.dataBase
    dataOffsets := packed.1.toArray
    dataSize := packed.2 }

def textAddress (l : Layout) (index : Nat) : Word :=
  l.textBase + BitVec.ofNat 32 (index * stride)

def textSlot? (l : Layout) (address : Word) : Option TextSlot :=
  let distance := address.toNat - l.textBase.toNat
  if l.textBase.toNat ≤ address.toNat ∧ distance % stride = 0 then
    let index := distance / stride
    if index < l.textLength then some (.statement index)
    else if index = l.textLength then some .finish
    else none
  else none

def dataAddress? (l : Layout) (index : Nat) : Option Word :=
  l.dataOffsets[index]?.map fun offset => l.dataBase + BitVec.ofNat 32 offset

/-- The address of a target that exists. -/
def targetAddress? (l : Layout) : Target → Option Word
  | .text index => if index < l.textLength then some (l.textAddress index) else none
  | .data index => l.dataAddress? index

/-- The bytes a variable starts with; the rest of its space is zero. -/
def initialBytes (v : Variable) : List Byte :=
  match v.kind, v.initial with
  | .ascii, some (.string text) | .asciiz, some (.string text) =>
      let bytes := Text.utf8Bytes text.toList
      bytes.take v.size ++ List.replicate (v.size - bytes.length) 0
  | .byte, some (.integer value) | .half, some (.integer value) | .word, some (.integer value) =>
      (Word.ofInt value).lowBytes v.size
  | _, _ => []

/-- Writes variables at the given addresses. What precedes a fault is written. -/
def loadAt : List (Word × Variable) → Memory → Except Fault Unit × Memory
  | [], m => (.ok (), m)
  | (address, v) :: rest, m =>
      let bytes := initialBytes v
      if bytes.isEmpty then loadAt rest m
      else match m.write address bytes with
        | .ok m => loadAt rest m
        | .error fault => (.error fault, m)

/-- Writes the initial data of a program into memory. -/
def load (l : Layout) (p : Program) (m : Memory) : Except Fault Unit × Memory :=
  let addresses := l.dataOffsets.toList.map fun offset => l.dataBase + BitVec.ofNat 32 offset
  loadAt (addresses.zip p.data.entries.toList) m

end Layout

end Mips.Machine
