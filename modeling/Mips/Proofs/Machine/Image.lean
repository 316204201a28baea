import Mips.Proofs.Machine.Packing
import Mips.Proofs.Machine.Agreement

/-!
The image of the data. Variables that are declared by directives take as many bytes as their
contents have. When they are loaded at the places where they were packed, each of them holds its
contents and all other bytes of memory stay zero, as long as no variable that has to be written
lies beyond the last address; the first one that does is where loading stops.
-/
namespace Mips

/-- A variable as a directive declares it. -/
inductive Variable.Declared : Variable → Prop
  | byte (value : Int) (line : Option Nat) : Declared ⟨.byte, 1, some (.integer value), line⟩
  | half (value : Int) (line : Option Nat) : Declared ⟨.half, 2, some (.integer value), line⟩
  | word (value : Int) (line : Option Nat) : Declared ⟨.word, 4, some (.integer value), line⟩
  | ascii (text : String) (line : Option Nat) :
      Declared ⟨.ascii, text.utf8ByteSize, some (.string text), line⟩
  | asciiz (text : String) (line : Option Nat) :
      Declared ⟨.asciiz, text.utf8ByteSize + 1, some (.string (text.push '\x00')), line⟩
  | space (size : Nat) (line : Option Nat) : Declared ⟨.space, size, none, line⟩

/-- The last digits of an integer to the base 256. -/
def bigEndian (value : Int) : Nat → List Byte
  | 0 => []
  | count + 1 => bigEndian (value / 256) count ++ [BitVec.ofInt 8 value]

/-- The bytes for which a variable stands. -/
def Variable.contents (v : Variable) : List Byte :=
  match v.initial with
  | some (.integer value) => bigEndian value v.size
  | some (.string text) => text.toUTF8.data.toList.map UInt8.toBitVec
  | _ => List.replicate v.size 0

theorem Word.extractLsb'_ofInt (value : Int) :
    (Word.ofInt value).extractLsb' 0 8 = BitVec.ofInt 8 value ∧
      (Word.ofInt value).extractLsb' 8 8 = BitVec.ofInt 8 (value / 256) ∧
      (Word.ofInt value).extractLsb' 16 8 = BitVec.ofInt 8 (value / 256 / 256) ∧
      (Word.ofInt value).extractLsb' 24 8 = BitVec.ofInt 8 (value / 256 / 256 / 256) := by
  refine ⟨?_, ?_, ?_, ?_⟩ <;>
    · apply BitVec.eq_of_toNat_eq
      simp only [Word.ofInt, BitVec.extractLsb'_toNat, BitVec.toNat_ofInt,
        Nat.shiftRight_eq_div_pow]
      omega

theorem Text.utf8Bytes_toList (text : String) :
    Text.utf8Bytes text.toList = text.toUTF8.data.toList.map UInt8.toBitVec := by
  have encoded : text.toUTF8 = text.toList.utf8Encode := String.utf8Encode_toList.symm
  rw [encoded, List.utf8Encode, List.data_toByteArray, List.map_flatMap]
  rfl

theorem Text.length_toUTF8 (text : String) :
    (text.toUTF8.data.toList.map UInt8.toBitVec).length = text.utf8ByteSize := by
  rw [List.length_map]
  rfl

namespace Variable.Declared

variable {v : Variable}

theorem length_contents (h : v.Declared) : v.contents.length = v.size := by
  cases h with
  | byte _ _ | half _ _ | word _ _ => simp [contents, bigEndian]
  | ascii text _ => exact Text.length_toUTF8 text
  | asciiz text _ =>
      have nul : ('\x00' : Char).utf8Size = 1 := rfl
      rw [contents, Text.length_toUTF8, String.utf8ByteSize_push, nul]
  | space size _ => exact List.length_replicate

/-- What is written for a variable is what it stands for; space is left as it is. -/
theorem initialBytes_eq (h : v.Declared) :
    Machine.Layout.initialBytes v = if v.initial.isSome then v.contents else [] := by
  have text (s : String) : (Text.utf8Bytes s.toList).take s.utf8ByteSize ++
      List.replicate (s.utf8ByteSize - (Text.utf8Bytes s.toList).length) 0 =
        s.toUTF8.data.toList.map UInt8.toBitVec := by
    rw [Text.utf8Bytes_toList, Text.length_toUTF8, Nat.sub_self, List.replicate_zero,
      List.append_nil, List.take_of_length_le (Text.length_toUTF8 s).le]
  cases h with
  | byte value _ | half value _ | word value _ =>
      simp [Machine.Layout.initialBytes, contents, bigEndian, Word.lowBytes, Word.bytes,
        Word.extractLsb'_ofInt value]
  | ascii s _ => exact text s
  | asciiz s _ =>
      have nul : ('\x00' : Char).utf8Size = 1 := rfl
      have size : s.utf8ByteSize + 1 = (s.push '\x00').utf8ByteSize := by
        rw [String.utf8ByteSize_push, nul]
      rw [size]
      exact text (s.push '\x00')
  | space _ _ => rfl

/-- Memory that was zero cannot tell space from zeros that are written. -/
theorem getD_initialBytes (h : v.Declared) (i : Nat) :
    (Machine.Layout.initialBytes v).getD i 0 = v.contents.getD i 0 := by
  rw [h.initialBytes_eq]
  cases h with
  | byte _ _ | half _ _ | word _ _ | ascii _ _ | asciiz _ _ => rfl
  | space size _ =>
      by_cases inside : i < size <;> simp [contents, inside]

end Variable.Declared

namespace Machine

open Layout

variable {m : Memory} {x : Placement} {placed : List Placement}

namespace Layout.Placement

/-- The address of a variable; it is taken modulo the size of a word. -/
def address (base : Word) (x : Placement) : Word :=
  base + BitVec.ofNat 32 x.1

/-- The variable has bytes to be written, but the first of them is beyond the last address. -/
def isBeyond (base : Word) (x : Placement) : Bool :=
  x.2.initial.isSome && decide (0 < x.2.size) && decide (0x100000000 ≤ base.toNat + x.1)

theorem toNat_address (base : Word) (x : Placement) :
    (x.address base).toNat = (base.toNat + x.1) % 0x100000000 := by
  rw [address, BitVec.toNat_add, BitVec.toNat_ofNat, Nat.add_mod_mod]

/-- A variable that ends before the addresses do is not beyond the last one. -/
theorem isBeyond_of_stop_le {base : Word} (h : base.toNat + x.stop ≤ 0x100000000) :
    x.isBeyond base = false := by
  rw [stop] at h
  by_contra beyond
  simp only [isBeyond, Bool.not_eq_false, Bool.and_eq_true, decide_eq_true_eq] at beyond
  omega

theorem initialBytes_eq_nil_iff (h : x.2.Declared) :
    initialBytes x.2 = [] ↔ x.2.initial.isSome = false ∨ x.2.size = 0 := by
  rw [h.initialBytes_eq, ← h.length_contents, List.length_eq_zero_iff]
  cases x.2.initial.isSome <;> simp

theorem length_initialBytes (h : x.2.Declared) (initialised : x.2.initial.isSome = true) :
    (initialBytes x.2).length = x.2.size := by
  rw [h.initialBytes_eq, if_pos initialised, h.length_contents]

end Layout.Placement

namespace Memory

/-- Memory after variables have been written at their places. -/
def filled (m : Memory) (placed : List Placement) : Memory :=
  placed.foldl (fun m x => m.store x.1 (initialBytes x.2)) m

end Memory

namespace Layout

theorem loadAt_cons (declared : x.2.Declared) (inside : x.stop ≤ m.size.toNat)
    (rest : List (Word × Variable)) :
    loadAt ((x.address m.base, x.2) :: rest) m =
      if x.isBeyond m.base then (.error (.memoryOutOfRange (x.address m.base) x.2.size), m)
      else loadAt rest (m.store x.1 (initialBytes x.2)) := by
  have size := m.size.isLt
  have base := m.base.isLt
  have place := x.toNat_address m.base
  simp only [loadAt, Placement.stop] at inside ⊢
  by_cases nothing : initialBytes x.2 = []
  · have absent := (Placement.initialBytes_eq_nil_iff declared).mp nothing
    have low : x.isBeyond m.base = false := by
      obtain absent | absent := absent <;> simp [Placement.isBeyond, absent]
    simp [nothing, low, Memory.store]
  · have present := mt (Placement.initialBytes_eq_nil_iff declared).mpr nothing
    rw [not_or, Bool.not_eq_false] at present
    have length := Placement.length_initialBytes declared present.1
    have beyond : x.isBeyond m.base = decide (0x100000000 ≤ m.base.toNat + x.1) := by
      simp [Placement.isBeyond, present.1, Nat.pos_of_ne_zero present.2]
    rw [if_neg (by simpa using nothing), beyond]
    by_cases high : 0x100000000 ≤ m.base.toNat + x.1
    · -- The address has wrapped and lies below the base.
      have outside : m.offset? (x.address m.base) x.2.size = none := by
        rw [Option.eq_none_iff_forall_ne_some]
        intro offset found
        have found := (Memory.offset?_eq_some_iff.mp found).1
        omega
      rw [if_pos (decide_eq_true high)]
      simp [Memory.write, outside, length]
    · have found : m.offset? (x.address m.base) x.2.size = some x.1 := by
        rw [Memory.offset?_eq_some_iff, place]
        omega
      rw [if_neg (by simpa only [decide_eq_true_eq] using high)]
      simp [Memory.write, length, found]

/-- Loading stops at the first variable that is beyond the last address. -/
theorem fst_loadAt (declared : ∀ x ∈ placed, x.2.Declared)
    (inside : ∀ x ∈ placed, x.stop ≤ m.size.toNat) :
    (loadAt (placed.map fun x => (x.address m.base, x.2)) m).1 =
      match placed.find? (Placement.isBeyond m.base) with
      | none => .ok ()
      | some x => .error (.memoryOutOfRange (x.address m.base) x.2.size) := by
  induction placed generalizing m with
  | nil => rfl
  | cons x rest ih =>
      obtain ⟨here, later⟩ := List.forall_mem_cons.mp declared
      obtain ⟨fits, others⟩ := List.forall_mem_cons.mp inside
      rw [List.map_cons, loadAt_cons here fits, List.find?_cons]
      cases x.isBeyond m.base with
      | true => rfl
      | false =>
          have next := ih later (m := m.store x.1 (initialBytes x.2))
            (by simpa only [Memory.size_store] using others)
          simpa only [Memory.base_store, Bool.false_eq_true, if_false] using next

theorem loadAt_eq_filled (declared : ∀ x ∈ placed, x.2.Declared)
    (inside : ∀ x ∈ placed, x.stop ≤ m.size.toNat)
    (addressed : ∀ x ∈ placed, x.isBeyond m.base = false) :
    loadAt (placed.map fun x => (x.address m.base, x.2)) m = (.ok (), m.filled placed) := by
  induction placed generalizing m with
  | nil => rfl
  | cons x rest ih =>
      obtain ⟨here, later⟩ := List.forall_mem_cons.mp declared
      obtain ⟨fits, others⟩ := List.forall_mem_cons.mp inside
      obtain ⟨low, rest_low⟩ := List.forall_mem_cons.mp addressed
      rw [List.map_cons, loadAt_cons here fits, low, if_neg Bool.false_ne_true]
      have next := ih later (m := m.store x.1 (initialBytes x.2))
        (by simpa only [Memory.size_store] using others)
        (by simpa only [Memory.base_store] using rest_low)
      simp only [Memory.base_store] at next
      exact next

end Layout

namespace Memory

variable {position stop : Nat}

theorem base_filled (m : Memory) (placed : List Placement) : (m.filled placed).base = m.base := by
  induction placed generalizing m with
  | nil => rfl
  | cons x rest ih => exact (ih _).trans (base_store m _ _)

theorem size_filled (m : Memory) (placed : List Placement) : (m.filled placed).size = m.size := by
  induction placed generalizing m with
  | nil => rfl
  | cons x rest ih => exact (ih _).trans (size_store m _ _)

theorem byteAt_store_initialBytes (declared : x.2.Declared) {i : Nat} (after : x.1 ≤ i)
    (clear : m.byteAt i = 0) :
    (m.store x.1 (initialBytes x.2)).byteAt i = x.2.contents.getD (i - x.1) 0 := by
  rw [byteAt_store, if_pos after, clear, declared.getD_initialBytes]

theorem clear_store (declared : x.2.Declared) (clear : ∀ i, x.1 ≤ i → m.byteAt i = 0) {i : Nat}
    (after : x.stop ≤ i) : (m.store x.1 (initialBytes x.2)).byteAt i = 0 := by
  rw [Placement.stop] at after
  rw [byteAt_store_initialBytes declared (by omega) (clear i (by omega)), List.getD_eq_getElem?_getD,
    List.getElem?_eq_none (by rw [declared.length_contents]; omega)]
  rfl

theorem byteAt_filled_of_lt (packed : Packed position placed stop) {i : Nat} (before : i < position) :
    (m.filled placed).byteAt i = m.byteAt i := by
  induction packed generalizing m with
  | nil => rfl
  | @cons position stop x rest least more ih =>
      have above : position ≤ x.1 := least.1.2
      have next := ih (m := m.store x.1 (initialBytes x.2)) (by rw [Placement.stop]; omega)
      rwa [byteAt_store, if_neg (by omega)] at next

/-- The bytes of a variable survive what is written after it, for that begins at its end. -/
theorem byteAt_filled_of_mem (packed : Packed position placed stop)
    (declared : ∀ x ∈ placed, x.2.Declared) (clear : ∀ i, position ≤ i → m.byteAt i = 0) :
    ∀ x ∈ placed, ∀ i < x.2.size,
      (m.filled placed).byteAt (x.1 + i) = x.2.contents.getD i 0 := by
  induction packed generalizing m with
  | nil => simp
  | @cons position stop x rest least more ih =>
      obtain ⟨here, later⟩ := List.forall_mem_cons.mp declared
      have clear_here : ∀ i, x.1 ≤ i → m.byteAt i = 0 :=
        fun i after => clear i (least.1.2.trans after)
      intro y member i inside
      obtain rfl | member := List.mem_cons.mp member
      · have kept := byteAt_filled_of_lt (m := m.store y.1 (initialBytes y.2)) more
          (show y.1 + i < y.stop by rw [Placement.stop]; omega)
        refine kept.trans ?_
        rw [byteAt_store_initialBytes here (Nat.le_add_right _ _) (clear_here _ (by omega)),
          Nat.add_sub_cancel_left]
      · exact ih later (fun i after => clear_store here clear_here after) y member i inside

theorem byteAt_filled_of_outside (packed : Packed position placed stop)
    (declared : ∀ x ∈ placed, x.2.Declared) (clear : ∀ i, position ≤ i → m.byteAt i = 0) {i : Nat}
    (after : position ≤ i) (outside : ∀ x ∈ placed, i < x.1 ∨ x.stop ≤ i) :
    (m.filled placed).byteAt i = 0 := by
  induction packed generalizing m with
  | nil => exact clear i after
  | @cons position stop x rest least more ih =>
      obtain ⟨here, later⟩ := List.forall_mem_cons.mp declared
      obtain ⟨apart, others⟩ := List.forall_mem_cons.mp outside
      have clear_here : ∀ i, x.1 ≤ i → m.byteAt i = 0 :=
        fun i after => clear i (least.1.2.trans after)
      obtain before | behind := apart
      · have kept := byteAt_filled_of_lt (m := m.store x.1 (initialBytes x.2)) more
          (show i < x.stop by rw [Placement.stop]; omega)
        refine kept.trans ?_
        rw [byteAt_store, if_neg (by omega)]
        exact clear i after
      · exact ih later (fun i after => clear_store here clear_here after) behind others

/-- The memory of a machine before anything is loaded. -/
def fresh (c : Config) : Memory where
  base := c.dataBase
  size := c.memorySize

theorem byteAt_fresh (c : Config) (i : Nat) : (fresh c).byteAt i = 0 := by
  simp [fresh, byteAt]

end Memory

namespace Layout

/-- Loading writes the variables at the addresses of the offsets that were planned. -/
theorem load_eq_loadAt {l : Layout} {p : Program} (m : Memory)
    (entries : placed.map Prod.snd = p.data.entries.toList)
    (offsets : l.dataOffsets.toList = placed.map Prod.fst) :
    l.load p m = loadAt (placed.map fun x => (x.address l.dataBase, x.2)) m := by
  rw [load, offsets, ← entries, List.map_map, List.zip_map']
  rfl

theorem dataAddress?_eq {l : Layout} (offsets : l.dataOffsets.toList = placed.map Prod.fst) (i : Nat) :
    l.dataAddress? i = placed[i]?.map (Placement.address l.dataBase) := by
  rw [dataAddress?, ← Array.getElem?_toList, offsets, List.getElem?_map, Option.map_map]
  rfl

/-- The variables of a program stand in memory in order, each with its contents at its address, and
there is nothing else in memory. -/
structure Image (c : Config) (l : Layout) (placed : List Placement) (m : Memory) : Prop where
  base : m.base = c.dataBase
  size : m.size = c.memorySize
  holds : ∀ i (h : i < placed.length), ∃ address, l.dataAddress? i = some address ∧
    address.toNat = c.dataBase.toNat + placed[i].1 ∧
    m.readBytes address placed[i].2.size = .ok placed[i].2.contents
  ordered : placed.Pairwise fun x y => x.stop ≤ y.1
  inside : ∀ x ∈ placed, x.stop ≤ l.dataSize
  elsewhere : ∀ i, (∀ x ∈ placed, i < x.1 ∨ x.stop ≤ i) → m.byteAt i = 0

theorem image_filled {c : Config} {l : Layout} (declared : ∀ x ∈ placed, x.2.Declared)
    (offsets : l.dataOffsets.toList = placed.map Prod.fst) (packed : Packed 0 placed l.dataSize)
    (base : l.dataBase = c.dataBase) (fits : l.dataSize ≤ c.memorySize.toNat)
    (low : c.dataBase.toNat + l.dataSize < 0x100000000) :
    Image c l placed ((Memory.fresh c).filled placed) := by
  have clear : ∀ i, 0 ≤ i → (Memory.fresh c).byteAt i = 0 := fun i _ => Memory.byteAt_fresh c i
  have baseEq := Memory.base_filled (Memory.fresh c) placed
  have sizeEq := Memory.size_filled (Memory.fresh c) placed
  refine ⟨baseEq, sizeEq, ?_, packed.ordered, packed.stop_le, fun i outside =>
    Memory.byteAt_filled_of_outside packed declared clear (Nat.zero_le i) outside⟩
  intro i h
  have member : placed[i] ∈ placed := List.getElem_mem h
  have last := packed.stop_le _ member
  rw [Placement.stop] at last
  have place : (placed[i].address c.dataBase).toNat = c.dataBase.toNat + placed[i].1 := by
    rw [Placement.toNat_address, Nat.mod_eq_of_lt (by omega)]
  refine ⟨placed[i].address c.dataBase, ?_, place, ?_⟩
  · rw [dataAddress?_eq offsets, List.getElem?_eq_getElem h, base]
    rfl
  · have found : ((Memory.fresh c).filled placed).offset? (placed[i].address c.dataBase)
        placed[i].2.size = some placed[i].1 := by
      rw [Memory.offset?_eq_some_iff, baseEq, sizeEq]
      exact ⟨place, last.trans fits⟩
    rw [Memory.readBytes, found]
    refine congrArg Except.ok (List.ext_getElem ?_ ?_)
    · simp [Memory.bytesAt, (declared _ member).length_contents]
    · intro k here there
      have kept := Memory.byteAt_filled_of_mem packed declared clear _ member k
        (by simpa [Memory.bytesAt] using here)
      rw [List.getD_eq_getElem?_getD, List.getElem?_eq_getElem there, Option.getD_some] at kept
      simpa [Memory.bytesAt] using kept

/-- Planning fails exactly if the packed variables are too large for memory. If they are not, and no
address wraps, loading them into fresh memory gives the image of the program and nothing else. -/
theorem plan_load_image (p : Program) (c : Config)
    (declared : ∀ v ∈ p.data.entries.toList, v.Declared) :
    ∃ placed stop, placed.map Prod.snd = p.data.entries.toList ∧ Packed 0 placed stop ∧
      (∀ others stop', others.map Prod.snd = p.data.entries.toList → Packed 0 others stop' →
        others = placed ∧ stop' = stop) ∧
      ((∃ required, plan p c = .error (.dataSegmentTooLarge required c.memorySize.toNat)) ↔
        c.memorySize.toNat < stop) ∧
      ((∃ l, plan p c = .ok l) ↔ stop ≤ c.memorySize.toNat) ∧
      ∀ l, plan p c = .ok l → l.dataSize = stop ∧
        (c.dataBase.toNat + l.dataSize < 0x100000000 →
          ∃ m, l.load p (Memory.fresh c) = (.ok (), m) ∧ Image c l placed m) := by
  obtain ⟨placed, stop, entries, packed⟩ := exists_packed 0 p.data.entries.toList
  have unique : ∀ others stop', others.map Prod.snd = p.data.entries.toList →
      Packed 0 others stop' → others = placed ∧ stop' = stop :=
    fun others stop' same other => packed.unique other (same.trans entries.symm)
  refine ⟨placed, stop, entries, packed, unique, ⟨?_, ?_⟩, ⟨?_, ?_⟩, ?_⟩
  · intro ⟨required, failed⟩
    by_contra fits
    rw [plan_of_packed entries packed (Nat.le_of_not_lt fits)] at failed
    contradiction
  · intro tooLarge
    obtain ⟨required, -, failed⟩ := plan_of_lt entries packed tooLarge
    exact ⟨required, failed⟩
  · intro ⟨l, planned⟩
    obtain ⟨others, same, -, other, fits, -⟩ := packed_of_plan planned
    rwa [(unique others _ same other).2] at fits
  · intro fits
    exact ⟨_, plan_of_packed entries packed fits⟩
  · intro l planned
    obtain ⟨others, same, offsets, other, fits, base⟩ := packed_of_plan planned
    obtain ⟨rfl, size⟩ := unique others _ same other
    have each : ∀ x ∈ others, x.2.Declared := by
      intro x member
      exact declared x.2 (entries ▸ List.mem_map_of_mem member)
    refine ⟨size, fun low => ⟨_, ?_, image_filled each offsets other base fits low⟩⟩
    rw [load_eq_loadAt _ entries offsets, base]
    refine loadAt_eq_filled (m := Memory.fresh c) each
      (fun x member => (other.stop_le x member).trans fits) ?_
    intro x member
    have last := other.stop_le x member
    exact Placement.isBeyond_of_stop_le (by simp only [Memory.fresh]; omega)

/-- A variable of each kind. Two of them do not end where the next one may begin. -/
def gallery : Program where
  data := { entries := #[⟨.byte, 1, some (.integer (-2)), some 2⟩,
    ⟨.half, 2, some (.integer 258), some 3⟩,
    ⟨.asciiz, "hé".utf8ByteSize + 1, some (.string ("hé".push '\x00')), some 4⟩,
    ⟨.ascii, "!".utf8ByteSize, some (.string "!"), some 5⟩,
    ⟨.word, 4, some (.integer 0xFFFFFFFF), some 6⟩,
    ⟨.space, 3, none, some 7⟩] }

/-- The last bytes before the last address, just as many as the variables need. -/
def lastBytes : Config where
  memorySize := 19
  dataBase := 0xFFFFFFEC

theorem plan_load_image_gallery :
    (∀ v ∈ gallery.data.entries.toList, v.Declared) ∧
      ∃ l placed m, plan gallery lastBytes = .ok l ∧ l.dataSize = 19 ∧
        placed.map Prod.snd = gallery.data.entries.toList ∧ Packed 0 placed 19 ∧
        l.load gallery (Memory.fresh lastBytes) = (.ok (), m) ∧ Image lastBytes l placed m := by
  have declared : ∀ v ∈ gallery.data.entries.toList, v.Declared := by
    simp only [gallery, List.forall_mem_cons]
    exact ⟨.byte _ _, .half _ _, .asciiz _ _, .ascii _ _, .word _ _, .space _ _, nofun⟩
  obtain ⟨placed, stop, entries, packed, -, -, -, loads⟩ :=
    plan_load_image gallery lastBytes declared
  have size : (plan gallery lastBytes).toOption.map Layout.dataSize = some 19 := by decide +kernel
  cases planned : plan gallery lastBytes with
  | error fault =>
      rw [planned] at size
      contradiction
  | ok l =>
      rw [planned] at size
      have size := Option.some.inj size
      obtain ⟨rfl, load⟩ := loads l planned
      obtain ⟨m, loaded, image⟩ := load (by rw [size]; decide)
      exact ⟨declared, l, placed, m, rfl, size, entries, size ▸ packed, loaded, image⟩

end Layout

end Machine

end Mips
