import Mips.Proofs.Assembly.Declared
import Mips.Proofs.Assembly.Loading
import Mips.Proofs.Machine.Advance
import Mips.Proofs.Source.Place

/-!
Printing a declared string. Memory holds a string in UTF-8 and the service prints one character for
each byte, so that a program prints the string that it declares as long as it is ASCII; a character
beyond that comes out as one character for each of its bytes.
-/
namespace Mips

namespace Machine

open Text Layout

section Encoding

variable {c : Char} {text : List Char}

/-- What is printed for a text: a character for each byte of its encoding. -/
def bytewise (text : List Char) : List Char :=
  (utf8Bytes text).map character

theorem bytewise_cons (c : Char) (rest : List Char) :
    bytewise (c :: rest) = bytewise [c] ++ bytewise rest := by
  simp [bytewise, utf8Bytes]

theorem length_bytewise (text : List Char) : (bytewise text).length = utf8Length text := by
  rw [bytewise, List.length_map, utf8Bytes_length]

theorem length_le_utf8Length (text : List Char) : text.length ≤ utf8Length text := by
  induction text with
  | nil => exact Nat.le_refl 0
  | cons c rest ih =>
      have size := c.utf8Size_pos
      rw [List.length_cons, utf8Length]
      omega

theorem utf8Size_eq_one_iff : c.utf8Size = 1 ↔ c.toNat < 128 := by
  rw [Char.utf8Size_eq_one_iff, UInt32.le_iff_toNat_le]
  exact Nat.lt_succ_iff.symm

theorem bytewise_singleton (ascii : c.toNat < 128) : bytewise [c] = [c] := by
  have encoded := String.utf8EncodeChar_eq_singleton (utf8Size_eq_one_iff.mpr ascii)
  have size : c.val.toUInt8.toBitVec.toNat = c.toNat :=
    Nat.mod_eq_of_lt (show c.toNat < 256 by omega)
  rw [bytewise, utf8Bytes, List.flatMap_singleton, encoded, List.map_singleton, List.map_singleton,
    character, size, Char.ofNat_toNat]

/-- A text is printed as it is just when it is ASCII; the encoding of any other text is longer. -/
theorem bytewise_eq_iff : bytewise text = text ↔ ∀ c ∈ text, c.toNat < 128 := by
  induction text with
  | nil => simp [bytewise, utf8Bytes]
  | cons c rest ih =>
      rw [List.forall_mem_cons, bytewise_cons]
      constructor
      · intro same
        have lengths := congrArg List.length same
        have least := length_le_utf8Length rest
        have size := c.utf8Size_pos
        simp only [List.length_append, length_bytewise, utf8Length, List.length_cons] at lengths
        have ascii := utf8Size_eq_one_iff.mp (show c.utf8Size = 1 by omega)
        rw [bytewise_singleton ascii] at same
        exact ⟨ascii, ih.mp (List.append_cancel_left same)⟩
      · rintro ⟨ascii, later⟩
        rw [bytewise_singleton ascii, ih.mpr later]
        rfl

/-- Only NUL has a zero byte in its encoding. -/
theorem eq_nul_of_mem_encode (member : 0 ∈ String.utf8EncodeChar c) : c = '\x00' := by
  have value : c.val.toNat = 0 := by
    have nonzero {n : Nat} (small : n < 256) (zero : (0 : UInt8) = UInt8.ofNat n) : n = 0 := by
      have same := congrArg UInt8.toNat zero
      rw [UInt8.toNat_ofNat_of_lt' small] at same
      exact same.symm
    simp only [String.utf8EncodeChar] at member
    split at member
    · exact nonzero (by omega) (List.mem_singleton.mp member)
    -- All bytes of a longer code have their highest bit set.
    · split at member
      · simp only [List.mem_cons, List.not_mem_nil, or_false] at member
        obtain zero | zero := member <;> exact absurd (nonzero (by omega) zero) (by omega)
      · split at member
        · simp only [List.mem_cons, List.not_mem_nil, or_false] at member
          obtain zero | zero | zero := member <;> exact absurd (nonzero (by omega) zero) (by omega)
        · simp only [List.mem_cons, List.not_mem_nil, or_false] at member
          obtain zero | zero | zero | zero := member <;>
            exact absurd (nonzero (by omega) zero) (by omega)
  exact Char.toNat_inj.mp value

theorem ne_zero_of_mem_utf8Bytes (free : '\x00' ∉ text) : ∀ b ∈ utf8Bytes text, b ≠ 0 := by
  intro b member zero
  obtain ⟨c, inside, coded⟩ := List.mem_flatMap.mp member
  obtain ⟨unit, unit_mem, same⟩ := List.mem_map.mp coded
  obtain rfl : unit = 0 := UInt8.toBitVec_inj.mp (same.trans zero)
  exact free (eq_nul_of_mem_encode unit_mem ▸ inside)

end Encoding

namespace State

theorem memory_of_load {p : Program} {c : Config} {s : State} (h : load p c = .ok s) :
    s.layout.load p (Memory.fresh c) = (.ok (), s.bus.memory) ∧ s.console = "" := by
  obtain ⟨layout, memory, -, -, loaded, rfl⟩ := exists_of_load h
  exact ⟨loaded, rfl⟩

/-- If the data end before the addresses do, a valid program that is planned is loaded with its
image. -/
theorem load_image {p : Program} {c : Config} {l : Layout} (valid : p.validate = .ok ())
    (planned : plan p c = .ok l) (declared : ∀ v ∈ p.data.entries.toList, v.Declared)
    (low : c.dataBase.toNat + l.dataSize < 0x100000000) :
    ∃ s placed, load p c = .ok s ∧ placed.map Prod.snd = p.data.entries.toList ∧
      Image c s.layout placed s.bus.memory := by
  obtain ⟨placed, entries, offsets, packed, fits, base⟩ := packed_of_plan planned
  have each : ∀ x ∈ placed, x.2.Declared := by
    intro x member
    exact declared x.2 (entries ▸ List.mem_map_of_mem member)
  have filled : l.load p (Memory.fresh c) = (.ok (), (Memory.fresh c).filled placed) := by
    rw [load_eq_loadAt _ entries offsets, base]
    refine loadAt_eq_filled (m := Memory.fresh c) each
      (fun x member => (packed.stop_le x member).trans fits) fun x member => ?_
    have last := packed.stop_le x member
    exact Placement.isBeyond_of_stop_le (by simp only [Memory.fresh]; omega)
  have started := load_of_plan valid planned
  rw [filled] at started
  obtain ⟨s, loaded⟩ := started
  obtain ⟨-, -, same⟩ := load_ok loaded
  obtain rfl : l = s.layout := Except.ok.inj (planned.symm.trans same)
  have memory : (Memory.fresh c).filled placed = s.bus.memory :=
    congrArg Prod.snd (filled.symm.trans (memory_of_load loaded).1)
  exact ⟨s, placed, loaded, entries, memory ▸ image_filled each offsets packed base fits low⟩

end State

end Machine

namespace Assembly

open Source Text Machine Machine.Layout

theorem contents_terminated (text : String) (line : Option Nat) :
    (terminated text line).contents = utf8Bytes text.toList ++ [0] := by
  have nul : utf8Bytes ['\x00'] = [0] := by decide
  have bytes : (terminated text line).contents =
      (text.push '\x00').toUTF8.data.toList.map UInt8.toBitVec := rfl
  rw [bytes, ← utf8Bytes_toList, String.toList_push, utf8Bytes_append, nul]

/-- A string in the image of a program is spelled out in memory at its address. -/
theorem spells_of_image {c : Config} {l : Layout} {placed : List Placement} {m : Memory}
    (image : Image c l placed m) (low : c.dataBase.toNat + l.dataSize ≤ 0x100000000) {i : Nat}
    (h : i < placed.length) {text : String} {line : Option Nat}
    (string : placed[i].2 = terminated text line) (free : '\x00' ∉ text.toList) :
    ∃ address, l.dataAddress? i = some address ∧
      m.Spells address (utf8Bytes text.toList) ∧
      m.byte? (addressFrom address (utf8Bytes text.toList).length) = some 0 := by
  obtain ⟨address, found, place, read⟩ := image.holds i h
  have last := image.inside _ (List.getElem_mem h)
  have length : (terminated text line).contents.length = (terminated text line).size :=
    (Variable.Declared.asciiz text line).length_contents
  rw [Placement.stop, string, ← length, contents_terminated] at last
  rw [string, ← length, contents_terminated] at read
  exact ⟨address, found,
    Memory.spells_of_readBytes read (by omega) (ne_zero_of_mem_utf8Bytes free)⟩

theorem Draft.harmless_of_foldl {d : Draft} {items : List Item}
    (h : Harmless (items.foldl enter d).findings) : Harmless d.findings := by
  induction items generalizing d with
  | nil => exact h
  | cons item rest ih => exact harmless_of_enter (ih h)

/-- A string directive with nothing critical about it has a string. -/
theorem reads_of_harmless {node : DirectiveNode} (named : node.name = Directive.asciiz.name)
    (h : Harmless (Reading.ofDirective (some .data) node).findings) :
    ∃ text, Reads node.operands [.string text] := by
  obtain ⟨-, unmarked, reads⟩ := Reading.kept_ofDirective h
  have directive : Directive.ofName? node.name = some .asciiz := named ▸ ofName?_name .asciiz
  simp only [Reading.ofDirective, unmarked, directive, Reading.ofDeclaration] at h
  split at h
  · next accepted =>
      obtain ⟨text, same⟩ := (accepts_oneString_iff _).mp accepted
      exact ⟨text, same ▸ reads⟩
  · simp [Directive.kind?] at h

theorem reads_of_isRunnable {marker : Option Span} {label : LabelNode} {node : DirectiveNode}
    {later : List Item} (unmarked : label.error = none) (other : label.name ≠ entryLabel)
    (named : node.name = Directive.asciiz.name)
    (h : (extract (dataItems marker label node ++ later)).isRunnable = true) :
    ∃ text, Reads node.operands [.string text] := by
  obtain ⟨harmless, -⟩ := Draft.closed_of_harmless ((Draft.isRunnable_result_iff _).mp h)
  rw [List.foldl_append] at harmless
  have data := Draft.harmless_of_foldl harmless
  rw [foldl_dataItems unmarked other, Draft.findings_pushes] at data
  exact reads_of_harmless named data

/-- A program that prints the string for which a literal stands. -/
def printing (literal : String) : String :=
  "\n".intercalate [".data", "s: .asciiz " ++ literal, ".text", "main: la $a0, s", "li $v0, 4",
    "syscall"]

/-- What it is assembled into. -/
def printer (text : String) : Program :=
  programOf "s" (terminated text (some 2))
    (printStatements { label := some "s", target := some (.data 0) } 4)

theorem printer_injective : Function.Injective printer := by
  intro text other same
  have texts : text.push '\x00' = other.push '\x00' := by
    simpa [printer, programOf, terminated] using
      congrArg (fun p => p.data.entries.map Variable.initial) same
  exact (String.push_inj.mp texts).1

theorem listing_printStatements :
    Listing 4 ["la $a0, s".toList, "li $v0, 4".toList, "syscall".toList]
      (printStatements { label := some "s" } 4) := by
  have name : Address.Printable { label := some "s" } := {
    label := by rintro l ⟨⟩; decide
    offset := nofun
    anchored := .inl rfl
    unplaced := rfl }
  have place : ∀ operand ∈ [Operand.register .a0, .address { label := some "s" }],
      operand.Printable :=
    List.forall_mem_cons.mpr ⟨.register _, List.forall_mem_singleton.mpr (.address name)⟩
  have four : Fits 4 := ⟨by decide, by decide⟩
  have service : ∀ operand ∈ [Operand.register .v0, .integer 4], operand.Printable :=
    List.forall_mem_cons.mpr ⟨.register _, List.forall_mem_singleton.mpr (.integer four)⟩
  exact .cons (read_line (i := .la) (by decide) place 4)
    (.cons (read_line (i := .li) (by decide) service 5)
      (.cons (fun start => read_mnemonic (i := .syscall) (by decide) 6 start
        (show ∀ c ∈ [], isBlank c = true by nofun)) (.nil 7)))

/-- Linking places the label of the string, the only one that is named. -/
theorem link_printStatements (name : String) (v : Variable) (line : Nat) :
    Result.link { program := programOf name v (printStatements { label := some name } line) } = {
      program := programOf name v
        (printStatements { label := some name, target := some (.data 0) } line)
      problems := [] } := by
  generalize entered : programOf name v (printStatements { label := some name } line) = p
  have placed : p.place? name = some (.data 0) := by
    simp [← entered, programOf, Program.place?, Segment.labelIndex?]
  have text : p.text.entries = (printStatements { label := some name } line).toArray := by
    rw [← entered, programOf]
  have defined : p.undefinedLabels = [] := by
    simp [Program.undefinedLabels, text, printStatements, Statement.undefinedLabels,
      Operand.undefinedLabel?, placed]
  have entries : p.text.entries.map (Statement.link p.place?) =
      (printStatements { label := some name, target := some (.data 0) } line).toArray := by
    simp [text, printStatements, Statement.link, Operand.link, placed]
  have linked : p.link = programOf name v
      (printStatements { label := some name, target := some (.data 0) } line) := by
    rw [Program.link, entries, ← entered]
    rfl
  simp only [Result.link, linked, defined, List.map_nil, List.append_nil]

theorem toList_printing (literal : String) :
    (printing literal).toList = ['\n'].intercalate (dataLines "s" literal.toList ++
      textLines "la $a0, s".toList ["li $v0, 4".toList, "syscall".toList]) := by
  have declared : ("s: .asciiz " ++ literal).toList =
      "s".toList ++ ':' :: ' ' :: (Directive.asciiz.name.toList ++ ' ' :: literal.toList) :=
    String.toList_append
  rw [printing, String.toList_intercalate, List.map_cons, List.map_cons, declared]
  rfl

theorem assemble_printing {literal : String} (oneLine : '\n' ∉ literal.toList)
    (h : (assemble (printing literal)).isRunnable = true) :
    ∃ text, assemble (printing literal) = { program := printer text, problems := [] } := by
  obtain ⟨markers, label, node, entry, nodes, place, read, means, named, unmarked, line, -⟩ :=
    items_parts (show isLabel "s".toList = true by decide) (toList_printing literal) oneLine
      (by decide) listing_printStatements
  have other : "s" ≠ entryLabel := by decide
  rw [assemble, read] at h ⊢
  obtain ⟨text, reads⟩ := reads_of_isRunnable rfl other named
    ((Result.isRunnable_link_iff _).mp h).1
  have reading := ofDirective_asciiz named unmarked reads
  rw [line] at reading
  refine ⟨text, ?_⟩
  rw [extract_parts rfl other reading means]
  exact link_printStatements "s" _ 4

/-- The program prints its string on a machine with the usual settings, as long as memory is large
enough and nothing in the string ends it early. -/
theorem retires_printer {text : String} (free : '\x00' ∉ text.toList)
    (fits : text.utf8ByteSize + 1 ≤ ({} : Config).memorySize.toNat) :
    ∃ s t, State.load (printer text) {} = .ok s ∧
      s.Retires (printer text).text.entries.toList t ∧
      t.console = s.console ++ String.ofList (bytewise text.toList) := by
  let v := terminated text (some 2)
  have packed : Packed 0 [(0, v)] (Placement.stop (0, v)) :=
    .cons ⟨⟨Nat.dvd_zero _, Nat.le_refl 0⟩, fun _ _ => Nat.zero_le _⟩ (.nil _)
  have stop : Placement.stop (0, v) = text.utf8ByteSize + 1 := Nat.zero_add _
  have planned := plan_of_packed (p := printer text) (c := {}) rfl packed (stop ▸ fits)
  have low : ({} : Config).dataBase.toNat + Placement.stop (0, v) < 0x100000000 := by
    have base : ({} : Config).dataBase.toNat = 0x10010000 := rfl
    have size : ({} : Config).memorySize.toNat = 0x100000 := rfl
    omega
  have declared : ∀ v ∈ (printer text).data.entries.toList, v.Declared :=
    List.forall_mem_singleton.mpr (.asciiz _ _)
  obtain ⟨s, placed, loaded, entries, image⟩ := State.load_image rfl planned declared low
  obtain ⟨-, -, same⟩ := State.load_ok loaded
  have layout : s.layout.dataSize = Placement.stop (0, v) := by
    rw [← Except.ok.inj (planned.symm.trans same)]
  obtain ⟨x, rfl, first⟩ := List.map_eq_singleton_iff.mp entries
  obtain ⟨address, found, spells, ended⟩ :=
    spells_of_image image (layout ▸ Nat.le_of_lt low) Nat.zero_lt_one first free
  have room : ({} : Config).textBase.toNat + 4 * (printer text).text.size < 0x100000000 :=
    show 0x400000 + 4 * 3 < 0x100000000 by decide
  have stands := State.standsBefore_of_load loaded room
  obtain ⟨t, retires, console⟩ := stands.prints rfl found spells ended
  exact ⟨s, t, loaded, retires, console⟩

/-- A literal that is accepted stands for a string. The program that prints it retires all of its
statements, and the string appears as it is exactly if all its characters are ASCII. -/
theorem prints_bytewise {literal : String} (oneLine : '\n' ∉ literal.toList)
    (accepted : (assemble (printing literal)).isRunnable = true) :
    ∃ text, assemble (printing literal) = { program := printer text, problems := [] } ∧
      ('\x00' ∉ text.toList → text.utf8ByteSize + 1 ≤ ({} : Config).memorySize.toNat →
        ∃ s t, State.load (assemble (printing literal)).program {} = .ok s ∧
          s.Retires (printer text).text.entries.toList t ∧ s.runFor 3 = (.retired, t) ∧
          t.console = s.console ++ String.ofList (bytewise text.toList) ∧
          (t.console = s.console ++ text ↔ ∀ c ∈ text.toList, c.toNat < 128)) := by
  obtain ⟨text, assembled⟩ := assemble_printing oneLine accepted
  refine ⟨text, assembled, fun free fits => ?_⟩
  obtain ⟨s, t, loaded, retires, console⟩ := retires_printer free fits
  rw [assembled]
  refine ⟨s, t, loaded, retires, retires.runFor, console, ?_⟩
  rw [console, String.append_right_inj, ← String.toList_inj, String.toList_ofList]
  exact bytewise_eq_iff

theorem prints_bytewise_hi :
    '\n' ∉ "\"hi\"".toList ∧ (assemble (printing "\"hi\"")).isRunnable = true ∧
      ∃ s t, State.load (assemble (printing "\"hi\"")).program {} = .ok s ∧
        s.runFor 3 = (.retired, t) ∧ t.console = s.console ++ "hi" := by
  have oneLine : '\n' ∉ "\"hi\"".toList := by decide
  have accepted : (assemble (printing "\"hi\"")).isRunnable = true := by decide +kernel
  refine ⟨oneLine, accepted, ?_⟩
  obtain ⟨text, assembled, prints⟩ := prints_bytewise oneLine accepted
  have hi : assemble (printing "\"hi\"") = { program := printer "hi", problems := [] } := by
    decide +kernel
  obtain rfl : text = "hi" :=
    printer_injective (congrArg Result.program (assembled.symm.trans hi))
  obtain ⟨s, t, loaded, -, run, console, -⟩ := prints (by decide) (by decide)
  have same : String.ofList (bytewise "hi".toList) = "hi" := by decide +kernel
  exact ⟨s, t, loaded, run, same ▸ console⟩

/-- A letter beyond ASCII is printed as two characters, one for each byte of its encoding. -/
theorem console_printer_accent :
    assemble (printing "\"é\"") = { program := printer "é", problems := [] } ∧
      '\x00' ∉ "é".toList ∧ "é".utf8ByteSize + 1 ≤ ({} : Config).memorySize.toNat ∧
      ((State.load (printer "é") {}).toOption.map fun s =>
        (s.console, (s.runFor 3).1, (s.runFor 3).2.console)) = some ("", .retired, "Ã©") ∧
      "Ã©" ≠ "é" := by
  decide +kernel

end Assembly

end Mips
