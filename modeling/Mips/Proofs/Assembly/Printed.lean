import Mips.Proofs.Assembly.Clean
import Mips.Proofs.Source.Printed

/-!
Statements are assembled from the form in which they are printed.
-/
namespace Mips

/-- A statement as a line of a source: its mnemonic and its operands as they are printed. -/
def Instruction.line (i : Instruction) (operands : List Operand) : String :=
  i.mnemonic ++ " " ++ ", ".intercalate (operands.map Operand.text)

namespace Assembly

open Source Text

variable {i : Instruction} {operands : List Operand}

theorem toList_line (i : Instruction) (operands : List Operand) :
    (i.line operands).toList = i.mnemonic.toList ++ ' ' :: joined operands := by
  rw [Instruction.line, String.toList_append, String.toList_append, String.toList_intercalate,
    joined, List.map_map, List.append_assoc]
  rfl

theorem isLabel_mnemonic (i : Instruction) : isLabel i.mnemonic.toList = true := by
  cases i <;> decide

/-- An instruction takes no strings, so all that it takes can be printed and read back. -/
theorem printable_of_accepts (accepted : i.format.accepts (operands.map Operand.kind) = true)
    (integers : ∀ n, Operand.integer n ∈ operands → Fits n)
    (addresses : ∀ a, Operand.address a ∈ operands → a.Printable) :
    ∀ operand ∈ operands, operand.Printable := by
  intro operand member
  cases operand with
  | integer n => exact .integer (integers n member)
  | address a => exact .address (addresses a member)
  | register r => exact .register r
  | string text =>
      have kind : OperandKind.string ∈ operands.map Operand.kind := List.mem_map_of_mem member
      exact absurd kind (combination_of_accepts accepted).2

/-- A node with the mnemonic of an instruction and operands that it takes. -/
theorem means_of_reads (accepted : i.format.accepts (operands.map Operand.kind) = true)
    {list : Option OperandList} (reads : Reads list operands) {whole : Fragment}
    (nonempty : whole.text ≠ []) (mnemonicSpan : Option Span) :
    Means {
      mnemonic := String.ofList i.mnemonic.toList
      mnemonicSpan
      span := whole.span
      operands := list } ⟨i, operands, some whole.line⟩ where
  instruction := by
    rw [String.ofList_toList, Instruction.ofMnemonic?_eq_some_iff]
    exact beq_self_eq_true _
  operands := reads
  line := (Fragment.line_span nonempty).symm
  accepted := accepted
  unmarked := rfl

/-- A mnemonic alone on its line, for an instruction that takes no operands. -/
theorem read_mnemonic (accepted : i.format.accepts [] = true) (line start : Nat)
    {gap : List Char} (blank : ∀ c ∈ gap, isBlank c = true) :
    ∃ node, Item.ofLine ⟨line, start, i.mnemonic.toList ++ gap⟩ = [.statement node] ∧
      Means node ⟨i, [], some line⟩ := by
  have reads : Reads none [] := rfl
  have word := word_of_isLabel (isLabel_mnemonic i)
  have whole : (⟨line, start, i.mnemonic.toList⟩ : Fragment).text ≠ [] := word.nonempty
  exact ⟨_, Item.ofLine_mnemonic (isLabel_mnemonic i) blank, means_of_reads accepted reads whole _⟩

/-- A printed statement is read as it is, wherever its line stands. -/
theorem read_line (accepted : i.format.accepts (operands.map Operand.kind) = true)
    (printable : ∀ operand ∈ operands, operand.Printable) (line start : Nat) :
    ∃ node, Item.ofLine ⟨line, start, (i.line operands).toList⟩ = [.statement node] ∧
      Means node ⟨i, operands, some line⟩ := by
  rw [toList_line]
  by_cases none : operands = []
  · subst none
    exact read_mnemonic accepted line start (List.forall_mem_singleton.mpr rfl)
  · obtain ⟨nonempty, first, last⟩ := ends_joined none printable
    have free : Quotation.outside.uncommented (joined operands) = joined operands :=
      Quotation.uncommented_of_not_mem fun hash => mem_joined printable '#' hash (by decide)
    have reads : Reads (OperandList.ofFragment?
        ⟨line, start + utf8Length i.mnemonic.toList + 1, joined operands⟩) operands := by
      rw [OperandList.ofFragment?, if_neg (by simpa using nonempty)]
      exact values_joined line _ none printable
    have whole : i.mnemonic.toList ++ ' ' :: joined operands ≠ [] := by simp
    exact ⟨_, Item.ofLine_statement (isLabel_mnemonic i) nonempty first last free,
      means_of_reads accepted reads whole _⟩

theorem oneLine_line (printable : ∀ operand ∈ operands, operand.Printable) :
    '\n' ∉ (i.line operands).toList := by
  rw [toList_line, List.mem_append, List.mem_cons]
  rintro (letter | newline | listed)
  · exact absurd (isLetter_of_isLabel (isLabel_mnemonic i) _ letter) (by decide)
  · cases newline
  · exact mem_joined printable _ listed (by decide)

/-- No carriage return ends a printed statement. -/
theorem last_line (printable : ∀ operand ∈ operands, operand.Printable) :
    (i.line operands).toList.getLast? ≠ some '\r' := by
  rw [toList_line, List.getLast?_append_of_ne_nil _ (by simp)]
  by_cases none : operands = []
  · subst none
    decide
  · obtain ⟨nonempty, -, last⟩ := ends_joined none printable
    rw [List.getLast?_cons_of_ne_nil nonempty]
    intro return_
    exact absurd (last _ return_) (by decide)

/-- A statement that is printed behind the label of the entry is extracted as it was. -/
theorem extract_line (accepted : i.format.accepts (operands.map Operand.kind) = true)
    (integers : ∀ n, Operand.integer n ∈ operands → Fits n)
    (addresses : ∀ a, Operand.address a ∈ operands → a.Printable) :
    extract (items (".text\nmain: " ++ i.line operands)) = {
      program := { text := { entries := #[⟨i, operands, some 2⟩], labels := [("main", 0)] } }
      problems := [] } := by
  have printable := printable_of_accepts accepted integers addresses
  have listing : Listing 2 [(i.line operands).toList] [⟨i, operands, some 2⟩] := by
    refine .cons (fun start => ?_) (.nil 3)
    rw [withoutReturn_of_last (last_line printable)]
    exact read_line accepted printable 2 start
  have written : (".text\nmain: " ++ i.line operands).toList =
      ['\n'].intercalate (textLines (i.line operands).toList []) := by
    rw [String.toList_append, textLines, List.intercalate_cons_cons, List.intercalate_singleton]
    rfl
  have oneLine : ∀ text ∈ [(i.line operands).toList], '\n' ∉ text :=
    List.forall_mem_singleton.mpr (oneLine_line printable)
  obtain ⟨marker, label, nodes, read, means⟩ := listing.textItems 0
  have start : ([] : List Item).foldl Draft.enter {} = {} := rfl
  rw [items_of_lines written (List.cons_ne_nil _ _) (oneLine_textLines oneLine), read]
  exact extract_textItems start rfl rfl rfl means

/-- Operands at both ends of the range, of all kinds that an instruction takes. -/
def outermost : List Operand :=
  [.register .v0, .integer (-2147483648),
    .address { label := some "_x.9", offset := some 4294967295, base := some .fp }]

theorem extract_line_outermost :
    Instruction.beq.line outermost = "beq $v0, -2147483648, _x.9+4294967295($fp)" ∧
      extract (items (".text\nmain: " ++ Instruction.beq.line outermost)) = {
        program := { text := { entries := #[⟨.beq, outermost, some 2⟩], labels := [("main", 0)] } }
        problems := [] } := by
  refine ⟨by decide +kernel, extract_line (by decide) ?_ ?_⟩
  · intro n member
    obtain rfl : n = -2147483648 := by simpa [outermost] using member
    exact ⟨by decide, by decide⟩
  · intro a member
    obtain rfl : a = { label := some "_x.9", offset := some 4294967295, base := some .fp } := by
      simpa [outermost] using member
    exact {
      label := by rintro l ⟨⟩; decide
      offset := by rintro n ⟨⟩; exact ⟨by decide, by decide⟩
      anchored := .inl rfl
      unplaced := rfl }

end Assembly

end Mips
