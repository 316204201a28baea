import Mips.Proofs.Assembly.Printed
import Mips.Proofs.Source.Literal

/-!
A string that is declared under a label before the text segment.
-/
namespace Mips.Assembly

open Source Text

/-- The variable of a string with the zero byte after it. -/
def terminated (text : String) (line : Option Nat) : Variable :=
  ⟨.asciiz, text.utf8ByteSize + 1, some (.string (text.push '\x00')), line⟩

theorem ofName?_name (directive : Directive) : Directive.ofName? directive.name = some directive :=
  (Directive.ofName?_eq_some_iff _ _).mpr (beq_self_eq_true _)

theorem ofDirective_asciiz {node : DirectiveNode} {text : String}
    (named : node.name = Directive.asciiz.name) (unmarked : node.error = none)
    (reads : Reads node.operands [.string text]) :
    Reading.ofDirective (some .data) node =
      { entries := [.variable (terminated text (node.span.map Span.line))] } := by
  obtain ⟨values, findings⟩ := reads.values
  have directive : Directive.ofName? node.name = some .asciiz := named ▸ ofName?_name .asciiz
  have size : (text.push '\x00').utf8ByteSize = text.utf8ByteSize + 1 := String.utf8ByteSize_push
  simp only [Reading.ofDirective, unmarked, directive, Reading.ofDeclaration, values, findings]
  simp [Directive.rule, OperandRule.accepts, Directive.declared, Directive.kind?, size, terminated]

/-- The lines of a data segment with one string: its marker, and `.asciiz` with a literal behind a
label. -/
def dataLines (name : String) (written : List Char) : List (List Char) :=
  [SegmentName.data.marker.toList,
    name.toList ++ ':' :: ' ' :: (Directive.asciiz.name.toList ++ ' ' :: written)]

theorem withoutReturn_declaration (name written : List Char) :
    withoutReturn (name ++ ':' :: ' ' :: (Directive.asciiz.name.toList ++ ' ' :: written)) =
      name ++ ':' :: ' ' :: (Directive.asciiz.name.toList ++ ' ' :: withoutReturn written) := by
  have last : (name ++ ':' :: ' ' :: (Directive.asciiz.name.toList ++ [' '])).getLast? ≠
      some '\r' := by
    rw [List.getLast?_append_of_ne_nil _ (List.cons_ne_nil _ _)]
    decide
  have cut := withoutReturn_append last written
  simpa using cut

/-- Whatever stands for the literal is read as the operands of the directive. -/
theorem itemsFrom_dataLines {name : String} (valid : isLabel name.toList = true)
    (written : List Char) (texts : List (List Char)) :
    ∃ marker label node start place,
      itemsFrom 1 0 (dataLines name written ++ texts) =
        dataItems marker { name, span := label } node ++ itemsFrom 3 start texts ∧
      node.name = Directive.asciiz.name ∧ node.error = none ∧
      node.span.map Span.line = some 2 ∧
      node.operands = OperandList.ofFragment?
        ⟨2, place, trim (Quotation.outside.uncommented (withoutReturn written))⟩ := by
  obtain ⟨node, place, read, named, unmarked, line, operands⟩ :=
    Item.ofLine_directive 2 (6 + utf8Length name.toList + 1 + 1) .asciiz (withoutReturn written)
  obtain ⟨start, split⟩ := itemsFrom_append 1 0 (dataLines name written) texts
  refine ⟨(⟨1, 0, SegmentName.data.marker.toList⟩ : Fragment).span,
    some ⟨2, 6, 6 + utf8Length name.toList⟩, node, start, place, ?_, named, unmarked, line,
    operands⟩
  have second : Item.ofLine ⟨2, 6, withoutReturn (name.toList ++ ':' :: ' ' ::
      (Directive.asciiz.name.toList ++ ' ' :: written))⟩ =
      [.label { name, span := some ⟨2, 6, 6 + utf8Length name.toList⟩ }, .directive node] := by
    rw [withoutReturn_declaration, Item.ofLine_label valid, Item.ofLine_blank,
      String.ofList_toList, read]
  have first := Item.ofLine_marker 1 0 .data
  have whole : itemsFrom 1 0 (dataLines name written) = _ ++ (_ ++ []) :=
    congr (congrArg _ first) (congrArg (· ++ []) second)
  rw [split, whole]
  rfl

theorem oneLine_dataLines {name : String} (valid : isLabel name.toList = true)
    {written : List Char} (oneLine : '\n' ∉ written) :
    ∀ text ∈ dataLines name written, '\n' ∉ text := by
  have label : '\n' ∉ name.toList :=
    fun member => absurd ((word_of_isLabel valid).ink _ member) (by decide)
  have directive : '\n' ∉ Directive.asciiz.name.toList := by decide
  exact List.forall_mem_cons.mpr ⟨by decide, List.forall_mem_singleton.mpr (by
    simp [label, directive, oneLine])⟩

/-- The items of a source that declares a string and goes on with statements. -/
theorem items_parts {source name : String} (valid : isLabel name.toList = true)
    {written first : List Char} {texts : List (List Char)} {statements : List Statement}
    (split : source.toList = ['\n'].intercalate (dataLines name written ++ textLines first texts))
    (oneLine : '\n' ∉ written) (code : ∀ text ∈ first :: texts, '\n' ∉ text)
    (listing : Listing 4 (first :: texts) statements) :
    ∃ markers label node entry nodes place,
      items source = dataItems (Prod.fst markers) { name, span := label } node ++
        textItems markers.2 entry nodes ∧
      List.Forall₂ Means nodes statements ∧
      node.name = Directive.asciiz.name ∧ node.error = none ∧
      node.span.map Span.line = some 2 ∧
      node.operands = OperandList.ofFragment?
        ⟨2, place, trim (Quotation.outside.uncommented (withoutReturn written))⟩ := by
  have lines : ∀ line ∈ dataLines name written ++ textLines first texts, '\n' ∉ line := by
    intro line member
    obtain data | text := List.mem_append.mp member
    · exact oneLine_dataLines valid oneLine line data
    · exact oneLine_textLines code line text
  obtain ⟨marker, label, node, start, place, read, facts⟩ :=
    itemsFrom_dataLines valid written (textLines first texts)
  obtain ⟨textMarker, entry, nodes, textRead, means⟩ := listing.textItems start
  refine ⟨(marker, textMarker), label, node, entry, nodes, place, ?_, means, facts⟩
  rw [items_of_lines split (by simp [dataLines]) lines, read, textRead]

/-- A literal that ends its line stands for the string that was escaped. -/
theorem reads_literal {text : String} {written : List Char}
    (escaped : WrittenAs text.toList written) (line place : Nat) :
    Reads (OperandList.ofFragment? ⟨line, place,
      trim (Quotation.outside.uncommented (withoutReturn (literal written)))⟩) [.string text] := by
  have unreturned : (literal written).getLast? ≠ some '\r' := by
    rw [literal, ← List.cons_append, List.getLast?_append_of_ne_nil _ (List.cons_ne_nil _ _)]
    decide
  have values := values_literal escaped line place
  rw [String.ofList_toList] at values
  rw [withoutReturn_of_last unreturned, uncommented_literal escaped, trim_literal,
    OperandList.ofFragment?, if_neg (by simp [literal])]
  exact values

/-- Every string is declared by the literal in which it is written with escapes. -/
theorem assemble_escape (text : String) :
    assemble (".data\nx: .asciiz \"" ++ String.ofList (escape text.toList) ++
      "\"\n.text\nmain: nop") = {
        program := {
          data := {
            entries := #[{
              kind := .asciiz
              size := text.utf8ByteSize + 1
              initial := some (.string (text.push '\x00'))
              line := some 2 }]
            labels := [("x", 0)] }
          text := {
            entries := #[{ instruction := .nop, line := some 4 }]
            labels := [("main", 0)] } }
        problems := [] } := by
  have escaped := writtenAs_escape text.toList
  generalize escape text.toList = written at escaped ⊢
  have listing : Listing 4 ["nop".toList] [⟨.nop, [], some 4⟩] := by
    refine .cons (fun start => ?_) (.nil 5)
    exact read_mnemonic (i := .nop) (by decide) 4 start (show ∀ c ∈ [], isBlank c = true by nofun)
  have split : (".data\nx: .asciiz \"" ++ String.ofList written ++
      "\"\n.text\nmain: nop").toList =
        ['\n'].intercalate (dataLines "x" (literal written) ++ textLines "nop".toList []) := by
    have middle : (String.ofList written).toList = written := String.toList_ofList
    rw [String.toList_append, String.toList_append, middle, List.append_assoc]
    simp only [dataLines, textLines, literal, List.cons_append, List.nil_append,
      List.intercalate_cons_cons, List.intercalate_singleton, List.append_assoc]
    rfl
  have oneLine : '\n' ∉ literal written := by simp [literal, escaped.oneLine]
  obtain ⟨markers, label, node, entry, nodes, place, read, means, named, unmarked, line,
    operands⟩ := items_parts (show isLabel "x".toList = true by decide) split oneLine (by decide) listing
  have reads : Reads node.operands [.string text] := operands ▸ reads_literal escaped 2 place
  have reading := ofDirective_asciiz named unmarked reads
  rw [line] at reading
  rw [assemble, read, extract_parts rfl (show "x" ≠ entryLabel by decide) reading means]
  simp [Result.link, Program.link, programOf, Program.undefinedLabels, Statement.link,
    Statement.undefinedLabels, terminated, entryLabel]

end Mips.Assembly
