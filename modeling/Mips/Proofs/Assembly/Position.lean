import Mips.Proofs.Assembly.Findings
import Mips.Proofs.Source.Position

/-!
Where the problems of a source stand. All items of a source, with their mnemonics and their lists of
operands, stand where their spans say. So a problem with a range is about characters of its line, or it
is the problem of a missing operand and has the place of this operand, which may be behind all
operands or inside a character.
-/
namespace Mips

namespace Source

theorem mem_operands_iff {item : Item} {node : OperandNode} :
    node ∈ item.operands ↔ ∃ list ∈ item.operands?, node ∈ list.operands := by
  cases item with
  | label _ | unknown _ => simp [Item.operands, Item.operands?]
  | marker node | directive node | statement node =>
      cases given : node.operands <;> simp [Item.operands, Item.operands?, operandNodes, given]

/-- The reason why a missing operand has no value. -/
theorem OperandNode.Placed.value_of_stray {source : List Char} {whole span : Span}
    {node : OperandNode} (h : node.Placed source whole span) (stray : node.Stray source whole span) :
    node.value = .error (.malformed "" FormError.missing.message) := by
  rw [value, (h.missing stray.1).2, stray.1]

end Source

namespace Assembly

open Source

/-- The problem of a missing operand. -/
def missingAt (span : Span) : Problem :=
  Finding.problem ⟨.operand (.malformed "" FormError.missing.message), some span⟩

/-- What a problem of a source points at: characters of its line, or an operand that is missing and
stray. -/
inductive PointsAt (source : String) (span : Span) (p : Problem) : Prop
  | characters (delimits : span.Delimits source.toList)
  | stray {item : Item} {list : OperandList} {node : OperandNode} {whole : Span}
      (member : item ∈ items source) (given : list ∈ item.operands?)
      (operand : node ∈ list.operands) (outer : list.span = some whole)
      (inner : node.span = some span) (stray : node.Stray source.toList whole span)
      (missing : p = missingAt span)

section Places

variable {source : String} {item : Item} (member : item ∈ items source)
include member

theorem item_placed : (∃ span, item.span? = some span ∧ span.Delimits source.toList) ∧
    ∀ list ∈ item.operands?, ∃ span, list.span = some span ∧ span.Delimits source.toList := by
  have whole : source.toList = [] ++ source.toList ++ [] := by simp
  obtain ⟨span, f, placed, isAt, -, lists⟩ := (tiles_items source).isAt whole item member
  refine ⟨⟨span, placed, isAt.delimits⟩, fun list given => ?_⟩
  obtain ⟨inner, g, found, inside, -⟩ := lists list given
  exact ⟨inner, found, inside.delimits⟩

theorem mnemonic_or_placed : ∃ span,
    (mnemonicSpan? item).or item.span? = some span ∧ span.Delimits source.toList := by
  obtain ⟨own, -⟩ := item_placed member
  cases item with
  | marker _ | label _ | directive _ | unknown _ => exact own
  | statement node =>
      obtain ⟨span, found, delimits⟩ := mnemonic_placed member
      exact ⟨span, by rw [mnemonicSpan?, found, Option.some_or], delimits⟩

theorem listSpan_placed : ∃ span,
    listSpan item.operands? item.span? = some span ∧ span.Delimits source.toList := by
  obtain ⟨own, lists⟩ := item_placed member
  cases given : item.operands? with
  | none => exact own
  | some list =>
      obtain ⟨span, found, delimits⟩ := lists list given
      exact ⟨span, by rw [listSpan, Option.bind_some, found, Option.some_or], delimits⟩

theorem places_placed : ∀ place ∈ places item,
    ∃ span, place = some span ∧ span.Delimits source.toList := by
  have own := (item_placed member).1
  have mnemonic := mnemonic_or_placed member
  have list := listSpan_placed member
  intro place found
  simp only [places, List.mem_cons, List.not_mem_nil, or_false] at found
  obtain rfl | rfl | rfl := found
  · exact own
  · exact mnemonic
  · exact list

theorem placed_of_about {finding : Finding} (about : About item finding) :
    ∃ span, finding.span = some span ∧ PointsAt source span finding.problem := by
  cases about with
  | whole place _ _ =>
      obtain ⟨span, found, delimits⟩ := places_placed member _ place
      exact ⟨span, found, .characters delimits⟩
  | @operand node e known valueless =>
      obtain ⟨list, given, operand⟩ := mem_operands_iff.mp known
      obtain ⟨whole, span, outer, inner, placed⟩ := operands_placed member given operand
      refine ⟨span, inner, ?_⟩
      by_cases stray : node.Stray source.toList whole span
      · obtain rfl := Except.error.inj (valueless.symm.trans (placed.value_of_stray stray))
        rw [inner]
        exact .stray member given operand outer inner stray rfl
      · exact .characters (placed.delimited.mpr stray).2

end Places

/-- Where the operands of a source and its problems stand. -/
structure Positions (source : String) : Prop where
  operands : ∀ item ∈ items source, ∀ list ∈ item.operands?, ∃ whole, list.span = some whole ∧
    whole.Delimits source.toList ∧ ∀ node ∈ list.operands, ∃ span, node.span = some span ∧
      node.Placed source.toList whole span
  problems : ∀ p ∈ (assemble source).problems, ∀ range ∈ p.range, ∃ span : Span,
    p.line = some span.line ∧ range = (span.first, span.last) ∧ PointsAt source span p

theorem problems_placed (source : String) : ∀ p ∈ (assemble source).problems, ∀ range ∈ p.range,
    ∃ span : Span, p.line = some span.line ∧ range = (span.first, span.last) ∧
      PointsAt source span p := by
  intro p logged range ranged
  rw [assemble, Result.link, problems_extract] at logged
  obtain (early | closing) | undefined := by simpa only [List.mem_append] using logged
  · obtain ⟨finding, found, rfl⟩ := List.mem_map.mp early
    obtain ⟨item, member, about⟩ := Draft.about_foldl _ finding found
    obtain ⟨span, place, points⟩ := placed_of_about member about
    have line : finding.problem.line = finding.span.map Span.line := rfl
    have both : finding.problem.range = finding.span.map fun s => (s.first, s.last) := rfl
    rw [both, place] at ranged
    exact ⟨span, by rw [line, place]; rfl, (Option.some.inj ranged).symm, points⟩
  · -- What is found at the end of a source has no place.
    obtain ⟨finding, found, rfl⟩ := List.mem_map.mp closing
    obtain ⟨issue, -, rfl⟩ := List.mem_map.mp found
    cases ranged
  · obtain ⟨label, -, rfl⟩ := List.mem_map.mp undefined
    cases ranged

/-- The operands of a source stand in their lists and its problems on their lines, except for missing
operands behind a list or at blanks of several bytes. -/
theorem assemble_positions (source : String) : Positions source where
  operands := by
    intro item member list given
    obtain ⟨whole, outer, delimits⟩ := (item_placed member).2 list given
    refine ⟨whole, outer, delimits, fun node operand => ?_⟩
    obtain ⟨other, span, again, inner, placed⟩ := operands_placed member given operand
    obtain rfl := Option.some.inj (outer.symm.trans again)
    exact ⟨span, inner, placed⟩
  problems := problems_placed source

/-- A statement with a comma after its only operand, at the end of a source. -/
def trailingComma : String :=
  ".text\nmain: add $t0,"

/-- The missing operand is placed behind the source. -/
theorem trailingComma_stray :
    ((items trailingComma).flatMap Item.operands).map OperandNode.span =
        [some ⟨2, 16, 18⟩, some ⟨2, 20, 20⟩] ∧
      ((items trailingComma).filterMap Item.operands?).map OperandList.span = [some ⟨2, 16, 19⟩] ∧
      Text.utf8Length trailingComma.toList = 20 ∧
      missingAt ⟨2, 20, 20⟩ ∈ (assemble trailingComma).problems ∧
      ¬(Span.mk 2 20 20).Delimits trailingComma.toList := by
  have length : Text.utf8Length trailingComma.toList = 20 := by decide
  refine ⟨by decide +kernel, by decide +kernel, length, by decide +kernel, ?_⟩
  intro delimits
  exact absurd (length ▸ delimits.inside.2) (by decide)

end Assembly

end Mips
