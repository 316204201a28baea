import Mips.Proofs.Assembly.Entries
import Mips.Proofs.Source.Tiling

/-!
What is found at an item. A finding is about one operand of the item that has no value, or about the
item itself; then it stands where the item, its mnemonic or its operands stand. What concerns the
program as a whole is found when all items have been entered.
-/
namespace Mips.Assembly

open Source

/-- Issues of a label where it is declared. -/
def Issue.isOfLabel : Issue → Bool
  | .syntactic .label _ | .labelTaken _ | .entryOutsideText => true
  | _ => false

/-- Issues that no single item has. -/
def Issue.isOfProgram : Issue → Bool
  | .missingEntry | .unboundLabels _ | .undefinedLabel _ => true
  | _ => false

def mnemonicSpan? : Item → Option Span
  | .statement node => node.mnemonicSpan
  | .marker _ | .label _ | .directive _ | .unknown _ => none

/-- Where an issue of an item itself is found. -/
def places (item : Item) : List (Option Span) :=
  [item.span?, (mnemonicSpan? item).or item.span?, listSpan item.operands? item.span?]

theorem span_mem_places (item : Item) : item.span? ∈ places item :=
  List.mem_cons_self

theorem mnemonic_mem_places (item : Item) :
    (mnemonicSpan? item).or item.span? ∈ places item :=
  List.mem_cons_of_mem _ List.mem_cons_self

theorem list_mem_places (item : Item) : listSpan item.operands? item.span? ∈ places item :=
  List.mem_cons_of_mem _ (List.mem_cons_of_mem _ List.mem_cons_self)

/-- A finding at an item. -/
inductive About (item : Item) : Finding → Prop
  | operand {node : OperandNode} {e : OperandError} (member : node ∈ item.operands)
      (valueless : node.value = .error e) : About item ⟨.operand e, node.span⟩
  | whole {issue : Issue} {span : Option Span} (place : span ∈ places item)
      (ofLabel : issue.isOfLabel = item.isLabel) (ofItem : issue.isOfProgram = false) :
      About item ⟨issue, span⟩

/-- All of some findings are at an item. -/
def AllAbout (item : Item) (findings : List Finding) : Prop :=
  ∀ finding ∈ findings, About item finding

section AllAbout

variable {item : Item}

theorem allAbout_nil : AllAbout item [] :=
  fun _ member => absurd member List.not_mem_nil

theorem allAbout_singleton {finding : Finding} (h : About item finding) :
    AllAbout item [finding] := by
  intro other member
  rwa [List.mem_singleton.mp member]

theorem AllAbout.append {first second : List Finding} (h : AllAbout item first)
    (more : AllAbout item second) : AllAbout item (first ++ second) :=
  fun finding member => (List.mem_append.mp member).elim (h finding) (more finding)

theorem allAbout_operandFindings {list : Option OperandList}
    (h : item.operands = operandNodes list) : AllAbout item (operandFindings list) := by
  intro finding found
  obtain ⟨node, member, report⟩ := List.mem_filterMap.mp found
  cases value : node.value with
  | ok operand => simp [value] at report
  | error e =>
      rw [value] at report
      obtain rfl := Option.some.inj report
      exact .operand (h ▸ member) value

theorem About.issue_ne_labelTaken {finding : Finding} (h : About item finding)
    (other : item.isLabel = false) (name : String) : finding.issue ≠ .labelTaken name := by
  cases h with
  | operand => nofun
  | whole _ ofLabel _ =>
      rintro rfl
      rw [other] at ofLabel
      cases ofLabel

theorem About.issue_ne_unboundLabels {finding : Finding} (h : About item finding)
    (names : List String) : finding.issue ≠ .unboundLabels names := by
  cases h with
  | operand => nofun
  | whole _ _ ofItem =>
      rintro rfl
      cases ofItem

end AllAbout

namespace Reading

theorem about_ofDeclaration (directive : Directive) (node : DirectiveNode) :
    AllAbout (.directive node) (ofDeclaration directive node).findings := by
  have operands : AllAbout (.directive node) (operandFindings node.operands) :=
    allAbout_operandFindings rfl
  simp only [ofDeclaration]
  split
  · split
    · exact operands
    · exact operands.append (allAbout_singleton (.whole (list_mem_places _) rfl rfl))
  · refine operands.append (allAbout_singleton (.whole ?_ rfl rfl))
    split
    · exact list_mem_places (.directive node)
    · exact span_mem_places (.directive node)

theorem about_ofDirective (segment : Option SegmentName) (node : DirectiveNode) :
    AllAbout (.directive node) (ofDirective segment node).findings := by
  have whole {issue : Issue} (ofLabel : issue.isOfLabel = false)
      (ofItem : issue.isOfProgram = false) : AllAbout (.directive node) [⟨issue, node.span⟩] :=
    allAbout_singleton (.whole (span_mem_places _) ofLabel ofItem)
  simp only [ofDirective]
  split
  · exact whole rfl rfl
  · split
    · exact about_ofDeclaration _ node
    · exact whole rfl rfl
    · exact about_ofDeclaration _ node
    · exact whole rfl rfl
    · exact whole rfl rfl

theorem about_shapeFindings (instruction : Instruction) (node : StatementNode)
    (operands : List Operand) :
    AllAbout (.statement node) (shapeFindings instruction node operands) := by
  simp only [shapeFindings]
  split
  · exact allAbout_singleton (.whole (list_mem_places _) rfl rfl)
  · split
    · exact allAbout_nil
    · exact allAbout_singleton (.whole (list_mem_places _) rfl rfl)

theorem about_ofStatement (segment : Option SegmentName) (node : StatementNode) :
    AllAbout (.statement node) (ofStatement segment node).findings := by
  simp only [ofStatement]
  split
  · exact allAbout_singleton (.whole (span_mem_places _) rfl rfl)
  · split
    · exact allAbout_singleton (.whole (span_mem_places _) rfl rfl)
    · split
      · exact allAbout_singleton (.whole (mnemonic_mem_places _) rfl rfl)
      · exact (allAbout_operandFindings rfl).append (about_shapeFindings _ node _)

theorem about_ofMarker (node : Marker) : AllAbout (.marker node) (ofMarker node).findings := by
  have whole {issue : Issue} (ofLabel : issue.isOfLabel = false)
      (ofItem : issue.isOfProgram = false) : AllAbout (.marker node) [⟨issue, node.span⟩] :=
    allAbout_singleton (.whole (span_mem_places _) ofLabel ofItem)
  simp only [ofMarker]
  split
  · exact whole rfl rfl
  · split
    · exact allAbout_nil
    · next list given =>
        refine AllAbout.append ?_ ?_
        · rw [← given]
          exact allAbout_operandFindings rfl
        · split
          · split
            · exact allAbout_nil
            · exact whole rfl rfl
          · exact whole rfl rfl

/-- Every item is reported at its own places. -/
theorem about_ofItem (segment : Option SegmentName) (item : Item) :
    AllAbout item (ofItem segment item).findings := by
  cases item with
  | marker node => exact about_ofMarker node
  | label node => exact allAbout_nil
  | directive node => exact about_ofDirective segment node
  | statement node => exact about_ofStatement segment node
  | unknown node =>
      simp only [ofItem, ofUnknown]
      split <;> exact allAbout_singleton (.whole (span_mem_places _) rfl rfl)

end Reading

namespace Draft

theorem about_found (d : Draft) (item : Item) : AllAbout item (d.found item) := by
  cases item with
  | label node =>
      simp only [found]
      cases node.error with
      | some reason => exact allAbout_singleton (.whole (span_mem_places _) rfl rfl)
      | none =>
          intro finding member
          obtain ⟨issue, wrong, rfl⟩ := List.mem_map.mp member
          have either : issue = .labelTaken node.name ∨ issue = .entryOutsideText := by
            have wrong := Option.mem_toList.mp wrong
            simp only [labelIssue?] at wrong
            split at wrong
            · exact .inl (Option.some.inj wrong).symm
            · split at wrong
              · exact .inr (Option.some.inj wrong).symm
              · cases wrong
          obtain rfl | rfl := either <;> exact .whole (span_mem_places _) rfl rfl
  | marker _ | directive _ | statement _ | unknown _ => exact Reading.about_ofItem d.segment _

/-- Until the end of a source all that is found is found at one of its items. -/
theorem about_foldl (items : List Item) :
    ∀ finding ∈ (items.foldl enter {}).findings, ∃ item ∈ items, About item finding := by
  induction items using List.reverseRecOn with
  | nil => simp
  | append_singleton items item ih =>
      intro finding member
      rw [List.foldl_append, List.foldl_cons, List.foldl_nil, enter_eq, findings_pushes] at member
      obtain earlier | here := List.mem_append.mp member
      · obtain ⟨other, known, about⟩ := ih finding earlier
        exact ⟨other, List.mem_append_left _ known, about⟩
      · exact ⟨item, by simp, about_found _ item finding here⟩

end Draft

/-- The problems of a source are those of its items and those that are found at its end. -/
theorem problems_extract (items : List Item) :
    (extract items).problems = (items.foldl Draft.enter {}).findings.map Finding.problem ++
      ((items.foldl Draft.enter {}).closingIssues.map fun issue => ⟨issue, none⟩).map
        Finding.problem :=
  List.map_append

end Mips.Assembly
