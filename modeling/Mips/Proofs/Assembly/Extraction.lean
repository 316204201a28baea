import Mips.Assembly.Draft
import Mips.Proofs.Assembly.Reading
import Mips.Proofs.Program.Labels
import Mathlib.Data.List.Induction

/-!
Nothing of a source is lost without a critical problem. As long as all findings are harmless, a
draft holds every item that it has entered: the entries are those of the items in order, and the
names that are bound or wait for an entry are those that were declared, each once.
-/
namespace Mips

namespace Assembly

open Source

def labelNames (items : List Item) : List String :=
  items.filterMap fun
    | .label node => some node.name
    | _ => none

/-- The entries of a program are those that the items say, in order. -/
def Entered (p : Program) (items : List Item) : Prop :=
  ∃ groups, List.Forall₂ Kept items groups ∧
    p.text.entries.toList = groups.flatten.filterMap Entry.text? ∧
    p.data.entries.toList = groups.flatten.filterMap Entry.data?

namespace Draft

section Entries

variable (d : Draft) (entries : List Entry)

theorem findings_pushes : (entries.foldl push d).findings = d.findings := by
  induction entries generalizing d with
  | nil => rfl
  | cons entry rest ih => exact ih (d.push entry)

theorem text_pushes :
    (entries.foldl push d).program.text.entries.toList =
      d.program.text.entries.toList ++ entries.filterMap Entry.text? := by
  induction entries generalizing d with
  | nil => simp
  | cons entry rest ih =>
      rw [List.foldl_cons, ih, push, Program.text_push]
      cases entry <;> simp [Entry.text?, List.filterMap_cons]

theorem data_pushes :
    (entries.foldl push d).program.data.entries.toList =
      d.program.data.entries.toList ++ entries.filterMap Entry.data? := by
  induction entries generalizing d with
  | nil => simp
  | cons entry rest ih =>
      rw [List.foldl_cons, ih, push, Program.data_push]
      cases entry <;> simp [Entry.data?, List.filterMap_cons]

theorem wellLabelled_pushes (h : d.program.WellLabelled) :
    (entries.foldl push d).program.WellLabelled := by
  induction entries generalizing d with
  | nil => exact h
  | cons entry rest ih => exact ih (d.push entry) (h.push entry d.outstanding)

def Knows (name : String) : Prop :=
  d.program.hasLabel name = true ∨ name ∈ d.outstanding

theorem knows_pushes (name : String) : (entries.foldl push d).Knows name ↔ d.Knows name := by
  induction entries generalizing d with
  | nil => exact Iff.rfl
  | cons entry rest ih =>
      rw [List.foldl_cons, ih]
      simp [Knows, push, Program.hasLabel_push]

end Entries

theorem wellLabelled_enter {d : Draft} (h : d.program.WellLabelled) (item : Item) :
    (d.enter item).program.WellLabelled := by
  cases item with
  | label node =>
      simp only [enter, declare]
      split
      · exact h
      · exact h
  | marker _ | directive _ | statement _ | unknown _ => exact wellLabelled_pushes _ _ h

theorem wellLabelled_foldl (items : List Item) :
    (items.foldl enter {}).program.WellLabelled :=
  List.foldlRecOn (motive := fun d => d.program.WellLabelled) items enter
    Program.wellLabelled_empty fun _ h item _ => wellLabelled_enter h item

/-- What a draft holds of the items it has entered. -/
structure Holds (d : Draft) (items : List Item) : Prop where
  entries : Entered d.program items
  unmarked : ∀ item ∈ items, item.Unmarked
  distinct : (labelNames items).Nodup
  known : ∀ name, d.Knows name ↔ name ∈ labelNames items

theorem holds_nil : Holds {} [] := by
  refine ⟨⟨[], .nil, rfl, rfl⟩, by simp, by simp [labelNames], ?_⟩
  intro name
  simp [Knows, Program.hasLabel, Segment.hasLabel, Segment.labelIndex?, labelNames]

theorem harmless_of_enter {d : Draft} {item : Item} (h : Harmless (d.enter item).findings) :
    Harmless d.findings := by
  cases item with
  | label node =>
      simp only [enter, declare, report] at h
      split at h
      · exact ((harmless_append _ _).mp h).1
      · exact ((harmless_append _ _).mp h).1
  | marker _ | directive _ | statement _ | unknown _ =>
      simp only [enter, findings_pushes, report] at h
      exact ((harmless_append _ _).mp h).1

theorem known_declare {d : Draft} {items : List Item} (h : d.Holds items) (node : LabelNode)
    (unmarked : node.error = none) (name : String) :
    (d.declare node).Knows name ↔ name ∈ labelNames (items ++ [.label node]) := by
  have known := h.known name
  simp only [Knows, declare, unmarked, report, labelNames, List.mem_append,
    List.filterMap_append] at known ⊢
  rw [← known]
  simp [or_assoc]

theorem unknown_of_harmless {d : Draft} {node : LabelNode}
    (h : Harmless (d.declare node).findings) :
    node.error = none ∧ ¬d.Knows node.name := by
  simp only [declare] at h
  split at h
  · simp [report] at h
  · next unmarked =>
      refine ⟨unmarked, ?_⟩
      intro known
      have taken : d.labelIssue? node.name = some (.labelTaken node.name) := by
        simp only [labelIssue?, Bool.or_eq_true, List.contains_iff_mem]
        exact if_pos known
      simp [taken, report] at h

theorem Holds.declare {d : Draft} {items : List Item} (h : d.Holds items) (node : LabelNode)
    (harmless : Harmless (d.declare node).findings) :
    (d.declare node).Holds (items ++ [.label node]) := by
  obtain ⟨unmarked, fresh⟩ := unknown_of_harmless harmless
  have unmarkedItem : (Item.label node).Unmarked := ⟨by simp, unmarked, by simp [Item.operands]⟩
  obtain ⟨groups, each, text, data⟩ := h.entries
  refine ⟨⟨groups ++ [[]], List.rel_append each (.cons (.label node) .nil), ?_, ?_⟩, ?_, ?_,
    known_declare h node unmarked⟩
  · simpa [Draft.declare, unmarked, report] using text
  · simpa [Draft.declare, unmarked, report] using data
  · simpa [or_imp, forall_and] using ⟨h.unmarked, unmarkedItem⟩
  · rw [labelNames, List.filterMap_append]
    refine List.nodup_append.mpr ⟨h.distinct, by simp, ?_⟩
    intro name declared other last
    obtain rfl : other = node.name := by simpa using last
    exact fun same => fresh ((h.known node.name).mpr (same ▸ declared))

theorem Holds.pushes {d : Draft} {items : List Item} (h : d.Holds items) {item : Item}
    {entries : List Entry} (findings : List Finding) (segment : Option SegmentName)
    (kept : Kept item entries) (unmarked : item.Unmarked) (unnamed : labelNames [item] = []) :
    (entries.foldl push { d.report findings with segment }).Holds (items ++ [item]) := by
  obtain ⟨groups, each, text, data⟩ := h.entries
  have names : labelNames (items ++ [item]) = labelNames items := by
    rw [labelNames, List.filterMap_append, ← labelNames, ← labelNames, unnamed, List.append_nil]
  refine ⟨⟨groups ++ [entries], List.rel_append each (.cons kept .nil), ?_, ?_⟩, ?_, ?_, ?_⟩
  · simp [text_pushes, report, text]
  · simp [data_pushes, report, data]
  · simpa [or_imp, forall_and] using ⟨h.unmarked, unmarked⟩
  · exact names ▸ h.distinct
  · intro name
    rw [knows_pushes, names]
    exact h.known name

theorem Holds.enter {d : Draft} {items : List Item} (h : d.Holds items) (item : Item)
    (harmless : Harmless (d.enter item).findings) : (d.enter item).Holds (items ++ [item]) := by
  cases item with
  | label node => exact h.declare node harmless
  | marker _ | directive _ | statement _ | unknown _ =>
      simp only [Draft.enter, findings_pushes, report, harmless_append] at harmless ⊢
      obtain ⟨kept, unmarked⟩ := Reading.kept_ofItem harmless.2 (by simp)
      exact h.pushes _ _ kept unmarked rfl

theorem holds_foldl (items : List Item)
    (harmless : Harmless (items.foldl Draft.enter {}).findings) :
    (items.foldl Draft.enter {}).Holds items := by
  induction items using List.reverseRecOn with
  | nil => exact holds_nil
  | append_singleton items item ih =>
      rw [List.foldl_append] at harmless ⊢
      exact (ih (harmless_of_enter harmless)).enter item harmless

/-- At the end all names are bound, and the entry label among them is bound in the text. -/
theorem closed_of_harmless {d : Draft} (h : Harmless d.close.findings) :
    Harmless d.findings ∧ d.program.text.hasLabel entryLabel = true ∧ d.outstanding = [] := by
  simp only [close, report, closingIssues, List.map_append, harmless_append] at h
  obtain ⟨findings, entry, outstanding⟩ := h
  refine ⟨findings, ?_, ?_⟩
  · cases bound : d.program.text.hasLabel entryLabel with
    | true => rfl
    | false => simp [bound] at entry
  · cases waiting : d.outstanding with
    | nil => rfl
    | cons name names => simp [waiting] at outstanding

theorem isRunnable_result_iff (d : Draft) :
    d.result.isRunnable = true ↔ Harmless d.findings := by
  have critical (finding : Finding) :
      finding.problem.isCritical = false ↔ finding.issue.severity = .nonCritical := by
    cases severity : finding.issue.severity <;>
      simp [Finding.problem, Problem.isCritical, severity]
  simp [Result.isRunnable, Problems.hasCritical, result, Harmless, critical]

end Draft

theorem wellLabelled_extract (items : List Item) : (extract items).program.WellLabelled :=
  Draft.wellLabelled_foldl items

theorem entered_of_isRunnable {items : List Item} (h : (extract items).isRunnable = true) :
    Entered (extract items).program items := by
  obtain ⟨findings, -, -⟩ := Draft.closed_of_harmless ((Draft.isRunnable_result_iff _).mp h)
  exact (Draft.holds_foldl items findings).entries

end Assembly

end Mips
