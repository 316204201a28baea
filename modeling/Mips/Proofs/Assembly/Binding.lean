import Mips.Proofs.Assembly.Findings
import Mips.Proofs.Assembly.Wording
import Mathlib.Data.List.TakeWhile

/-!
The entries that labels are bound to. A name waits from its first declaration for the next entry,
in whichever segment it comes, and is then bound to it for good; a later declaration of the name
binds nothing and is reported. So the binding of a name can be read off the items: it is the
first entry after the first declaration.
-/
namespace Mips

namespace Assembly

open Source

/-- The node by which an item declares a name. -/
def declaration? (name : String) (item : Item) : Option LabelNode :=
  (declared? item).filter fun node => node.name = name

def declarations (name : String) (items : List Item) : List LabelNode :=
  items.filterMap (declaration? name)

/-- The entries of some items that follow others. -/
def entriesAfter (before items : List Item) : List Entry :=
  (placedAfter before items).flatMap Placed.entries

/-- What stands for an entry that comes next after some others. -/
def targetAfter (earlier : List Entry) : Entry → Target
  | .statement _ => .text (earlier.filterMap Entry.text?).length
  | .variable _ => .data (earlier.filterMap Entry.data?).length

/-- Whether an item leaves a name undeclared. -/
def passes (name : String) (item : Item) : Bool :=
  (declaration? name item).isNone

/-- The first entry after the first declaration of a name. -/
def binding? (name : String) (items : List Item) : Option Target :=
  let before := items.takeWhile (passes name)
  match items.dropWhile (passes name) with
  | [] => none
  | first :: after =>
      (entriesAfter (before ++ [first]) after).head?.map (targetAfter (entriesAfter [] before))

theorem text_entriesAfter (before items : List Item) :
    (entriesAfter before items).filterMap Entry.text? =
      (placedAfter before items).filterMap Placed.statement? := by
  rw [entriesAfter, List.filterMap_flatMap]
  simp only [Placed.text_entries]
  exact (List.filterMap_eq_flatMap_toList _ _).symm

theorem data_entriesAfter (before items : List Item) :
    (entriesAfter before items).filterMap Entry.data? =
      (placedAfter before items).flatMap Placed.vars := by
  rw [entriesAfter, List.filterMap_flatMap]
  simp only [Placed.data_entries]

theorem entries_eq_nil_of_declaration? {name : String} {item : Item} {node : LabelNode}
    (h : declaration? name item = some node) (segment : Option SegmentName) :
    (Placed.mk segment item).entries = [] := by
  cases item with
  | label _ => rfl
  | marker _ | directive _ | statement _ | unknown _ => simp [declaration?, declared?] at h

namespace Draft

section Names

variable (d : Draft) (item : Item) (name : String)

/-- Only the first of some entries takes the labels that wait. -/
theorem resolveLabel?_pushes (entries : List Entry) :
    (entries.foldl push d).program.resolveLabel? name =
      (d.program.resolveLabel? name).or
        (if name ∈ d.outstanding then entries.head?.map d.program.next else none) := by
  induction entries generalizing d with
  | nil => simp
  | cons entry rest ih =>
      rw [List.foldl_cons, ih]
      simp [push, Program.resolveLabel?_push]

theorem knows_enter :
    (d.enter item).Knows name ↔ d.Knows name ∨ (declaration? name item).isSome := by
  have declares : name ∈ (declared? item).toList.map LabelNode.name ↔
      (declaration? name item).isSome := by
    cases declared : declared? item <;> simp [declaration?, declared, eq_comm]
  rw [enter_eq, knows_pushes, ← declares]
  simp [Knows, noted, or_assoc]

theorem resolveLabel?_of_not_knows {d : Draft} {name : String} (h : ¬d.Knows name) :
    d.program.resolveLabel? name = none := by
  rw [← Option.not_isSome_iff_eq_none, Program.isSome_resolveLabel?]
  exact fun bound => h (.inl bound)

/-- An item that a known name meets binds it, if the name waits and the item adds an entry. -/
theorem resolveLabel?_enter (known : d.Knows name) :
    (d.enter item).program.resolveLabel? name =
      (d.program.resolveLabel? name).or
        ((Placed.mk d.segment item).entries.head?.map d.program.next) := by
  rw [enter_eq, resolveLabel?_pushes]
  obtain bound | waiting := known
  · obtain ⟨target, resolved⟩ :=
      Option.isSome_iff_exists.mp ((d.program.isSome_resolveLabel? name).trans bound)
    simp [noted, resolved]
  · have asked : name ∈ (d.noted item).outstanding := List.mem_append_left _ waiting
    rw [if_pos asked]
    rfl

theorem program_enter (h : (Placed.mk d.segment item).entries = []) :
    (d.enter item).program = d.program := by
  rw [enter_eq, h]
  rfl

end Names

/-- A name that is known is bound to the next entry, unless it was bound before. -/
theorem resolveLabel?_foldl (before items : List Item) (d : Draft) (name : String)
    (placed : d.segment = openSegment before) (known : d.Knows name) :
    (items.foldl enter d).program.resolveLabel? name =
      (d.program.resolveLabel? name).or
        ((entriesAfter before items).head?.map d.program.next) := by
  induction items generalizing before d with
  | nil => simp [entriesAfter, placedAfter]
  | cons item rest ih =>
      have segment : (d.enter item).segment = openSegment (before ++ [item]) := by
        rw [segment_enter, placed, openSegment_append]
      have later := ih (before ++ [item]) (d.enter item) segment
        ((d.knows_enter item name).mpr (.inl known))
      have split : entriesAfter before (item :: rest) =
          (Placed.mk d.segment item).entries ++ entriesAfter (before ++ [item]) rest := by
        rw [placed]
        rfl
      rw [List.foldl_cons, later, resolveLabel?_enter d item name known, split, List.head?_append]
      cases entries : (Placed.mk d.segment item).entries with
      | nil =>
          -- The item changes nothing in the program, so the name still waits for the same place.
          simp [program_enter d item entries]
      | cons entry more => cases d.program.resolveLabel? name <;> simp

theorem not_knows_empty (name : String) : ¬({} : Draft).Knows name := by
  simp [Knows, Program.hasLabel, Segment.hasLabel, Segment.labelIndex?]

theorem knows_foldl (items : List Item) (d : Draft) (name : String) :
    (items.foldl enter d).Knows name ↔
      d.Knows name ∨ ∃ item ∈ items, (declaration? name item).isSome := by
  induction items generalizing d with
  | nil => simp
  | cons item rest ih => simp [ih, knows_enter, or_assoc]

end Draft

theorem next_foldl (items : List Item) :
    (items.foldl Draft.enter {}).program.next = targetAfter (entriesAfter [] items) := by
  obtain ⟨-, text, data⟩ := Draft.entries_foldl [] items {} rfl
  funext entry
  match entry with
  | .statement s =>
      rw [targetAfter, text_entriesAfter]
      exact congrArg (fun entries => Target.text entries.length) text
  | .variable v =>
      rw [targetAfter, data_entriesAfter]
      exact congrArg (fun entries => Target.data entries.length) data

section First

variable {name : String} {before : List Item} (passed : ∀ item ∈ before, passes name item = true)

include passed

theorem not_knows_foldl : ¬(before.foldl Draft.enter {}).Knows name := by
  rw [Draft.knows_foldl]
  intro known
  obtain known | ⟨item, member, declares⟩ := known
  · exact Draft.not_knows_empty name known
  · have undeclared := Option.isNone_iff_eq_none.mp (passed item member)
    simp [undeclared] at declares

/-- From its first declaration on, a name stands for the next entry. -/
theorem resolveLabel?_first {first : Item} {node : LabelNode}
    (declares : declaration? name first = some node) (after : List Item) :
    ((before ++ first :: after).foldl Draft.enter {}).program.resolveLabel? name =
      (entriesAfter (before ++ [first]) after).head?.map
        (targetAfter (entriesAfter [] before)) := by
  have unknown := not_knows_foldl passed
  -- The declaration adds no entry, so the next one has the place that it had before.
  have program := Draft.program_enter (before.foldl Draft.enter {}) first
    (entries_eq_nil_of_declaration? declares _)
  have segment : ((before.foldl Draft.enter {}).enter first).segment =
      openSegment (before ++ [first]) := by
    obtain ⟨segment, -, -⟩ := Draft.entries_foldl [] before {} rfl
    rw [Draft.segment_enter, segment, List.nil_append, openSegment_append]
  have known := ((before.foldl Draft.enter {}).knows_enter first name).mpr
    (.inr (by simp [declares]))
  rw [List.foldl_append, List.foldl_cons, Draft.resolveLabel?_foldl _ after _ name segment known,
    program, Draft.resolveLabel?_of_not_knows unknown, Option.none_or, next_foldl]

end First

/-- After all items, a name stands for what its declarations say. -/
theorem resolveLabel?_extract (items : List Item) (name : String) :
    (extract items).program.resolveLabel? name = binding? name items := by
  change (items.foldl Draft.enter {}).program.resolveLabel? name = _
  have whole := List.takeWhile_append_dropWhile (p := passes name) (l := items)
  have passed : ∀ item ∈ items.takeWhile (passes name), passes name item = true :=
    fun item member => List.mem_takeWhile_imp member
  have stops := List.head?_dropWhile_not (passes name) items
  simp only [binding?]
  cases rest : items.dropWhile (passes name) with
  | nil =>
      rw [rest, List.append_nil] at whole
      rw [← whole]
      exact Draft.resolveLabel?_of_not_knows (not_knows_foldl passed)
  | cons first after =>
      rw [rest] at whole stops
      obtain ⟨node, declares⟩ :=
        Option.isSome_iff_exists.mp (Option.isNone_eq_false_iff.mp stops)
      conv_lhs => rw [← whole]
      exact resolveLabel?_first passed declares after

/-- The findings that report a name as taken. -/
def taken (name : String) (findings : List Finding) : List Finding :=
  findings.filter fun finding => finding.issue = .labelTaken name

def takenAt (name : String) (node : LabelNode) : Finding :=
  ⟨.labelTaken name, node.span⟩

section Taken

variable (name : String)

@[simp] theorem taken_nil : taken name [] = [] :=
  rfl

@[simp] theorem taken_append (first second : List Finding) :
    taken name (first ++ second) = taken name first ++ taken name second :=
  List.filter_append _ _

@[simp] theorem taken_cons (issue : Issue) (span : Option Span) (rest : List Finding) :
    taken name (⟨issue, span⟩ :: rest) =
      if issue = .labelTaken name then ⟨issue, span⟩ :: taken name rest else taken name rest := by
  simp [taken, List.filter_cons]

/-- Only a label is ever reported as taken. -/
theorem taken_of_about {item : Item} {findings : List Finding} (about : AllAbout item findings)
    (other : item.isLabel = false) : taken name findings = [] := by
  refine List.filter_eq_nil_iff.mpr fun finding member same => ?_
  exact (about finding member).issue_ne_labelTaken other name (of_decide_eq_true same)

namespace Draft

instance (d : Draft) : Decidable (d.Knows name) :=
  inferInstanceAs (Decidable (_ ∨ _))

theorem labelIssue?_eq_labelTaken_iff (d : Draft) (declared : String) :
    d.labelIssue? declared = some (.labelTaken name) ↔ declared = name ∧ d.Knows declared := by
  by_cases known : d.Knows declared
  · have taken : d.labelIssue? declared = some (.labelTaken declared) := by
      simp only [labelIssue?, Bool.or_eq_true, List.contains_iff_mem]
      exact if_pos known
    simp [taken, known]
  · have issue : d.labelIssue? declared =
        if declared = entryLabel ∧ d.segment ≠ some .text then some .entryOutsideText
        else none := by
      simp only [labelIssue?, Bool.or_eq_true, List.contains_iff_mem]
      exact if_neg known
    rw [issue]
    split <;> simp [known]

/-- A declaration is reported exactly if the name has been declared before. -/
theorem taken_found (d : Draft) (item : Item) :
    taken name (d.found item) =
      if d.Knows name then (declaration? name item).toList.map (takenAt name) else [] := by
  cases item with
  | label node =>
      have issues (issue : Option Issue) :
          taken name (issue.toList.map fun issue => ⟨issue, node.span⟩) =
            if issue = some (.labelTaken name) then [takenAt name node] else [] := by
        cases issue with
        | none => rfl
        | some issue => by_cases same : issue = .labelTaken name <;> simp [same, takenAt]
      simp only [found, declaration?, declared?]
      cases node.error with
      | some reason => simp
      | none =>
          by_cases same : node.name = name <;>
            simp [issues, labelIssue?_eq_labelTaken_iff, same, Option.filter]
  | marker _ | directive _ | statement _ | unknown _ =>
      rw [taken_of_about name (about_found d _) rfl]
      simp [declaration?, declared?]

theorem taken_foldl (items : List Item) (d : Draft) :
    taken name (items.foldl enter d).findings =
      taken name d.findings ++
        (if d.Knows name then declarations name items
        else (declarations name items).tail).map (takenAt name) := by
  induction items generalizing d with
  | nil => simp [declarations]
  | cons item rest ih =>
      have entered : taken name (d.enter item).findings =
          taken name d.findings ++ taken name (d.found item) := by
        rw [enter_eq, findings_pushes, noted, taken_append]
      rw [List.foldl_cons, ih, entered, taken_found]
      simp only [knows_enter, declarations, List.filterMap_cons]
      by_cases known : d.Knows name <;> cases declaration? name item <;> simp [known]

end Draft

end Taken

/-- The problems that say that a name is taken. -/
def conflicts (name : String) (problems : Problems) : Problems :=
  problems.filter fun p => p.message = s!"the label name: \"{name}\" is taken"

def conflictAt (name : String) (node : LabelNode) : Problem :=
  .spanning s!"the label name: \"{name}\" is taken" node.span

/-- The problems that are worded so are those that are found so. -/
theorem conflicts_result (d : Draft) (name : String) :
    conflicts name d.result.problems = (taken name d.findings).map Finding.problem := by
  have worded (finding : Finding) :
      finding.problem.message = s!"the label name: \"{name}\" is taken" ↔
        finding.issue = .labelTaken name :=
    Issue.message_eq_labelTaken_iff finding.issue name
  simp only [conflicts, Draft.result, List.filter_map, Function.comp_def, worded, taken]

theorem taken_close (d : Draft) (name : String) :
    taken name d.close.findings = taken name d.findings := by
  have closing : taken name (d.closingIssues.map fun issue => ⟨issue, none⟩) = [] := by
    simp only [Draft.closingIssues]
    split <;> split <;> simp
  rw [Draft.close, Draft.report, taken_append, closing, List.append_nil]

/-- Every declaration but the first one has been reported when it was entered. -/
theorem conflicts_foldl (items : List Item) (name : String) :
    conflicts name (items.foldl Draft.enter {}).result.problems =
      (declarations name items).tail.map (conflictAt name) := by
  have found := Draft.taken_foldl name items {}
  rw [if_neg (Draft.not_knows_empty name), taken_nil, List.nil_append] at found
  rw [conflicts_result, found, List.map_map]
  rfl

theorem conflicts_extract (items : List Item) (name : String) :
    conflicts name (extract items).problems =
      (declarations name items).tail.map (conflictAt name) := by
  rw [← conflicts_foldl, conflicts_result, ← taken_close, ← conflicts_result]
  rfl

/-- A name is bound to the first entry after its first declaration and to nothing else. Each
later declaration is reported when it is met, and nothing else is reported so; and no binding is
left without an entry. -/
theorem extract_binds (items : List Item) (name : String) :
    (∀ index, (extract items).program.text.labelIndex? name = some index ↔
        binding? name items = some (.text index)) ∧
      (∀ index, (extract items).program.data.labelIndex? name = some index ↔
        binding? name items = some (.data index)) ∧
      (∀ n, conflicts name ((items.take n).foldl Draft.enter {}).result.problems =
        (declarations name (items.take n)).tail.map (conflictAt name)) ∧
      conflicts name (extract items).problems =
        (declarations name items).tail.map (conflictAt name) ∧
      (extract items).program.validate = .ok () := by
  have wellLabelled := wellLabelled_extract items
  rw [← resolveLabel?_extract]
  exact ⟨Program.labelIndex?_text_iff _ name, wellLabelled.labelIndex?_data_iff name,
    fun n => conflicts_foldl (items.take n) name, conflicts_extract items name,
    (Program.validate_eq_ok_iff _).mpr wellLabelled⟩

end Assembly

end Mips
