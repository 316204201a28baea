import Mips.Proofs.Assembly.Binding
import Mips.Proofs.Program.Building
import Mathlib.Data.List.DropRight

/-!
The labels that are left over at the end of a source. Every label declared after the last entry is
left over and listed, also one whose name has its entry already or is listed before. The names that
are bound nowhere are all on the list, in the order of their first declarations, and the rest of the
list are names that have been reported as taken.
-/
namespace Mips

section Duplicates

variable {α : Type} [BEq α] [LawfulBEq α]

theorem eraseDups_filter (p : α → Bool) (all : List α) :
    (all.filter p).eraseDups = all.eraseDups.filter p := by
  induction all using List.reverseRecOn with
  | nil => rfl
  | append_singleton front a ih =>
      rw [List.filter_append, List.eraseDups_append, List.eraseDups_append, List.filter_append, ih]
      by_cases kept : p a <;> by_cases known : a ∈ front <;>
        simp [kept, known, List.removeAll, List.eraseDups_cons]

theorem eraseDups_of_nodup {all : List α} (h : all.Nodup) : all.eraseDups = all := by
  induction all using List.reverseRecOn with
  | nil => rfl
  | append_singleton front a ih =>
      obtain ⟨distinct, -, apart⟩ := List.nodup_append.mp h
      have fresh : a ∉ front := fun member => apart a member a (by simp) rfl
      rw [List.eraseDups_append, ih distinct]
      simp [List.removeAll, fresh, List.eraseDups_cons]

end Duplicates

namespace Assembly

open Source

/-- The names that some items declare, each as often as they declare it. -/
def declaredNames (items : List Item) : List String :=
  (items.filterMap declared?).map LabelNode.name

/-- The items after the last one that adds an entry. -/
def trailing (items : List Item) : List Item :=
  ((placed items).rtakeWhile fun p => p.entries.isEmpty).map Placed.item

/-- The items up to the last one that adds an entry. -/
def settled (items : List Item) : List Item :=
  ((placed items).rdropWhile fun p => p.entries.isEmpty).map Placed.item

/-- The declared names that are bound in neither segment, in the order of their first
declarations. -/
def unbound (items : List Item) : List String :=
  (declaredNames items).eraseDups.filter fun name => !(extract items).program.hasLabel name

theorem declaredNames_append (first later : List Item) :
    declaredNames (first ++ later) = declaredNames first ++ declaredNames later := by
  rw [declaredNames, List.filterMap_append, List.map_append]
  rfl

theorem mem_declaredNames {name : String} {items : List Item} :
    name ∈ declaredNames items ↔ ∃ item ∈ items, (declaration? name item).isSome := by
  simp only [declaredNames, List.mem_map, List.mem_filterMap, declaration?, Option.isSome_filter,
    Option.any_eq_true, decide_eq_true_eq]
  constructor
  · rintro ⟨node, ⟨item, member, declares⟩, named⟩
    exact ⟨item, member, node, declares, named⟩
  · rintro ⟨item, member, node, declares, named⟩
    exact ⟨node, ⟨item, member, declares⟩, named⟩

theorem length_declarations (name : String) (items : List Item) :
    (declarations name items).length = (declaredNames items).count name := by
  have chosen : declarations name items =
      (items.filterMap declared?).filter fun node => node.name = name :=
    (List.filter_filterMap ..).symm
  rw [chosen, declaredNames, List.count, List.countP_map, List.countP_eq_length_filter]
  congr 1

section Concat

variable (items : List Item) (item : Item)

theorem placedAfter_concat (before : List Item) :
    placedAfter before (items ++ [item]) =
      placedAfter before items ++ [⟨openSegment (before ++ items), item⟩] := by
  induction items generalizing before with
  | nil => simp [placedAfter]
  | cons first rest ih =>
      rw [List.cons_append, placedAfter, placedAfter, ih, List.append_assoc]
      rfl

theorem placed_concat :
    placed (items ++ [item]) = placed items ++ [⟨openSegment items, item⟩] :=
  placedAfter_concat items item []

theorem map_item_placedAfter (before : List Item) :
    (placedAfter before items).map Placed.item = items := by
  induction items generalizing before with
  | nil => rfl
  | cons first rest ih => rw [placedAfter, List.map_cons, ih]

theorem trailing_concat : trailing (items ++ [item]) =
    if (Placed.mk (openSegment items) item).entries.isEmpty then trailing items ++ [item]
    else [] := by
  rw [trailing, placed_concat, List.rtakeWhile_concat, apply_ite (List.map Placed.item)]
  simp [trailing]

theorem settled_concat : settled (items ++ [item]) =
    if (Placed.mk (openSegment items) item).entries.isEmpty then settled items
    else items ++ [item] := by
  rw [settled, placed_concat, List.rdropWhile_concat, apply_ite (List.map Placed.item)]
  simp [settled, placed, map_item_placedAfter]

end Concat

theorem settled_append_trailing (items : List Item) : settled items ++ trailing items = items := by
  induction items using List.reverseRecOn with
  | nil => rfl
  | append_singleton items item ih =>
      rw [settled_concat, trailing_concat]
      split
      · rw [← List.append_assoc, ih]
      · rw [List.append_nil]

theorem declaredNames_split (items : List Item) :
    declaredNames items = declaredNames (settled items) ++ declaredNames (trailing items) := by
  rw [← declaredNames_append, settled_append_trailing]

namespace Draft

theorem outstanding_pushes (d : Draft) (entries : List Entry) :
    (entries.foldl push d).outstanding = if entries.isEmpty then d.outstanding else [] := by
  induction entries generalizing d with
  | nil => rfl
  | cons entry rest ih =>
      rw [List.foldl_cons, ih]
      cases rest <;> rfl

/-- What waits at the end was declared after the last entry. -/
theorem outstanding_foldl (items : List Item) :
    (items.foldl enter {}).outstanding = declaredNames (trailing items) := by
  induction items using List.reverseRecOn with
  | nil => rfl
  | append_singleton items item ih =>
      obtain ⟨segment, -, -⟩ := entries_foldl [] items {} rfl
      rw [List.foldl_append, List.foldl_cons, List.foldl_nil, enter_eq, outstanding_pushes, segment,
        List.nil_append, trailing_concat]
      split
      · rw [declaredNames_append, noted, ih]
        cases declared : declared? item <;> simp [declaredNames, declared]
      · rfl

/-- The names that are bound are those that were declared before the last entry. -/
theorem hasLabel_foldl (items : List Item) (name : String) :
    (items.foldl enter {}).program.hasLabel name = true ↔ name ∈ declaredNames (settled items) := by
  induction items using List.reverseRecOn with
  | nil => simp [Program.hasLabel, Segment.hasLabel, Segment.labelIndex?, settled, placed,
      placedAfter, declaredNames]
  | append_singleton items item ih =>
      obtain ⟨segment, -, -⟩ := entries_foldl [] items {} rfl
      have waiting := outstanding_foldl (items ++ [item])
      rw [settled_concat]
      rw [trailing_concat] at waiting
      by_cases idle : (Placed.mk (openSegment items) item).entries.isEmpty = true
      · rw [if_pos idle, ← ih, List.foldl_append, List.foldl_cons, List.foldl_nil, program_enter]
        rw [segment]
        exact List.isEmpty_iff.mp idle
      · rw [if_neg idle] at waiting ⊢
        have known := knows_foldl (items ++ [item]) {} name
        rw [Knows, waiting, ← mem_declaredNames] at known
        simpa [declaredNames, not_knows_empty] using known

end Draft

theorem hasLabel_extract (items : List Item) (name : String) :
    (extract items).program.hasLabel name = true ↔ name ∈ declaredNames (settled items) :=
  Draft.hasLabel_foldl items name

/-- Of the names that are left over, those that are bound nowhere are all there are. -/
theorem unbound_eq (items : List Item) :
    unbound items = (declaredNames (trailing items)).eraseDups.filter
      fun name => !(extract items).program.hasLabel name := by
  have bound : (declaredNames (settled items)).eraseDups.filter
      (fun name => !(extract items).program.hasLabel name) = [] := by
    refine List.filter_eq_nil_iff.mpr fun name member => ?_
    simp [(hasLabel_extract items name).mpr (List.mem_eraseDups.mp member)]
  have fresh : ((declaredNames (trailing items)).removeAll (declaredNames (settled items))).filter
      (fun name => !(extract items).program.hasLabel name) =
        (declaredNames (trailing items)).filter
          fun name => !(extract items).program.hasLabel name := by
    rw [List.removeAll, List.filter_filter]
    refine List.filter_congr fun name _ => ?_
    by_cases earlier : name ∈ declaredNames (settled items)
    · simp [(hasLabel_extract items name).mpr earlier]
    · simp [earlier]
  rw [unbound, declaredNames_split, List.eraseDups_append, List.filter_append, bound, List.nil_append,
    ← eraseDups_filter, fresh, eraseDups_filter]

/-- The names that are left over are declared there only, and once. -/
def DeclaredLast (items : List Item) : Prop :=
  (declaredNames (trailing items)).Nodup ∧
    ∀ name ∈ declaredNames (trailing items), name ∉ declaredNames (settled items)

theorem leftover_eq_unbound_iff (items : List Item) :
    declaredNames (trailing items) = unbound items ↔ DeclaredLast items := by
  constructor
  · intro same
    have distinct := (nodup_eraseDups (declaredNames (trailing items))).filter
      fun name => !(extract items).program.hasLabel name
    rw [← unbound_eq, ← same] at distinct
    refine ⟨distinct, fun name member => ?_⟩
    rw [same, unbound, List.mem_filter, Bool.not_eq_true', ← Bool.not_eq_true,
      hasLabel_extract] at member
    exact member.2
  · rintro ⟨distinct, fresh⟩
    rw [unbound_eq, eraseDups_of_nodup distinct]
    refine (List.filter_eq_self.mpr fun name member => ?_).symm
    simpa using mt (hasLabel_extract items name).mp (fresh name member)

/-- A name is not reported as taken if it is declared only once. -/
theorem conflicts_eq_nil_iff (items : List Item) (name : String) :
    conflicts name (extract items).problems = [] ↔ (declaredNames items).count name ≤ 1 := by
  rw [conflicts_extract, List.map_eq_nil_iff, ← length_declarations]
  cases declarations name items <;> simp

theorem untaken_iff (items : List Item) :
    (∀ name ∈ declaredNames (trailing items), conflicts name (extract items).problems = []) ↔
      DeclaredLast items := by
  simp only [conflicts_eq_nil_iff, declaredNames_split items, List.count_append]
  constructor
  · intro single
    refine ⟨List.nodup_iff_count_le_one.mpr fun name => ?_, fun name member => ?_⟩
    · by_cases member : name ∈ declaredNames (trailing items)
      · exact (Nat.le_add_left _ _).trans (single name member)
      · rw [List.count_eq_zero_of_not_mem member]
        exact Nat.zero_le 1
    · have all := single name member
      have present := List.count_pos_iff.mpr member
      exact List.count_eq_zero.mp (by omega)
  · rintro ⟨distinct, fresh⟩ name member
    rw [List.count_eq_zero_of_not_mem (fresh name member), Nat.zero_add]
    exact List.nodup_iff_count_le_one.mp distinct name

/-- The problems that tell the labels left over. -/
def leftovers (problems : Problems) : Problems :=
  problems.filter fun p => Issue.leftoverWording.toList.isPrefixOf p.message.toList

theorem leftovers_append (first second : Problems) :
    leftovers (first ++ second) = leftovers first ++ leftovers second :=
  List.filter_append _ _

theorem leftovers_eq_nil {findings : List Finding}
    (h : ∀ finding ∈ findings, ∀ names, finding.issue ≠ .unboundLabels names) :
    leftovers (findings.map Finding.problem) = [] := by
  refine List.filter_eq_nil_iff.mpr fun p member worded => ?_
  obtain ⟨finding, found, rfl⟩ := List.mem_map.mp member
  obtain ⟨names, same⟩ := (Issue.isPrefixOf_message_iff finding.issue).mp worded
  exact h finding found names same

/-- Names in double quotes, one after another. -/
def listing (names : List String) : String :=
  ", ".intercalate (names.map fun name => s!"\"{name}\"")

/-- The problem that tells some labels, if there are any. -/
def leftoverProblem (names : List String) : Problems :=
  if names = [] then []
  else [.unlocated
    ("These labels could not be assigned to addresses because the end of the program was " ++
      "reached: " ++ listing names)]

/-- Between two names stand the quotes of both and a comma. -/
theorem listing_eq (name : String) (more : List String) :
    listing (name :: more) = "\"" ++ "\", \"".intercalate (name :: more) ++ "\"" := by
  induction more generalizing name with
  | nil =>
      rw [listing, List.map_cons, List.map_nil, String.intercalate_singleton,
        String.intercalate_singleton]
      rfl
  | cons next more ih =>
      have between : "\"" ++ (", " ++ "\"") = "\", \"" := by decide
      have later := ih next
      rw [listing, List.map_cons] at later
      rw [listing, List.map_cons, List.map_cons, String.intercalate_cons_cons, later,
        String.intercalate_cons_cons, ← between]
      simp only [toString, String.append_assoc]

theorem leftoverProblem_eq (names : List String) : leftoverProblem names =
    if names = [] then [] else [.unlocated (Issue.unboundLabels names).message] := by
  cases names with
  | nil => rfl
  | cons name more =>
      have quoted : "reached: " ++ "\"" = "reached: \"" := by decide
      rw [leftoverProblem, if_neg (List.cons_ne_nil name more), if_neg (List.cons_ne_nil name more),
        listing_eq, Issue.message_unboundLabels, ← quoted]
      simp only [String.append_assoc]

theorem leftovers_leftoverProblem (names : List String) :
    leftovers (leftoverProblem names) = leftoverProblem names := by
  rw [leftoverProblem_eq]
  split
  · rfl
  · exact List.filter_cons_of_pos ((Issue.isPrefixOf_message_iff _).mpr ⟨names, rfl⟩)

theorem leftovers_closing (d : Draft) :
    leftovers ((d.closingIssues.map fun issue => ⟨issue, none⟩).map Finding.problem) =
      leftoverProblem d.outstanding := by
  have entry : leftovers (((if d.program.text.hasLabel entryLabel then []
      else [Issue.missingEntry]).map fun issue => ⟨issue, none⟩).map Finding.problem) = [] := by
    refine leftovers_eq_nil fun finding found names => ?_
    split at found
    · cases found
    · rw [List.mem_singleton.mp found]
      nofun
  have names : ((if d.outstanding.isEmpty then [] else [Issue.unboundLabels d.outstanding]).map
      fun issue => ⟨issue, none⟩).map Finding.problem = leftoverProblem d.outstanding := by
    rw [leftoverProblem_eq]
    cases d.outstanding <;> rfl
  rw [Draft.closingIssues, List.map_append, List.map_append, leftovers_append, entry, names,
    leftovers_leftoverProblem, List.nil_append]

theorem leftovers_extract (items : List Item) :
    leftovers (extract items).problems = leftoverProblem (declaredNames (trailing items)) := by
  have earlier : leftovers ((items.foldl Draft.enter {}).findings.map Finding.problem) = [] := by
    refine leftovers_eq_nil fun finding found names => ?_
    obtain ⟨item, -, about⟩ := Draft.about_foldl items finding found
    exact about.issue_ne_unboundLabels names
  rw [problems_extract, leftovers_append, earlier, leftovers_closing, Draft.outstanding_foldl,
    List.nil_append]

/-- What the report at the end of a source says of its labels. -/
structure TellsLeftovers (items : List Item) : Prop where
  report : leftovers (extract items).problems = leftoverProblem (declaredNames (trailing items))
  unbound : unbound items = (declaredNames (trailing items)).eraseDups.filter
    fun name => !(extract items).program.hasLabel name
  untaken : declaredNames (trailing items) = Assembly.unbound items ↔
    ∀ name ∈ declaredNames (trailing items), conflicts name (extract items).problems = []

/-- The report lists the labels after the last entry. Its names that are bound nowhere are all such
names, in order, and it lists no others if it lists no name that is taken. -/
theorem extract_tellsLeftovers (items : List Item) : TellsLeftovers items where
  report := leftovers_extract items
  unbound := unbound_eq items
  untaken := (leftover_eq_unbound_iff items).trans (untaken_iff items).symm

/-- A program of one statement, with labels behind it. -/
def endingWith (names : List String) : List Item :=
  [.marker { segment := .text, text := ".text" }, .label { name := "main" },
    .statement { mnemonic := "nop" }] ++ names.map fun name => .label { name }

/-- A name that is bound is on the list if it is declared again at the end, and a name that is bound
nowhere is on it twice if it is declared twice. -/
theorem leftovers_redeclared :
    leftovers (extract (endingWith ["main"])).problems =
        [.unlocated
          ("These labels could not be assigned to addresses because the end of the program was " ++
            "reached: \"main\"")] ∧
      unbound (endingWith ["main"]) = [] ∧
      leftovers (extract (endingWith ["end", "end"])).problems =
        [.unlocated
          ("These labels could not be assigned to addresses because the end of the program was " ++
            "reached: \"end\", \"end\"")] ∧
      unbound (endingWith ["end", "end"]) = ["end"] := by
  have bound : declaredNames (trailing (endingWith ["main"])) = ["main"] := by decide
  have twice : declaredNames (trailing (endingWith ["end", "end"])) = ["end", "end"] := by decide
  rw [leftovers_extract, leftovers_extract, bound, twice]
  exact ⟨by decide +kernel, by decide, by decide +kernel, by decide⟩

end Assembly

end Mips
