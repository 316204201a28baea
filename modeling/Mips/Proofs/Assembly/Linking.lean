import Mips.Assembly.Draft
import Mips.Proofs.Program.Labels
import Mathlib.Data.List.Forall2

/-!
Linking. In a valid program every address operand gets the place for which its label stands, and
nothing else of the program changes. The labels that stand for nothing are reported one by one, in
the order of their uses; linking once more finds the same ones and changes nothing.
-/
namespace Mips

/-- An address operand, and the line of its statement. -/
structure LabelUse where
  address : Address
  line : Option Nat
  deriving DecidableEq, Repr

def LabelUse.isResolved (u : LabelUse) : Bool :=
  u.address.isResolved

/-- An address operand is placed; any other operand stays as it is. -/
inductive Operand.Places (find : String → Option Target) : Operand → Operand → Prop
  | address (a : Address) :
      Places find (.address a) (.address { a with target := a.label.bind find })
  | other {o : Operand} (h : o.address? = none) : Places find o o

/-- A statement whose addresses are placed is otherwise the same. -/
structure Statement.Places (find : String → Option Target) (s t : Statement) : Prop where
  instruction : t.instruction = s.instruction
  operands : List.Forall₂ (Operand.Places find) s.operands t.operands
  line : t.line = s.line

/-- The address operands of a statement, in order. -/
def Statement.uses (s : Statement) : List LabelUse :=
  (s.operands.filterMap Operand.address?).map fun a => ⟨a, s.line⟩

namespace Program

/-- The address operands of a program, statement by statement. -/
def uses (p : Program) : List LabelUse :=
  p.text.entries.toList.flatMap Statement.uses

def unresolved (p : Program) : List LabelUse :=
  p.uses.filter fun u => !u.isResolved

/-- No address operand has been placed yet. -/
def Unplaced (p : Program) : Prop :=
  ∀ u ∈ p.uses, u.address.target = none

/-- Each label of a program has been placed where it stands for an entry. -/
structure Linked (p q : Program) : Prop where
  statements : List.Forall₂ (Statement.Places p.resolveLabel?) p.text.entries.toList
    q.text.entries.toList
  labels : q.text.labels = p.text.labels
  data : q.data = p.data

/-- A name is bound in one segment only, so that it does not matter which one is asked first. -/
theorem WellLabelled.place?_eq {p : Program} (h : p.WellLabelled) : p.place? = p.resolveLabel? := by
  funext name
  cases text : p.text.labelIndex? name with
  | none => simp [place?, resolveLabel?, text]
  | some index =>
      have elsewhere : p.data.hasLabel name = false :=
        h.exclusive name (by simp [Segment.hasLabel, text])
      have unbound : p.data.labelIndex? name = none := by
        simpa [Segment.hasLabel] using elsewhere
      simp [place?, resolveLabel?, text, unbound]

end Program

section Links

variable {find : String → Option Target}

theorem Operand.places_link {o : Operand}
    (unplaced : ∀ a, o.address? = some a → a.target = none) : Places find o (o.link find) := by
  cases o with
  | address a =>
      have placed : (Operand.address a).link find =
          .address { a with target := a.label.bind find } := by
        simp [link, unplaced a rfl]
      rw [placed]
      exact .address a
  | integer _ | string _ | register _ => exact .other rfl

theorem Operand.link_link (o : Operand) : (o.link find).link find = o.link find := by
  cases o with
  | address a => cases placed : a.label.bind find <;> simp [link, placed]
  | integer _ | string _ | register _ => rfl

theorem Operand.undefinedLabel?_link (o : Operand) :
    (o.link find).undefinedLabel? find = o.undefinedLabel? find := by
  cases o <;> rfl

/-- The addresses that stay without a place have just the labels that are found undefined. -/
theorem Operand.unresolved_link {operands : List Operand}
    (unplaced : ∀ a ∈ operands.filterMap address?, a.target = none) :
    List.Forall₂ (fun (a : Address) name => a.label = some name)
      (((operands.map (link find)).filterMap address?).filter fun a => !a.isResolved)
      (operands.filterMap (undefinedLabel? find)) := by
  induction operands with
  | nil => exact .nil
  | cons o rest ih =>
      cases o with
      | integer _ | string _ | register _ => exact ih unplaced
      | address a =>
          have here : a.target = none := unplaced a (by simp [address?])
          have later := ih fun b member => unplaced b (List.mem_cons_of_mem _ member)
          cases label : a.label with
          | none => simpa [link, address?, undefinedLabel?, Address.isResolved, label] using later
          | some name =>
              cases found : find name with
              | some target =>
                  simpa [link, address?, undefinedLabel?, Address.isResolved, label, found]
                    using later
              | none =>
                  have undefined : undefinedLabel? find (.address a) = some name := by
                    simp [undefinedLabel?, label, found]
                  rw [List.filterMap_cons_some undefined]
                  simpa [link, address?, Address.isResolved, label, found, here] using later

namespace Statement

theorem places_link {s : Statement} (unplaced : ∀ u ∈ s.uses, u.address.target = none) :
    Places find s (s.link find) := by
  refine ⟨rfl, ?_, rfl⟩
  refine List.forall₂_map_right_iff.mpr (List.forall₂_same.mpr ?_)
  intro o member
  refine Operand.places_link ?_
  intro a address
  exact unplaced ⟨a, s.line⟩ (List.mem_map.mpr ⟨a, List.mem_filterMap.mpr ⟨o, member, address⟩, rfl⟩)

theorem link_link (s : Statement) : (s.link find).link find = s.link find := by
  simp [link, Operand.link_link]

theorem undefinedLabels_link (s : Statement) :
    (s.link find).undefinedLabels find = s.undefinedLabels find := by
  simp [undefinedLabels, link, List.filterMap_map, Operand.undefinedLabel?_link]

theorem unresolved_link {s : Statement} (unplaced : ∀ u ∈ s.uses, u.address.target = none) :
    List.Forall₂ (fun u label => u.address.label = some label.name ∧ u.line = label.line)
      ((s.link find).uses.filter fun u => !u.isResolved) (s.undefinedLabels find) := by
  have operands : ∀ a ∈ s.operands.filterMap Operand.address?, a.target = none := by
    intro a member
    exact unplaced ⟨a, s.line⟩ (List.mem_map_of_mem member)
  rw [uses, undefinedLabels, List.filter_map, List.forall₂_map_left_iff, List.forall₂_map_right_iff]
  exact (Operand.unresolved_link operands).imp fun _ _ label => ⟨label, rfl⟩

end Statement

end Links

namespace Program

variable {p : Program}

theorem linked_link (labelled : p.WellLabelled) (unplaced : p.Unplaced) : p.Linked p.link := by
  refine ⟨?_, rfl, rfl⟩
  rw [link, labelled.place?_eq, Array.toList_map, List.forall₂_map_right_iff, List.forall₂_same]
  intro s member
  exact Statement.places_link fun u used => unplaced u (List.mem_flatMap.mpr ⟨s, member, used⟩)

theorem place?_link (p : Program) : p.link.place? = p.place? :=
  rfl

theorem link_link (p : Program) : p.link.link = p.link := by
  rw [link, place?_link]
  simp [link, Function.comp_def, Statement.link_link]

theorem undefinedLabels_link (p : Program) : p.link.undefinedLabels = p.undefinedLabels := by
  rw [undefinedLabels, place?_link]
  simp [link, undefinedLabels, List.flatMap_map, Statement.undefinedLabels_link]

/-- What linking leaves without a place it finds undefined, use by use. -/
theorem unresolved_link (unplaced : p.Unplaced) :
    List.Forall₂ (fun u label => u.address.label = some label.name ∧ u.line = label.line)
      p.link.unresolved p.undefinedLabels := by
  rw [unresolved, uses, undefinedLabels, link, Array.toList_map, List.flatMap_map,
    List.filter_flatMap]
  have each := fun s member => @Statement.unresolved_link p.place? s
    fun u used => unplaced u (List.mem_flatMap.mpr ⟨s, member, used⟩)
  generalize p.text.entries.toList = statements at each ⊢
  induction statements with
  | nil => exact .nil
  | cons s rest ih =>
      rw [List.flatMap_cons, List.flatMap_cons]
      exact List.rel_append (each s (List.mem_cons_self ..))
        (ih fun t member => each t (List.mem_cons_of_mem _ member))

end Program

namespace Assembly

/-- A problem that reports a label without an entry, at the line of the statement that uses it. -/
structure Reports (u : LabelUse) (problem : Problem) : Prop where
  message : ∃ name, u.address.label = some name ∧
    problem.message = s!"the label \"{name}\" is not defined"
  severity : problem.severity = .critical
  line : problem.line = u.line
  range : problem.range = none

theorem Reports.isPositionFree_iff {u : LabelUse} {problem : Problem} (h : Reports u problem) :
    problem.isPositionFree = true ↔ u.line = none := by
  simp [Problem.isPositionFree, h.line, h.range]

/-- Linking a valid program places each label where it stands for an entry and changes nothing
else. Exactly the uses that stay without a place are reported, and a second time changes nothing. -/
theorem link_resolves (r : Result) (valid : r.program.validate = .ok ())
    (unplaced : r.program.Unplaced) :
    r.program.Linked r.link.program ∧
      (∃ reported, r.link.problems = r.problems ++ reported ∧
        List.Forall₂ (fun u problem => Reports u problem ∧
          (problem.isPositionFree = true ↔ u.line = none)) r.link.program.unresolved reported) ∧
      r.program.undefinedLabels.length = r.link.program.unresolved.length ∧
      r.link.link.program = r.link.program ∧
      r.link.program.undefinedLabels.length = r.program.undefinedLabels.length := by
  have labelled := (Program.validate_eq_ok_iff _).mp valid
  have found := Program.unresolved_link unplaced
  refine ⟨Program.linked_link labelled unplaced, ⟨_, rfl, ?_⟩, found.length_eq.symm,
    Program.link_link _, congrArg List.length (Program.undefinedLabels_link _)⟩
  refine List.forall₂_map_right_iff.mpr (found.imp ?_)
  intro u label ⟨named, line⟩
  have reports : Reports u
      (Problem.atLine (Issue.undefinedLabel label.name).message label.line) :=
    ⟨⟨label.name, named, rfl⟩, rfl, line.symm, rfl⟩
  exact ⟨reports, reports.isPositionFree_iff⟩

/-- A program whose last two statements name labels that are bound nowhere; one of them has no
line. -/
def stray : Program where
  text := {
    entries := #[⟨.la, [.register .v0, .address { label := some "x" }], some 4⟩,
      ⟨.j, [.address { label := some "main" }], some 5⟩,
      ⟨.b, [.address { label := some "nowhere" }], none⟩,
      ⟨.bnez, [.register .v0, .address { label := some "lost" }], some 7⟩]
    labels := [("main", 0)] }
  data := { entries := #[⟨.word, 4, some (.integer 1), some 2⟩], labels := [("x", 0)] }

theorem link_resolves_stray :
    stray.validate = .ok () ∧ stray.Unplaced ∧ stray.Linked stray.link ∧
      (∃ reported, ({ program := stray } : Result).link.problems = reported ∧
        List.Forall₂ (fun u problem => Reports u problem ∧
          (problem.isPositionFree = true ↔ u.line = none)) stray.link.unresolved reported) ∧
      stray.link.unresolved =
        [⟨{ label := some "nowhere" }, none⟩, ⟨{ label := some "lost" }, some 7⟩] ∧
      stray.link.link = stray.link := by
  have valid : stray.validate = .ok () := by decide +kernel
  have unplaced : stray.Unplaced := by
    unfold Program.Unplaced
    decide +kernel
  obtain ⟨linked, reported, -, again, -⟩ := link_resolves { program := stray } valid unplaced
  exact ⟨valid, unplaced, linked, reported, by decide +kernel, again⟩

end Assembly

end Mips
