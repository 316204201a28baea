import Mips.Program.Link
import Mathlib.Data.List.Basic

/-!
Entries and labels of a program that is built entry by entry. A program is well labelled when each
of its labels names an entry that exists and no name is bound in both segments. New entries keep a
program well labelled whatever names are asked for, and this is exactly what the validation
looks at.
-/
namespace Mips

namespace Segment

variable {Entry : Type}

theorem hasLabel_iff (s : Segment Entry) (name : String) :
    s.hasLabel name = true ↔ ∃ label ∈ s.labels, label.1 = name := by
  simp only [hasLabel, labelIndex?, List.lookup_isSome_iff, beq_iff_eq]
  exact exists_congr fun label => and_congr_right fun _ => eq_comm

theorem mem_labels_of_labelIndex? {s : Segment Entry} {name : String} {index : Nat}
    (h : s.labelIndex? name = some index) : (name, index) ∈ s.labels := by
  obtain ⟨before, after, split, -⟩ := List.lookup_eq_some_iff.mp h
  rw [split]
  simp

theorem size_push (s : Segment Entry) (entry : Entry) (names : List String) :
    (s.push entry names).size = s.size + 1 :=
  Array.size_push entry

theorem toList_entries_push (s : Segment Entry) (entry : Entry) (names : List String) :
    (s.push entry names).entries.toList = s.entries.toList ++ [entry] :=
  Array.toList_push

theorem mem_labels_push {s : Segment Entry} {entry : Entry} {names : List String}
    {label : String × Nat} :
    label ∈ (s.push entry names).labels ↔
      label ∈ s.labels ∨ label.1 ∈ names ∧ label.2 = s.size := by
  obtain ⟨name, index⟩ := label
  simp only [push, List.mem_append, List.mem_map, Prod.mk.injEq]
  constructor
  · intro h
    obtain h | ⟨found, member, rfl, rfl⟩ := h
    · exact .inl h
    · exact .inr ⟨member, rfl⟩
  · intro h
    obtain h | ⟨member, rfl⟩ := h
    · exact .inl h
    · exact .inr ⟨name, member, rfl, rfl⟩

theorem hasLabel_push (s : Segment Entry) (entry : Entry) (names : List String) (name : String) :
    (s.push entry names).hasLabel name = true ↔ s.hasLabel name = true ∨ name ∈ names := by
  simp only [hasLabel_iff, mem_labels_push]
  constructor
  · intro ⟨label, member, named⟩
    obtain old | ⟨member, -⟩ := member
    · exact .inl ⟨label, old, named⟩
    · exact .inr (named ▸ member)
  · intro h
    obtain ⟨label, old, named⟩ | member := h
    · exact ⟨label, .inl old, named⟩
    · exact ⟨(name, s.size), .inr ⟨member, rfl⟩, rfl⟩

/-- New labels stand for the new entry, unless they were bound before. -/
theorem labelIndex?_push (s : Segment Entry) (entry : Entry) (names : List String)
    (name : String) :
    (s.push entry names).labelIndex? name =
      (s.labelIndex? name).or (if name ∈ names then some s.size else none) := by
  have added : (names.map fun name => (name, s.size)).lookup name =
      if name ∈ names then some s.size else none := by
    induction names with
    | nil => rfl
    | cons other rest ih =>
        rw [List.map_cons, List.lookup_cons, ih]
        by_cases same : name = other
        · simp [same]
        · simp [same, beq_false_of_ne same]
  rw [labelIndex?, push, List.lookup_append, added]
  rfl

theorem danglingLabel?_eq_none_iff (s : Segment Entry) :
    s.danglingLabel? = none ↔ ∀ label ∈ s.labels, label.2 < s.size := by
  simp [danglingLabel?]

end Segment

namespace Entry

def text? : Entry → Option Statement
  | .statement s => some s
  | .variable _ => none

def data? : Entry → Option Variable
  | .statement _ => none
  | .variable v => some v

end Entry

/-- The entry of a program that a target stands for exists. -/
def Target.IsIn (p : Program) : Target → Prop
  | .text index => index < p.text.size
  | .data index => index < p.data.size

namespace Program

structure WellLabelled (p : Program) : Prop where
  text : ∀ label ∈ p.text.labels, label.2 < p.text.size
  data : ∀ label ∈ p.data.labels, label.2 < p.data.size
  exclusive : ∀ name, p.text.hasLabel name = true → p.data.hasLabel name = false

theorem hasLabel_iff (p : Program) (name : String) :
    p.hasLabel name = true ↔ p.text.hasLabel name = true ∨ p.data.hasLabel name = true := by
  simp [hasLabel]

theorem isSome_resolveLabel? (p : Program) (name : String) :
    (p.resolveLabel? name).isSome = p.hasLabel name := by
  simp [resolveLabel?, hasLabel, Segment.hasLabel]

theorem mem_freshNames {p : Program} {names : List String} {name : String} :
    name ∈ p.freshNames names ↔ name ∈ names ∧ p.hasLabel name = false := by
  simp [freshNames]

theorem text_push (p : Program) (entry : Entry) (names : List String) :
    (p.push entry names).text.entries.toList = p.text.entries.toList ++ entry.text?.toList := by
  match entry with
  | .statement s => exact Segment.toList_entries_push p.text s (p.freshNames names)
  | .variable v => exact (List.append_nil _).symm

theorem data_push (p : Program) (entry : Entry) (names : List String) :
    (p.push entry names).data.entries.toList = p.data.entries.toList ++ entry.data?.toList := by
  match entry with
  | .statement s => exact (List.append_nil _).symm
  | .variable v => exact Segment.toList_entries_push p.data v (p.freshNames names)

/-- Every name that is asked for is bound afterwards, in this segment or where it was before. -/
theorem hasLabel_push (p : Program) (entry : Entry) (names : List String) (name : String) :
    (p.push entry names).hasLabel name = true ↔ p.hasLabel name = true ∨ name ∈ names := by
  cases bound : p.hasLabel name with
  | true =>
      match entry with
      | .statement s | .variable v =>
          have old := (hasLabel_iff p name).mp bound
          simp only [push, pushStatement, pushVariable, hasLabel_iff, Segment.hasLabel_push,
            true_or, iff_true]
          tauto
  | false =>
      have unbound : p.text.hasLabel name = false ∧ p.data.hasLabel name = false := by
        simpa [hasLabel] using bound
      match entry with
      | .statement s | .variable v =>
          simp [push, pushStatement, pushVariable, hasLabel_iff, Segment.hasLabel_push,
            mem_freshNames, bound, unbound]

/-- What stands for an entry that comes next. -/
def next (p : Program) : Entry → Target
  | .statement _ => .text p.text.size
  | .variable _ => .data p.data.size

/-- A name that is bound keeps its entry; any other that is asked for gets the new one. -/
theorem resolveLabel?_push (p : Program) (entry : Entry) (names : List String) (name : String) :
    (p.push entry names).resolveLabel? name =
      (p.resolveLabel? name).or (if name ∈ names then some (p.next entry) else none) := by
  have fresh : name ∈ p.freshNames names ↔ name ∈ names ∧ p.hasLabel name = false :=
    mem_freshNames
  cases bound : p.hasLabel name with
  | true =>
      obtain ⟨target, resolved⟩ :=
        Option.isSome_iff_exists.mp ((isSome_resolveLabel? p name).trans bound)
      rw [resolved, Option.some_or, ← resolved]
      match entry with
      | .statement s | .variable v =>
          simp [push, pushStatement, pushVariable, resolveLabel?, Segment.labelIndex?_push, fresh,
            bound]
  | false =>
      have unresolved : p.resolveLabel? name = none := by
        rw [← Option.isNone_iff_eq_none, ← Option.not_isSome, isSome_resolveLabel?, bound]
        rfl
      obtain ⟨text, data⟩ : p.text.labelIndex? name = none ∧ p.data.labelIndex? name = none := by
        simpa [resolveLabel?] using unresolved
      match entry with
      | .statement s | .variable v =>
          by_cases asked : name ∈ names <;>
            simp [push, pushStatement, pushVariable, resolveLabel?, Segment.labelIndex?_push,
              fresh, bound, text, data, asked, next]

theorem wellLabelled_empty : WellLabelled {} :=
  ⟨by simp, by simp, by simp [Segment.hasLabel_iff]⟩

theorem WellLabelled.push {p : Program} (h : p.WellLabelled) (entry : Entry)
    (names : List String) : (p.push entry names).WellLabelled := by
  match entry with
  | .statement s =>
      refine ⟨?_, h.data, ?_⟩
      · intro label member
        simp only [Program.push, pushStatement, Segment.mem_labels_push,
          Segment.size_push] at member ⊢
        obtain old | ⟨-, index⟩ := member
        · have inside := h.text label old
          omega
        · omega
      · intro name bound
        simp only [Program.push, pushStatement, Segment.hasLabel_push, mem_freshNames] at bound ⊢
        obtain old | ⟨-, fresh⟩ := bound
        · exact h.exclusive name old
        · exact (Bool.or_eq_false_iff.mp fresh).2
  | .variable v =>
      refine ⟨h.text, ?_, ?_⟩
      · intro label member
        simp only [Program.push, pushVariable, Segment.mem_labels_push,
          Segment.size_push] at member ⊢
        obtain old | ⟨-, index⟩ := member
        · have inside := h.data label old
          omega
        · omega
      · intro name bound
        simp only [Program.push, pushVariable] at bound ⊢
        have other := h.exclusive name bound
        rw [Bool.eq_false_iff, ne_eq, Segment.hasLabel_push, mem_freshNames]
        simp [hasLabel, bound, other]

theorem labelIndex?_text_iff (p : Program) (name : String) (index : Nat) :
    p.text.labelIndex? name = some index ↔ p.resolveLabel? name = some (.text index) := by
  cases bound : p.text.labelIndex? name <;> simp [resolveLabel?, bound]

theorem WellLabelled.labelIndex?_data_iff {p : Program} (h : p.WellLabelled) (name : String)
    (index : Nat) :
    p.data.labelIndex? name = some index ↔ p.resolveLabel? name = some (.data index) := by
  cases bound : p.text.labelIndex? name with
  | none => simp [resolveLabel?, bound]
  | some other =>
      have elsewhere : p.data.hasLabel name = false :=
        h.exclusive name (by simp [Segment.hasLabel, bound])
      have unbound : p.data.labelIndex? name = none := by
        simpa [Segment.hasLabel] using elsewhere
      simp [resolveLabel?, bound, unbound]

/-- Validation accepts exactly the programs that are well labelled. -/
theorem validate_eq_ok_iff (p : Program) : p.validate = .ok () ↔ p.WellLabelled := by
  constructor
  · intro h
    simp only [validate] at h
    split at h <;> try contradiction
    next text data =>
      split at h <;> try contradiction
      next shared =>
        refine ⟨(Segment.danglingLabel?_eq_none_iff _).mp text,
          (Segment.danglingLabel?_eq_none_iff _).mp data, ?_⟩
        intro name bound
        obtain ⟨label, member, rfl⟩ := (Segment.hasLabel_iff _ _).mp bound
        simpa using List.find?_eq_none.mp shared label member
  · intro h
    have text := (Segment.danglingLabel?_eq_none_iff _).mpr h.text
    have data := (Segment.danglingLabel?_eq_none_iff _).mpr h.data
    have shared : (p.text.labels.find? fun label => p.data.hasLabel label.1) = none := by
      rw [List.find?_eq_none]
      intro label member
      simpa using h.exclusive label.1 ((Segment.hasLabel_iff _ _).mpr ⟨label, member, rfl⟩)
    simp only [validate, text, data, shared]

theorem size_text_link (p : Program) : p.link.text.size = p.text.size :=
  Array.size_map

theorem WellLabelled.link {p : Program} (h : p.WellLabelled) : p.link.WellLabelled := by
  refine ⟨?_, h.data, h.exclusive⟩
  rw [size_text_link]
  exact h.text

/-- A label that has a place has one that exists. -/
theorem WellLabelled.isIn_of_place? {p : Program} (h : p.WellLabelled) {name : String}
    {target : Target} (found : p.place? name = some target) : target.IsIn p := by
  simp only [place?, Option.or_eq_some_iff, Option.map_eq_some_iff] at found
  obtain ⟨index, bound, rfl⟩ | ⟨-, index, bound, rfl⟩ := found
  · exact h.data _ (Segment.mem_labels_of_labelIndex? bound)
  · exact h.text _ (Segment.mem_labels_of_labelIndex? bound)

end Program

end Mips
