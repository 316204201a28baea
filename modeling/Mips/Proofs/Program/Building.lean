import Mips.Proofs.Machine.Loading
import Mips.Proofs.Program.Labels
import Mathlib.Data.List.Induction
import Mathlib.Data.List.Nodup

/-!
Programs that are built push by push. Whatever names are asked for, a name is bound once, to the
entry of the push that first asks for it, and stays bound to it; so the labels of a program that is
built in this way are always valid.
-/
namespace Mips

/-- An entry, and the names that are asked for it. -/
abbrev Push : Type :=
  Entry × List String

namespace Push

/-- The push that first asks for a name has this entry, and comes after these. -/
structure IsFirst (name : String) (pushes before : List Push) (entry : Entry) : Prop where
  asks : ∃ names later, pushes = before ++ (entry, names) :: later ∧ name ∈ names
  earliest : ∀ push ∈ before, name ∉ push.2

def text (pushes : List Push) : List Statement :=
  pushes.filterMap fun push => push.1.text?

def data (pushes : List Push) : List Variable :=
  pushes.filterMap fun push => push.1.data?

variable {name : String} {pushes before : List Push} {push : Push} {entry : Entry}

theorem text_cons : text (push :: pushes) = push.1.text?.toList ++ text pushes := by
  rw [text, List.filterMap_cons]
  cases push.1.text? <;> rfl

theorem data_cons : data (push :: pushes) = push.1.data?.toList ++ data pushes := by
  rw [data, List.filterMap_cons]
  cases push.1.data? <;> rfl

theorem isFirst_nil : ¬IsFirst name [] before entry := by
  intro first
  obtain ⟨names, later, split, -⟩ := first.asks
  simp at split

/-- One more push is the first for the names that no push before it asks for. -/
theorem isFirst_concat :
    IsFirst name (pushes ++ [push]) before entry ↔
      IsFirst name pushes before entry ∨ before = pushes ∧ entry = push.1 ∧ name ∈ push.2 ∧
        ∀ earlier ∈ pushes, name ∉ earlier.2 := by
  constructor
  · intro ⟨⟨names, later, split, asked⟩, earliest⟩
    cases later using List.reverseRecOn with
    | nil =>
        obtain ⟨rfl, same⟩ := List.append_inj' split rfl
        obtain rfl := List.singleton_inj.mp same
        exact .inr ⟨rfl, rfl, asked, earliest⟩
    | append_singleton later last =>
        rw [← List.cons_append, ← List.append_assoc] at split
        obtain ⟨split, -⟩ := List.append_inj' split rfl
        exact .inl ⟨⟨names, later, split, asked⟩, earliest⟩
  · intro h
    obtain ⟨⟨names, later, rfl, asked⟩, earliest⟩ | ⟨rfl, rfl, asked, earliest⟩ := h
    · exact ⟨⟨names, later ++ [push], by simp, asked⟩, earliest⟩
    · exact ⟨⟨push.2, [], rfl, asked⟩, earliest⟩

end Push

theorem nodup_eraseDups (names : List String) : names.eraseDups.Nodup := by
  induction names using List.reverseRecOn with
  | nil => exact List.nodup_nil
  | append_singleton names name ih =>
      rw [List.eraseDups_append]
      by_cases known : name ∈ names
      · simpa [List.removeAll, known] using ih
      · have fresh : ∀ other ∈ names.eraseDups, other ≠ name := by
          intro other member same
          exact known (List.mem_eraseDups.mp (same ▸ member))
        simpa [List.removeAll, known, List.eraseDups_cons, List.nodup_append, ih] using fresh

namespace Segment

variable {Entry : Type} (s : Segment Entry) (entry : Entry) (names : List String)

theorem names_push : (s.push entry names).labels.map Prod.fst = s.labels.map Prod.fst ++ names := by
  simp [push, Function.comp_def]

theorem labelIndex?_push_of_bound {name : String} {index : Nat}
    (bound : s.labelIndex? name = some index) :
    (s.push entry names).labelIndex? name = some index := by
  rw [labelIndex?_push, bound, Option.some_or]

end Segment

namespace Program

open Push

/-- The names that are bound in either segment, as often as they are bound. -/
def names (p : Program) : List String :=
  p.text.labels.map Prod.fst ++ p.data.labels.map Prod.fst

theorem mem_names {p : Program} {name : String} : name ∈ p.names ↔ p.hasLabel name = true := by
  simp [names, hasLabel_iff, Segment.hasLabel_iff]

theorem nodup_names_push {p : Program} (h : p.names.Nodup) (entry : Entry) (asked : List String) :
    (p.push entry asked).names.Nodup := by
  have added : (p.freshNames asked).Nodup := (nodup_eraseDups asked).filter _
  have apart : ∀ name ∈ p.names, name ∉ p.freshNames asked := by
    intro name bound fresh
    rw [mem_names, (mem_freshNames.mp fresh).2] at bound
    contradiction
  have all : (p.names ++ p.freshNames asked).Nodup := by
    refine List.nodup_append.mpr ⟨h, added, ?_⟩
    intro name bound other fresh same
    exact apart name bound (same ▸ fresh)
  match entry with
  | .statement s =>
      have moved : (p.data.labels.map Prod.fst ++ p.freshNames asked).Perm
          (p.freshNames asked ++ p.data.labels.map Prod.fst) := List.perm_append_comm
      rw [push, pushStatement, names, Segment.names_push, List.append_assoc]
      rw [names, List.append_assoc] at all
      exact (moved.append_left _).nodup_iff.mp all
  | .variable v =>
      rw [push, pushVariable, names, Segment.names_push, ← List.append_assoc]
      exact all

/-- What an earlier program has, a later one still has. -/
structure Keeps (p q : Program) : Prop where
  text : p.text.entries.toList <+: q.text.entries.toList
  data : p.data.entries.toList <+: q.data.entries.toList
  textLabels : ∀ name index, p.text.labelIndex? name = some index →
    q.text.labelIndex? name = some index
  dataLabels : ∀ name index, p.data.labelIndex? name = some index →
    q.data.labelIndex? name = some index

theorem Keeps.refl (p : Program) : Keeps p p :=
  ⟨List.prefix_rfl, List.prefix_rfl, fun _ _ bound => bound, fun _ _ bound => bound⟩

theorem Keeps.trans {p q r : Program} (h : Keeps p q) (k : Keeps q r) : Keeps p r where
  text := h.text.trans k.text
  data := h.data.trans k.data
  textLabels := fun name index bound => k.textLabels name index (h.textLabels name index bound)
  dataLabels := fun name index bound => k.dataLabels name index (h.dataLabels name index bound)

theorem keeps_push (p : Program) (entry : Entry) (asked : List String) :
    Keeps p (p.push entry asked) := by
  refine ⟨text_push p entry asked ▸ List.prefix_append _ _,
    data_push p entry asked ▸ List.prefix_append _ _, ?_, ?_⟩
  · intro name index bound
    match entry with
    | .statement s => exact p.text.labelIndex?_push_of_bound s _ bound
    | .variable v => exact bound
  · intro name index bound
    match entry with
    | .statement s => exact bound
    | .variable v => exact p.data.labelIndex?_push_of_bound v _ bound

def pushAll (p : Program) (pushes : List Push) : Program :=
  pushes.foldl (fun p push => p.push push.1 push.2) p

theorem pushAll_concat (p : Program) (pushes : List Push) (push : Push) :
    p.pushAll (pushes ++ [push]) = (p.pushAll pushes).push push.1 push.2 :=
  List.foldl_concat ..

theorem keeps_pushAll (p : Program) (pushes : List Push) : Keeps p (p.pushAll pushes) := by
  induction pushes generalizing p with
  | nil => exact .refl p
  | cons push rest ih => exact (keeps_push p push.1 push.2).trans (ih _)

theorem WellLabelled.pushAll {p : Program} (h : p.WellLabelled) (pushes : List Push) :
    (p.pushAll pushes).WellLabelled := by
  induction pushes generalizing p with
  | nil => exact h
  | cons push rest ih => exact ih (h.push push.1 push.2)

theorem text_pushAll (p : Program) (pushes : List Push) :
    (p.pushAll pushes).text.entries.toList = p.text.entries.toList ++ Push.text pushes := by
  induction pushes generalizing p with
  | nil => exact (List.append_nil _).symm
  | cons push rest ih =>
      have later := ih (p.push push.1 push.2)
      rwa [text_push, List.append_assoc, ← text_cons] at later

theorem data_pushAll (p : Program) (pushes : List Push) :
    (p.pushAll pushes).data.entries.toList = p.data.entries.toList ++ Push.data pushes := by
  induction pushes generalizing p with
  | nil => exact (List.append_nil _).symm
  | cons push rest ih =>
      have later := ih (p.push push.1 push.2)
      rwa [data_push, List.append_assoc, ← data_cons] at later

theorem hasLabel_pushAll (pushes : List Push) (name : String) :
    (pushAll {} pushes).hasLabel name = true ↔ ∃ push ∈ pushes, name ∈ push.2 := by
  induction pushes using List.reverseRecOn with
  | nil => simp [pushAll, hasLabel_iff, Segment.hasLabel_iff]
  | append_singleton pushes push ih =>
      simp [pushAll_concat, hasLabel_push, ih, or_and_right, exists_or]

/-- A name stands for the entry of the first push that asks for it. -/
theorem resolveLabel?_pushAll (pushes : List Push) (name : String) (target : Target) :
    (pushAll {} pushes).resolveLabel? name = some target ↔
      ∃ before entry, IsFirst name pushes before entry ∧
        target = (pushAll {} before).next entry := by
  induction pushes using List.reverseRecOn with
  | nil => simp [pushAll, resolveLabel?, Segment.labelIndex?, isFirst_nil]
  | append_singleton pushes push ih =>
      have unbound : (pushAll {} pushes).resolveLabel? name = none ↔
          ∀ earlier ∈ pushes, name ∉ earlier.2 := by
        rw [← Option.not_isSome_iff_eq_none, isSome_resolveLabel?, hasLabel_pushAll]
        simp
      rw [pushAll_concat, resolveLabel?_push, Option.or_eq_some_iff, ih, unbound]
      simp only [isFirst_concat]
      constructor
      · intro h
        obtain ⟨before, entry, first, rfl⟩ | ⟨new, bound⟩ := h
        · exact ⟨before, entry, .inl first, rfl⟩
        · obtain ⟨asked, same⟩ := Option.ite_none_right_eq_some.mp bound
          exact ⟨pushes, push.1, .inr ⟨rfl, rfl, asked, new⟩, (Option.some.inj same).symm⟩
      · rintro ⟨before, entry, h, same⟩
        obtain first | ⟨rfl, rfl, asked, new⟩ := h
        · exact .inl ⟨before, entry, first, same⟩
        · exact .inr ⟨new, by rw [if_pos asked, same]⟩

/-- A program that some pushes have built: their entries in order, and each name that is asked for
bound once, to the entry of the push that first asks for it. -/
structure BuiltBy (p : Program) (pushes : List Push) : Prop where
  text : p.text.entries.toList = Push.text pushes
  data : p.data.entries.toList = Push.data pushes
  once : p.names.Nodup
  textLabels : ∀ name index, p.text.labelIndex? name = some index ↔
    ∃ before s, IsFirst name pushes before (.statement s) ∧ index = (Push.text before).length
  dataLabels : ∀ name index, p.data.labelIndex? name = some index ↔
    ∃ before v, IsFirst name pushes before (.variable v) ∧ index = (Push.data before).length

theorem nodup_names_pushAll {p : Program} (h : p.names.Nodup) (pushes : List Push) :
    (p.pushAll pushes).names.Nodup := by
  induction pushes generalizing p with
  | nil => exact h
  | cons push rest ih => exact ih (nodup_names_push h push.1 push.2)

theorem next_pushAll (pushes : List Push) (entry : Entry) :
    (pushAll {} pushes).next entry = match entry with
      | .statement _ => .text (Push.text pushes).length
      | .variable _ => .data (Push.data pushes).length := by
  match entry with
  | .statement _ => exact congrArg (Target.text ·.length) (text_pushAll {} pushes)
  | .variable _ => exact congrArg (Target.data ·.length) (data_pushAll {} pushes)

theorem builtBy_pushAll (pushes : List Push) : (pushAll {} pushes).BuiltBy pushes where
  text := text_pushAll {} pushes
  data := data_pushAll {} pushes
  once := nodup_names_pushAll (p := {}) List.nodup_nil pushes
  textLabels := by
    intro name index
    rw [labelIndex?_text_iff, resolveLabel?_pushAll]
    constructor
    · intro ⟨before, entry, first, same⟩
      match entry with
      | .statement s => exact ⟨before, s, first, by simpa [next_pushAll] using same⟩
      | .variable v => simp [next_pushAll] at same
    · intro ⟨before, s, first, same⟩
      exact ⟨before, .statement s, first, by rw [next_pushAll, same]⟩
  dataLabels := by
    intro name index
    rw [(wellLabelled_empty.pushAll pushes).labelIndex?_data_iff, resolveLabel?_pushAll]
    constructor
    · intro ⟨before, entry, first, same⟩
      match entry with
      | .statement s => simp [next_pushAll] at same
      | .variable v => exact ⟨before, v, first, by simpa [next_pushAll] using same⟩
    · intro ⟨before, v, first, same⟩
      exact ⟨before, .variable v, first, by rw [next_pushAll, same]⟩

/-- What is built by pushes alone is valid, and binds each name to the first entry that was pushed
with it; whatever a program is, later pushes take nothing from it. Validation accepts exactly the
programs whose labels all name entries, each in one segment, and only what it refuses is refused by
the machine as invalid. -/
theorem pushes_validate :
    (∀ pushes, (pushAll {} pushes).validate = .ok () ∧ (pushAll {} pushes).BuiltBy pushes) ∧
      ∀ p : Program, (∀ later, p.Keeps (p.pushAll later)) ∧
        (p.validate = .ok () ↔ p.WellLabelled) ∧
        ∀ c e, Machine.State.load p c = .error (.invalidProgram e) ↔ p.validate = .error e := by
  refine ⟨?_, ?_⟩
  · intro pushes
    exact ⟨(validate_eq_ok_iff _).mpr (wellLabelled_empty.pushAll pushes), builtBy_pushAll pushes⟩
  · intro p
    exact ⟨keeps_pushAll p, validate_eq_ok_iff p,
      fun _ _ => Machine.State.load_eq_invalidProgram_iff⟩

end Program

end Mips
