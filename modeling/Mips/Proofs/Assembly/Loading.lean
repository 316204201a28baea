import Mips.Proofs.Assembly.Entries
import Mips.Proofs.Assembly.Soundness
import Mips.Proofs.Machine.Image
import Mips.Proofs.Source.Tiling

/-!
Loading an assembled program. Its variables are declared by directives, so that a plan for them can
fail for one reason only. A plan that is made can be loaded if the data end before the addresses do;
if they do not, the first variable beyond the last address gets a small address instead, which is
not in memory, and the machine does not start.
-/
namespace Mips

namespace Machine

namespace Layout

/-- The variables of a program with the offsets at which they are planned. -/
def placements (l : Layout) (p : Program) : List Placement :=
  l.dataOffsets.toList.zip p.data.entries.toList

/-- Loading under a plan fails at the first variable that is beyond the last address, if there is
one. -/
theorem fst_load_of_plan {p : Program} {c : Config} {l : Layout} (planned : plan p c = .ok l)
    (declared : ∀ v ∈ p.data.entries.toList, v.Declared) :
    (l.load p (Memory.fresh c)).1 =
      match (l.placements p).find? (Placement.isBeyond c.dataBase) with
      | none => .ok ()
      | some x => .error (.memoryOutOfRange (x.address c.dataBase) x.2.size) := by
  obtain ⟨placed, entries, offsets, packed, fits, base⟩ := packed_of_plan planned
  have same : l.placements p = placed := by
    rw [placements, offsets, ← entries, List.zip_map']
    exact List.map_id' placed
  have each : ∀ x ∈ placed, x.2.Declared := by
    intro x member
    exact declared x.2 (entries ▸ List.mem_map_of_mem member)
  rw [load_eq_loadAt _ entries offsets, same, base]
  exact fst_loadAt (m := Memory.fresh c) each fun x member => (packed.stop_le x member).trans fits

/-- If the data end before the addresses do, no variable is beyond the last one. -/
theorem isBeyond_of_plan {p : Program} {c : Config} {l : Layout} (planned : plan p c = .ok l)
    (low : c.dataBase.toNat + l.dataSize ≤ 0x100000000) :
    ∀ x ∈ l.placements p, x.isBeyond c.dataBase = false := by
  obtain ⟨placed, entries, offsets, packed, -, -⟩ := packed_of_plan planned
  intro x member
  rw [placements, offsets, ← entries, List.zip_map', List.map_id'] at member
  have last := packed.stop_le x member
  exact Placement.isBeyond_of_stop_le (by omega)

end Layout

namespace State

/-- A valid program starts if and only if it is planned and its data are loaded. -/
theorem load_of_plan {p : Program} {c : Config} {l : Layout} (valid : p.validate = .ok ())
    (planned : Layout.plan p c = .ok l) :
    match (l.load p (Memory.fresh c)).1 with
    | .ok () => ∃ s, load p c = .ok s
    | .error fault => load p c = .error fault := by
  rw [load, valid]
  simp only [planned, Memory.fresh]
  rcases l.load p { base := c.dataBase, size := c.memorySize } with ⟨result, memory⟩
  cases result with
  | ok _ => exact ⟨_, rfl⟩
  | error fault => rfl

theorem load_of_plan_error {p : Program} {c : Config} {fault : Fault} (valid : p.validate = .ok ())
    (failed : Layout.plan p c = .error fault) : load p c = .error fault := by
  rw [load, valid]
  simp only [failed]

end State

end Machine

namespace Assembly

open Source Machine Machine.Layout

theorem declared_of_mem_numbers {kind : VariableKind} {width : Nat} {operands : List Operand}
    {line : Option Nat} {v : Variable} (member : v ∈ numbers kind width operands line) :
    ∃ value, v = ⟨kind, width, some (.integer value), line⟩ := by
  obtain ⟨value, -, rfl⟩ := List.mem_map.mp member
  exact ⟨value, rfl⟩

theorem declared_of_mem_vars {directive : Directive} {operands : List Operand} {line : Option Nat}
    {v : Variable} (member : v ∈ vars directive operands line) : v.Declared ∧ v.line = line := by
  unfold vars at member
  split at member
  · obtain rfl := List.mem_singleton.mp member
    exact ⟨.ascii _ _, rfl⟩
  · obtain rfl := List.mem_singleton.mp member
    exact ⟨.asciiz _ _, rfl⟩
  · split at member
    · obtain rfl := List.mem_singleton.mp member
      exact ⟨.space _ _, rfl⟩
    · cases member
  · obtain ⟨value, rfl⟩ := declared_of_mem_numbers member
    exact ⟨.byte value line, rfl⟩
  · obtain ⟨value, rfl⟩ := declared_of_mem_numbers member
    exact ⟨.half value line, rfl⟩
  · obtain ⟨value, rfl⟩ := declared_of_mem_numbers member
    exact ⟨.word value line, rfl⟩
  · cases member

theorem Placed.declared_of_mem_vars {p : Placed} {v : Variable} (member : v ∈ p.vars) :
    v.Declared ∧ v.line = p.item.span?.map Span.line := by
  obtain ⟨segment, item⟩ := p
  cases item with
  | directive node =>
      simp only [Placed.vars] at member
      split at member
      · cases named : Directive.ofName? node.name with
        | none =>
            rw [named] at member
            cases member
        | some directive =>
            rw [named] at member
            exact Assembly.declared_of_mem_vars member
      · cases member
  | marker _ | label _ | statement _ | unknown _ => cases member

/-- The data of an assembled program are what its items declare. -/
theorem declared_assemble (source : String) :
    ∀ v ∈ (assemble source).program.data.entries.toList, v.Declared := by
  intro v member
  obtain ⟨-, -, data⟩ := Draft.entries_foldl [] (items source) {} rfl
  have member : v ∈ ((items source).foldl Draft.enter {}).program.data.entries.toList := member
  rw [data, Array.toList_empty, List.nil_append] at member
  obtain ⟨placed, -, declared⟩ := List.mem_flatMap.mp member
  exact (placed.declared_of_mem_vars declared).1

/-- A machine for an assembled program is refused for two reasons only: the data are too large, or
they are planned across the last address and something has to be written beyond it. -/
theorem load_assembled (source : String) (c : Config) :
    (∀ fault, plan (assemble source).program c = .error fault →
      State.load (assemble source).program c = .error fault ∧
        ∃ required, fault = .dataSegmentTooLarge required c.memorySize.toNat) ∧
      ∀ l, plan (assemble source).program c = .ok l →
        ((l.load (assemble source).program (Memory.fresh c)).1 = .ok () ↔
          ∀ x ∈ l.placements (assemble source).program, x.isBeyond c.dataBase = false) ∧
        ((∃ s, State.load (assemble source).program c = .ok s) ↔
          ∀ x ∈ l.placements (assemble source).program, x.isBeyond c.dataBase = false) ∧
        (∀ fault, State.load (assemble source).program c = .error fault →
          ∃ x, (l.placements (assemble source).program).find? (Placement.isBeyond c.dataBase) =
            some x ∧ fault = .memoryOutOfRange (x.address c.dataBase) x.2.size) ∧
        (c.dataBase.toNat + l.dataSize ≤ 0x100000000 →
          (l.load (assemble source).program (Memory.fresh c)).1 = .ok () ∧
            ∃ s, State.load (assemble source).program c = .ok s) := by
  have valid := (Program.validate_eq_ok_iff _).mpr (wellLabelled_assemble source)
  generalize entered : (assemble source).program = p at valid
  have declared : ∀ v ∈ p.data.entries.toList, v.Declared := entered ▸ declared_assemble source
  refine ⟨fun fault failed => ⟨State.load_of_plan_error valid failed, plan_error failed⟩, ?_⟩
  intro l planned
  have loaded := fst_load_of_plan planned declared
  have started := State.load_of_plan valid planned
  have low := isBeyond_of_plan planned
  cases first : (l.placements p).find? (Placement.isBeyond c.dataBase) with
  | none =>
      rw [first] at loaded
      rw [loaded] at started
      have below : ∀ x ∈ l.placements p, x.isBeyond c.dataBase = false := by
        simpa using List.find?_eq_none.mp first
      refine ⟨iff_of_true loaded below, iff_of_true started below, ?_, fun _ => ⟨loaded, started⟩⟩
      intro fault failed
      obtain ⟨s, started⟩ := started
      rw [started] at failed
      contradiction
  | some x =>
      rw [first] at loaded
      rw [loaded] at started
      have beyond : ¬∀ x ∈ l.placements p, x.isBeyond c.dataBase = false := by
        intro below
        have here := below x (List.mem_of_find?_eq_some first)
        rw [List.find?_some first] at here
        contradiction
      refine ⟨iff_of_false (by simp [loaded]) beyond, iff_of_false ?_ beyond, ?_,
        fun fits => absurd (low fits) beyond⟩
      · intro ⟨s, other⟩
        rw [started] at other
        contradiction
      · intro fault failed
        rw [started] at failed
        exact ⟨x, rfl, (Except.error.inj failed).symm⟩

/-- Two bytes of data. -/
def twoBytes : String :=
  ".data\n.byte 1, 2\n.text\nmain: nop\n"

/-- A memory of two bytes, of which the first one has the last address. -/
def acrossLastAddress : Config where
  memorySize := 2
  dataBase := 0xFFFFFFFF

/-- The second byte gets the address zero, although the program is planned and free of problems. -/
theorem load_twoBytes_fails :
    (assemble twoBytes).problems = [] ∧
      (∃ l, plan (assemble twoBytes).program acrossLastAddress = .ok l ∧
        (l.load (assemble twoBytes).program (Memory.fresh acrossLastAddress)).1 =
          .error (.memoryOutOfRange 0 1)) ∧
      State.load (assemble twoBytes).program acrossLastAddress =
        .error (.memoryOutOfRange 0 1) := by
  have fails : (plan (assemble twoBytes).program acrossLastAddress).toOption.map (fun l =>
      (l.load (assemble twoBytes).program (Memory.fresh acrossLastAddress)).1) =
        some (.error (.memoryOutOfRange 0 1)) := by
    decide +kernel
  have valid := (Program.validate_eq_ok_iff _).mpr (wellLabelled_assemble twoBytes)
  cases planned : plan (assemble twoBytes).program acrossLastAddress with
  | error fault =>
      rw [planned] at fails
      contradiction
  | ok l =>
      rw [planned] at fails
      have loaded : (l.load (assemble twoBytes).program (Memory.fresh acrossLastAddress)).1 =
          .error (.memoryOutOfRange 0 1) := Option.some.inj fails
      have started := State.load_of_plan valid planned
      rw [loaded] at started
      exact ⟨by decide +kernel, ⟨l, rfl, loaded⟩, started⟩

end Assembly

end Mips
