import Mips.Machine.Layout
import Mathlib.Order.Bounds.Basic

/-!
Packing. Variables stand in order, each at the least multiple of its alignment that is not below the
end of the one before it. There is one way to do this, planning finds it, and planning fails exactly
if the end of the last variable is beyond memory.
-/
namespace Mips

theorem VariableKind.alignment_pos (kind : VariableKind) : 0 < kind.alignment := by
  cases kind <;> decide

namespace Machine.Layout

/-- A variable and its offset from the first data byte. -/
abbrev Placement := Nat × Variable

/-- The offset after the last byte of a placed variable. -/
def Placement.stop (x : Placement) : Nat :=
  x.1 + x.2.size

/-- Variables that are packed from a position on, and where the last one ends. -/
inductive Packed : Nat → List Placement → Nat → Prop
  | nil (position : Nat) : Packed position [] position
  | cons {position stop : Nat} {x : Placement} {rest : List Placement}
      (least : IsLeast {offset | x.2.kind.alignment ∣ offset ∧ position ≤ offset} x.1)
      (more : Packed x.stop rest stop) : Packed position (x :: rest) stop

theorem isLeast_alignUp (position : Nat) {alignment : Nat} (positive : 0 < alignment) :
    IsLeast {offset | alignment ∣ offset ∧ position ≤ offset} (alignUp position alignment) := by
  have quotient := Nat.div_add_mod (position + alignment - 1) alignment
  have remainder := Nat.mod_lt (position + alignment - 1) positive
  rw [Nat.mul_comm] at quotient
  refine ⟨⟨⟨_, Nat.mul_comm _ _⟩, ?_⟩, ?_⟩
  · rw [alignUp]
    omega
  · rintro offset ⟨⟨count, rfl⟩, above⟩
    -- The next multiple below would have to be below the position too.
    have fits : (position + alignment - 1) / alignment ≤ count := by
      rw [Nat.div_le_iff_le_mul positive]
      rw [Nat.mul_comm]
      omega
    rw [alignUp, Nat.mul_comm alignment]
    exact Nat.mul_le_mul_right alignment fits

namespace Packed

variable {position stop : Nat} {placed : List Placement}

theorem le (h : Packed position placed stop) : position ≤ stop := by
  induction h with
  | nil position => exact Nat.le_refl position
  | cons least _ ih => exact (least.1.2.trans (Nat.le_add_right _ _)).trans ih

theorem position_le (h : Packed position placed stop) : ∀ x ∈ placed, position ≤ x.1 := by
  induction h with
  | nil => simp
  | @cons position stop x rest least more ih =>
      intro y member
      obtain rfl | later := List.mem_cons.mp member
      · exact least.1.2
      · exact (least.1.2.trans (Nat.le_add_right _ _)).trans (ih y later)

theorem stop_le (h : Packed position placed stop) : ∀ x ∈ placed, x.stop ≤ stop := by
  induction h with
  | nil => simp
  | cons least more ih =>
      intro y member
      obtain rfl | later := List.mem_cons.mp member
      · exact more.le
      · exact ih y later

/-- A variable ends before the next one begins. -/
theorem ordered (h : Packed position placed stop) :
    placed.Pairwise fun x y => x.stop ≤ y.1 := by
  induction h with
  | nil => exact .nil
  | cons least more ih => exact .cons more.position_le ih

theorem unique (h : Packed position placed stop) {others : List Placement} {stop' : Nat}
    (h' : Packed position others stop') (same : others.map Prod.snd = placed.map Prod.snd) :
    others = placed ∧ stop' = stop := by
  induction h generalizing others with
  | nil =>
      obtain rfl := List.map_eq_nil_iff.mp same
      cases h'
      exact ⟨rfl, rfl⟩
  | @cons position stop x rest least more ih =>
      cases h' with
      | nil => simp at same
      | @cons _ _ y rest' least' more' =>
          obtain ⟨entry, entries⟩ := List.cons.inj same
          rw [show y.2 = x.2 from entry] at least'
          obtain rfl : y = x := Prod.ext (least'.unique least) entry
          obtain ⟨rfl, rfl⟩ := ih more' entries
          exact ⟨rfl, rfl⟩

end Packed

theorem exists_packed (position : Nat) (declared : List Variable) :
    ∃ placed stop, placed.map Prod.snd = declared ∧ Packed position placed stop := by
  induction declared generalizing position with
  | nil => exact ⟨[], position, rfl, .nil position⟩
  | cons v rest ih =>
      obtain ⟨placed, stop, same, packed⟩ := ih (alignUp position v.kind.alignment + v.size)
      exact ⟨(alignUp position v.kind.alignment, v) :: placed, stop, congrArg _ same,
        .cons (isLeast_alignUp position v.kind.alignment_pos) packed⟩

section Pack

variable {capacity position stop : Nat} {placed : List Placement}

theorem pack_of_packed (h : Packed position placed stop) (bound : capacity < sizeBound)
    (fits : stop ≤ capacity) :
    pack capacity position (placed.map Prod.snd) = .ok (placed.map Prod.fst, stop) := by
  induction h with
  | nil => rfl
  | @cons position stop x rest least more ih =>
      have start := (isLeast_alignUp position x.2.kind.alignment_pos).unique least
      have last : min x.stop sizeBound = x.stop := by
        have end_le := more.le
        omega
      rw [List.map_cons, pack, start, ← Placement.stop, last, if_neg (by have := more.le; omega),
        ih fits]
      rfl

/-- Packing fails at the first variable that ends beyond the capacity. -/
theorem pack_of_lt (h : Packed position placed stop) (bound : capacity < sizeBound)
    (start : position ≤ capacity) (tooLarge : capacity < stop) :
    ∃ required, capacity < required ∧
      pack capacity position (placed.map Prod.snd) =
        .error (.dataSegmentTooLarge required capacity) := by
  induction h with
  | nil => omega
  | @cons position stop x rest least more ih =>
      have first := (isLeast_alignUp position x.2.kind.alignment_pos).unique least
      rw [List.map_cons, pack, first, ← Placement.stop]
      by_cases here : capacity < x.stop
      · have larger : capacity < min x.stop sizeBound := by omega
        exact ⟨_, larger, if_pos larger⟩
      · have last : min x.stop sizeBound = x.stop := by omega
        obtain ⟨required, larger, failed⟩ := ih (by omega) tooLarge
        refine ⟨required, larger, ?_⟩
        rw [last, if_neg here, failed]
        rfl

end Pack

theorem memorySize_lt_sizeBound (c : Config) : c.memorySize.toNat < sizeBound := by
  have size := c.memorySize.isLt
  simp only [sizeBound]
  omega

section Plan

variable {p : Program} {c : Config} {placed : List Placement} {stop : Nat}

theorem plan_of_packed (entries : placed.map Prod.snd = p.data.entries.toList)
    (packed : Packed 0 placed stop) (fits : stop ≤ c.memorySize.toNat) :
    plan p c = .ok {
      textBase := c.textBase
      textLength := p.text.size
      dataBase := c.dataBase
      dataOffsets := (placed.map Prod.fst).toArray
      dataSize := stop } := by
  rw [plan, ← entries, pack_of_packed packed (memorySize_lt_sizeBound c) fits]
  rfl

theorem plan_of_lt (entries : placed.map Prod.snd = p.data.entries.toList)
    (packed : Packed 0 placed stop) (tooLarge : c.memorySize.toNat < stop) :
    ∃ required, c.memorySize.toNat < required ∧
      plan p c = .error (.dataSegmentTooLarge required c.memorySize.toNat) := by
  obtain ⟨required, larger, failed⟩ :=
    pack_of_lt packed (memorySize_lt_sizeBound c) (Nat.zero_le _) tooLarge
  refine ⟨required, larger, ?_⟩
  rw [plan, ← entries, failed]
  rfl

/-- A plan that is made packs the variables into memory. -/
theorem packed_of_plan {l : Layout} (h : plan p c = .ok l) :
    ∃ placed, placed.map Prod.snd = p.data.entries.toList ∧
      l.dataOffsets.toList = placed.map Prod.fst ∧ Packed 0 placed l.dataSize ∧
      l.dataSize ≤ c.memorySize.toNat ∧ l.dataBase = c.dataBase := by
  obtain ⟨placed, stop, entries, packed⟩ := exists_packed 0 p.data.entries.toList
  by_cases fits : stop ≤ c.memorySize.toNat
  · rw [plan_of_packed entries packed fits] at h
    obtain rfl := Except.ok.inj h
    exact ⟨placed, entries, rfl, packed, fits, rfl⟩
  · obtain ⟨required, -, failed⟩ := plan_of_lt entries packed (Nat.lt_of_not_le fits)
    rw [failed] at h
    contradiction

end Plan

end Machine.Layout

end Mips
