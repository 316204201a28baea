import Mips.Proofs.Machine.ControlFlow

/-!
Addresses of the text and what is fetched from them. Every statement has one address and the end of
the text has another; nothing is fetched from anywhere else. Fetching is exact, but the address of
an index is a sum of words, which may wrap. The end is fetched from its address just if the text has
room, and then addresses and indices are inverse to each other.
-/
namespace Mips.Machine

namespace Layout

variable {l : Layout} {address : Word}

theorem textSlot?_eq_none_iff : l.textSlot? address = none ↔ ¬l.InText address := by
  constructor
  · exact fun none inside => inside.slot none
  · intro outside
    cases slot : l.textSlot? address with
    | none => rfl
    | some found =>
        refine absurd ?_ outside
        cases found with
        | statement i =>
            obtain ⟨lt, place⟩ := textSlot?_eq_statement_iff.mp slot
            exact ⟨i, Nat.le_of_lt lt, place⟩
        | finish => exact ⟨l.textLength, Nat.le_refl _, textSlot?_eq_finish_iff.mp slot⟩

/-- An address is a word, so the end of a text without room is nowhere. -/
theorem hasRoom_iff :
    l.HasRoom ↔ l.textSlot? (l.textAddress l.textLength) = some .finish := by
  constructor
  · exact fun room => textSlot?_eq_finish_iff.mpr (toNat_textAddress room (Nat.le_refl _))
  · intro slot
    have place := textSlot?_eq_finish_iff.mp slot
    rw [HasRoom, ← place]
    exact (l.textAddress l.textLength).isLt

theorem textAddress_eq_iff (room : l.HasRoom) {i : Nat} (le : i ≤ l.textLength) :
    l.textAddress i = address ↔ address.toNat = l.textBase.toNat + 4 * i := by
  rw [← toNat_textAddress room le, BitVec.toNat_inj, eq_comm]

theorem textSlot?_textAddress (room : l.HasRoom) {i : Nat} (lt : i < l.textLength) :
    l.textSlot? (l.textAddress i) = some (.statement i) :=
  textSlot?_eq_statement_iff.mpr ⟨lt, toNat_textAddress room (Nat.le_of_lt lt)⟩

theorem textAddress_inj (room : l.HasRoom) {i j : Nat} (hi : i ≤ l.textLength)
    (hj : j ≤ l.textLength) (same : l.textAddress i = l.textAddress j) : i = j := by
  have place := (textAddress_eq_iff room hi).mp same
  rw [toNat_textAddress room hj] at place
  omega

theorem targetAddress?_text_eq_some_iff {i : Nat} :
    l.targetAddress? (.text i) = some address ↔ i < l.textLength ∧ l.textAddress i = address := by
  simp [targetAddress?]

/-- A target in the text has the one address from which its statement is fetched. -/
theorem targetAddress?_eq_some_iff_textSlot? (room : l.HasRoom) {i : Nat} :
    l.targetAddress? (.text i) = some address ↔ l.textSlot? address = some (.statement i) := by
  rw [targetAddress?_text_eq_some_iff, textSlot?_eq_statement_iff]
  exact and_congr_right fun lt => textAddress_eq_iff room (Nat.le_of_lt lt)

/-- A statement is fetched from the one address that lies four times its index behind the base, the
end of the text likewise, and nothing is fetched from any other address. The end is fetched back
from its computed address exactly if the text has room; then every statement is fetched back too, no
two indices share an address, and the address of a target is the one its statement is fetched
from. -/
theorem textSlot?_inverts (l : Layout) :
    (∀ address i, l.textSlot? address = some (.statement i) ↔
        i < l.textLength ∧ address.toNat = l.textBase.toNat + 4 * i) ∧
      (∀ address, l.textSlot? address = some .finish ↔
        address.toNat = l.textBase.toNat + 4 * l.textLength) ∧
      (∀ address, l.textSlot? address = none ↔
        ∀ i ≤ l.textLength, address.toNat ≠ l.textBase.toNat + 4 * i) ∧
      (∀ i, (l.targetAddress? (.text i)).isSome = true ↔ i < l.textLength) ∧
      (l.textBase.toNat + 4 * l.textLength < 0x100000000 ↔
        l.textSlot? (l.textAddress l.textLength) = some .finish) ∧
      (l.textBase.toNat + 4 * l.textLength < 0x100000000 →
        (∀ i < l.textLength, l.textSlot? (l.textAddress i) = some (.statement i)) ∧
          (∀ i ≤ l.textLength, ∀ j ≤ l.textLength, l.textAddress i = l.textAddress j → i = j) ∧
          ∀ i address, l.targetAddress? (.text i) = some address ↔
            l.textSlot? address = some (.statement i)) := by
  refine ⟨fun _ _ => textSlot?_eq_statement_iff, fun _ => textSlot?_eq_finish_iff, ?_, ?_,
    hasRoom_iff, fun room => ⟨fun _ => textSlot?_textAddress room, ?_, ?_⟩⟩
  · intro address
    rw [textSlot?_eq_none_iff, InText]
    simp
  · intro i
    simp [Option.isSome_iff_exists, targetAddress?_text_eq_some_iff]
  · exact fun i hi j hj => textAddress_inj room hi hj
  · exact fun i address => targetAddress?_eq_some_iff_textSlot? room

/-- A text of three statements that ends at the last word of all addresses. -/
def lastTextLayout : Layout where
  textBase := 0xFFFFFFF0
  textLength := 3
  dataBase := 0x10010000
  dataOffsets := #[]
  dataSize := 0

theorem textSlot?_inverts_lastText :
    plan State.ring State.lastText = .ok lastTextLayout ∧
      lastTextLayout.textBase.toNat + 4 * lastTextLayout.textLength < 0x100000000 ∧
      (∀ i < 3, lastTextLayout.textSlot? (lastTextLayout.textAddress i) = some (.statement i)) ∧
      lastTextLayout.textSlot? 0xFFFFFFFC = some .finish ∧
      ∀ i address, lastTextLayout.targetAddress? (.text i) = some address ↔
        lastTextLayout.textSlot? address = some (.statement i) := by
  have room : lastTextLayout.textBase.toNat + 4 * lastTextLayout.textLength < 0x100000000 := by
    decide
  obtain ⟨-, finish, -, -, -, inverse⟩ := textSlot?_inverts lastTextLayout
  obtain ⟨back, -, targets⟩ := inverse room
  exact ⟨by decide +kernel, room, back, (finish _).mpr (by decide), targets⟩

end Layout

end Mips.Machine
