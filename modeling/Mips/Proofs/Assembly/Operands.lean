import Mips.Proofs.Assembly.Names
import Mips.Proofs.Assembly.Reading
import Mips.Proofs.Source.Integer

/-!
The operands that can be extracted, each from its own node. What a node stands for is said by the
grammars of literals and of names; a node that has been marked stands for nothing, and neither does
one whose text is in no grammar. An operand list has the operands of its nodes in order, and a node
that stands for nothing is left out without any effect on the others.
-/
namespace Mips

namespace Source

open Text

/-- The operand that is written in a form. The label of an address is kept as it is. -/
inductive Form.StandsFor : Form → Operand → Prop
  | integer {text : String} {v : Int} (literal : IntegerLiteral text.toList v) :
      StandsFor (.integer text) (.integer v)
  | string {body text : String} (unescapes : Unescapes body.toList text.toList) :
      StandsFor (.string body) (.string text)
  | register {text : String} {r : Register} (written : r.IsWritten text) :
      StandsFor (.register text) (.register r)
  | address {label offset base : Option String} {v : Option Int} {r : Option Register}
      (displaced : Option.Rel (fun text => IntegerLiteral text.toList) offset v)
      (based : Option.Rel (fun text r => r.IsWritten text) base r) :
      StandsFor (.address label offset base) (.address { label, offset := v, base := r })

/-- The operand that a node stands for. -/
structure OperandNode.StandsFor (node : OperandNode) (operand : Operand) : Prop where
  unmarked : node.error = none
  written : node.form.StandsFor operand

section Values

variable {ε α β : Type}

theorem map_eq_ok_iff {x : Except ε α} {f : α → β} {b : β} :
    x.map f = .ok b ↔ ∃ a, x = .ok a ∧ f a = b := by
  cases x <;> simp [Except.map]

theorem bind_eq_ok_iff {x : Except ε α} {f : α → Except ε β} {b : β} :
    (x >>= f) = .ok b ↔ ∃ a, x = .ok a ∧ f a = .ok b := by
  cases x <;> simp [bind, Except.bind]

theorem stringValue_eq_ok_iff {body text : String} :
    stringValue body = .ok text ↔ Unescapes body.toList text.toList := by
  rw [← unescape_eq_ok_iff, stringValue]
  cases Text.unescape body.toList with
  | error e => simp [Except.map, Except.mapError]
  | ok chars => simp [Except.map, Except.mapError, ← String.toList_inj]

theorem valueIfPresent_eq_ok_iff {value : String → Except OperandError α} {text : Option String}
    {a : Option α} :
    valueIfPresent value text = .ok a ↔ Option.Rel (fun text a => value text = .ok a) text a := by
  constructor
  · intro present
    cases text with
    | none =>
        obtain rfl := Except.ok.inj present
        exact .none
    | some text =>
        obtain ⟨found, valued, rfl⟩ := map_eq_ok_iff.mp present
        exact .some valued
  · intro related
    cases related with
    | none => rfl
    | some valued => exact map_eq_ok_iff.mpr ⟨_, valued, rfl⟩

theorem displacement_eq_ok_iff {text : Option String} {v : Option Int} :
    valueIfPresent integerValue text = .ok v ↔
      Option.Rel (fun text => IntegerLiteral text.toList) text v := by
  simp only [valueIfPresent_eq_ok_iff, integerValue_eq_ok_iff]

theorem base_eq_ok_iff {text : Option String} {r : Option Register} :
    valueIfPresent registerValue text = .ok r ↔
      Option.Rel (fun text r => r.IsWritten text) text r := by
  simp only [valueIfPresent_eq_ok_iff, Register.registerValue_eq_ok_iff]

end Values

/-- Each form stands for one operand at most, and its value is that operand. -/
theorem Form.value_eq_ok_iff {form : Form} {text : String} {operand : Operand} :
    form.value text = .ok operand ↔ form.StandsFor operand := by
  constructor
  · intro valued
    cases form with
    | integer number =>
        obtain ⟨v, read, rfl⟩ := map_eq_ok_iff.mp valued
        exact .integer (integerValue_eq_ok_iff.mp read)
    | string body =>
        obtain ⟨text, read, rfl⟩ := map_eq_ok_iff.mp valued
        exact .string (stringValue_eq_ok_iff.mp read)
    | register name =>
        obtain ⟨r, read, rfl⟩ := map_eq_ok_iff.mp valued
        exact .register (Register.registerValue_eq_ok_iff.mp read)
    | address label offset base =>
        obtain ⟨v, displaced, valued⟩ := bind_eq_ok_iff.mp valued
        obtain ⟨r, based, same⟩ := bind_eq_ok_iff.mp valued
        obtain rfl := Except.ok.inj same
        exact .address (displacement_eq_ok_iff.mp displaced) (base_eq_ok_iff.mp based)
    | unrecognised => cases valued
  · intro stands
    cases stands with
    | integer literal => exact map_eq_ok_iff.mpr ⟨_, integerValue_eq_ok_iff.mpr literal, rfl⟩
    | string unescapes => exact map_eq_ok_iff.mpr ⟨_, stringValue_eq_ok_iff.mpr unescapes, rfl⟩
    | register written =>
        exact map_eq_ok_iff.mpr ⟨_, Register.registerValue_eq_ok_iff.mpr written, rfl⟩
    | address displaced based =>
        exact bind_eq_ok_iff.mpr ⟨_, displacement_eq_ok_iff.mpr displaced,
          bind_eq_ok_iff.mpr ⟨_, base_eq_ok_iff.mpr based, rfl⟩⟩

theorem OperandNode.value_eq_ok_iff {node : OperandNode} {operand : Operand} :
    node.value = .ok operand ↔ node.StandsFor operand := by
  constructor
  · intro valued
    refine ⟨OperandNode.error_eq_none_of_value valued, ?_⟩
    rw [value, OperandNode.error_eq_none_of_value valued] at valued
    exact Form.value_eq_ok_iff.mp valued
  · rintro ⟨unmarked, written⟩
    rw [value, unmarked]
    exact Form.value_eq_ok_iff.mpr written

end Source

namespace Assembly

open Source

/-- The operands that can be extracted from some nodes, in order. -/
def extracted : List OperandNode → List Operand
  | [] => []
  | node :: rest =>
      match node.value with
      | .ok operand => operand :: extracted rest
      | .error _ => extracted rest

theorem operandValues_eq (list : Option OperandList) :
    operandValues list = extracted (operandNodes list) := by
  rw [operandValues, operandNodes]
  induction list.elim [] OperandList.operands with
  | nil => rfl
  | cons node rest ih =>
      rw [List.filterMap_cons, ih, extracted]
      cases node.value <;> rfl

end Assembly

end Mips
