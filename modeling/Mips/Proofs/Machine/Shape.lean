import Mips.Machine.Behaviour
import Mathlib.Data.List.Basic

/-!
The operands that the execution of an instruction can use. The table of formats and the classes
of behaviour are two descriptions of the instruction set; operands of a format that is accepted
are operands that the behaviour takes.
-/
namespace Mips

namespace Operand

theorem kind_eq_register {o : Operand} : o.kind = .register ↔ ∃ r, o = .register r := by
  cases o <;> simp [kind]

theorem kind_eq_immediate {o : Operand} : o.kind = .immediate ↔ ∃ value, o = .integer value := by
  cases o <;> simp [kind]

theorem kind_eq_address {o : Operand} : o.kind = .address ↔ ∃ a, o = .address a := by
  cases o <;> simp [kind]

/-- A register or an immediate. -/
def IsValue (o : Operand) : Prop :=
  o.kind = .register ∨ o.kind = .immediate

end Operand

namespace Format

open Operand

variable {operands : List Operand}

theorem accepts_iff (f : Format) (kinds : List OperandKind) :
    f.accepts kinds = true ↔ kinds ∈ f.combinations := by
  simp [accepts]

theorem nothing_accepts (h : nothing.accepts (operands.map kind) = true) : operands = [] := by
  simpa [accepts_iff, nothing] using h

theorem destSourceValue_accepts (h : destSourceValue.accepts (operands.map kind) = true) :
    ∃ target source value, operands = [.register target, .register source, value] ∧
      value.IsValue := by
  simp only [accepts_iff, destSourceValue, List.mem_cons, List.not_mem_nil, or_false,
    List.map_eq_cons_iff, List.map_eq_nil_iff, kind_eq_register, kind_eq_immediate] at h
  obtain ⟨_, _, rfl, ⟨target, rfl⟩, _, _, rfl, ⟨source, rfl⟩, value, _, rfl, ⟨r, rfl⟩, rfl⟩ |
    ⟨_, _, rfl, ⟨target, rfl⟩, _, _, rfl, ⟨source, rfl⟩, value, _, rfl, ⟨n, rfl⟩, rfl⟩ := h
  · exact ⟨target, source, .register r, rfl, .inl rfl⟩
  · exact ⟨target, source, .integer n, rfl, .inr rfl⟩

theorem destSourceSource_accepts (h : destSourceSource.accepts (operands.map kind) = true) :
    destSourceValue.accepts (operands.map kind) = true := by
  simp only [accepts_iff, destSourceSource, destSourceValue, List.mem_cons, List.not_mem_nil,
    or_false] at h ⊢
  exact .inl h

theorem destSourceImmediate_accepts
    (h : destSourceImmediate.accepts (operands.map kind) = true) :
    destSourceValue.accepts (operands.map kind) = true := by
  simp only [accepts_iff, destSourceImmediate, destSourceValue, List.mem_cons, List.not_mem_nil,
    or_false] at h ⊢
  exact .inr h

theorem destSource_accepts (h : destSource.accepts (operands.map kind) = true) :
    ∃ target source, operands = [.register target, .register source] := by
  simp only [accepts_iff, destSource, List.mem_cons, List.not_mem_nil, or_false,
    List.map_eq_cons_iff, List.map_eq_nil_iff, kind_eq_register] at h
  obtain ⟨_, _, rfl, ⟨target, rfl⟩, _, _, rfl, ⟨source, rfl⟩, rfl⟩ := h
  exact ⟨target, source, rfl⟩

theorem destImmediate_accepts (h : destImmediate.accepts (operands.map kind) = true) :
    ∃ target value, operands = [.register target, .integer value] := by
  simp only [accepts_iff, destImmediate, List.mem_cons, List.not_mem_nil, or_false,
    List.map_eq_cons_iff, List.map_eq_nil_iff, kind_eq_register, kind_eq_immediate] at h
  obtain ⟨_, _, rfl, ⟨target, rfl⟩, _, _, rfl, ⟨value, rfl⟩, rfl⟩ := h
  exact ⟨target, value, rfl⟩

theorem registerAddress_accepts (h : registerAddress.accepts (operands.map kind) = true) :
    ∃ r place, operands = [.register r, .address place] := by
  simp only [accepts_iff, registerAddress, List.mem_cons, List.not_mem_nil, or_false,
    List.map_eq_cons_iff, List.map_eq_nil_iff, kind_eq_register, kind_eq_address] at h
  obtain ⟨_, _, rfl, ⟨r, rfl⟩, _, _, rfl, ⟨place, rfl⟩, rfl⟩ := h
  exact ⟨r, place, rfl⟩

theorem comparison_accepts (h : comparison.accepts (operands.map kind) = true) :
    ∃ source value place, operands = [.register source, value, .address place] ∧
      value.IsValue := by
  simp only [accepts_iff, comparison, List.mem_cons, List.not_mem_nil, or_false,
    List.map_eq_cons_iff, List.map_eq_nil_iff, kind_eq_register, kind_eq_immediate,
    kind_eq_address] at h
  obtain ⟨_, _, rfl, ⟨source, rfl⟩, value, _, rfl, ⟨r, rfl⟩, _, _, rfl, ⟨place, rfl⟩, rfl⟩ |
    ⟨_, _, rfl, ⟨source, rfl⟩, value, _, rfl, ⟨n, rfl⟩, _, _, rfl, ⟨place, rfl⟩, rfl⟩ := h
  · exact ⟨source, .register r, place, rfl, .inl rfl⟩
  · exact ⟨source, .integer n, place, rfl, .inr rfl⟩

theorem target_accepts (h : target.accepts (operands.map kind) = true) :
    ∃ place, operands = [.address place] := by
  simp only [accepts_iff, target, List.mem_cons, List.not_mem_nil, or_false,
    List.map_eq_cons_iff, List.map_eq_nil_iff, kind_eq_address] at h
  obtain ⟨_, _, rfl, ⟨place, rfl⟩, rfl⟩ := h
  exact ⟨place, rfl⟩

theorem source_accepts (h : source.accepts (operands.map kind) = true) :
    ∃ r, operands = [.register r] := by
  simp only [accepts_iff, source, List.mem_cons, List.not_mem_nil, or_false,
    List.map_eq_cons_iff, List.map_eq_nil_iff, kind_eq_register] at h
  obtain ⟨_, _, rfl, ⟨r, rfl⟩, rfl⟩ := h
  exact ⟨r, rfl⟩

end Format

namespace Machine

/-- The operands that a class of instructions takes. -/
inductive Behaviour.Takes : Behaviour → List Operand → Prop
  | nothing : Takes .nothing []
  | service : Takes .service []
  | arithmetic (result : Word → Word → Option Word) (target source : Register) {value : Operand}
      (h : value.IsValue) :
      Takes (.arithmetic result) [.register target, .register source, value]
  | immediate (result : Word → Word) (target : Register) (value : Int) :
      Takes (.immediate result) [.register target, .integer value]
  | loadAddress (target : Register) (place : Address) :
      Takes .loadAddress [.register target, .address place]
  | copy (target source : Register) : Takes .copy [.register target, .register source]
  | load (width : Nat) (signed : Bool) (target : Register) (place : Address) :
      Takes (.load width signed) [.register target, .address place]
  | store (width : Nat) (source : Register) (place : Address) :
      Takes (.store width) [.register source, .address place]
  | branch (taken : Word → Word → Bool) (source : Register) {value : Operand} (place : Address)
      (h : value.IsValue) : Takes (.branch taken) [.register source, value, .address place]
  | branchZero (taken : Word → Word → Bool) (source : Register) (place : Address) :
      Takes (.branch taken) [.register source, .address place]
  | jump (links : Bool) (place : Address) : Takes (.jump links) [.address place]
  | jumpRegister (source : Register) : Takes .jumpRegister [.register source]

open Format in
/-- The two tables agree on all instructions. -/
theorem takes_of_accepts {i : Instruction} {operands : List Operand}
    (h : i.format.accepts (operands.map Operand.kind) = true) :
    (behaviour i).Takes operands := by
  cases i with
  | nop =>
      obtain rfl := nothing_accepts h
      exact .nothing
  | syscall =>
      obtain rfl := nothing_accepts h
      exact .service
  | add | addu | sub | subu | and | or | xor | slt | sltu | mul =>
      obtain ⟨target, source, value, rfl, isValue⟩ := destSourceValue_accepts h
      exact .arithmetic _ target source isValue
  | nor =>
      obtain ⟨target, source, value, rfl, isValue⟩ :=
        destSourceValue_accepts (destSourceSource_accepts h)
      exact .arithmetic _ target source isValue
  | addi | addiu | andi | ori | xori | slti | sll | srl | sra =>
      obtain ⟨target, source, value, rfl, isValue⟩ :=
        destSourceValue_accepts (destSourceImmediate_accepts h)
      exact .arithmetic _ target source isValue
  | li | lui =>
      obtain ⟨target, value, rfl⟩ := destImmediate_accepts h
      exact .immediate _ target value
  | move =>
      obtain ⟨target, source, rfl⟩ := destSource_accepts h
      exact .copy target source
  | la =>
      obtain ⟨target, place, rfl⟩ := registerAddress_accepts h
      exact .loadAddress target place
  | lw | lh | lb | lbu =>
      obtain ⟨target, place, rfl⟩ := registerAddress_accepts h
      exact .load _ _ target place
  | sw | sh | sb =>
      obtain ⟨source, place, rfl⟩ := registerAddress_accepts h
      exact .store _ source place
  | beq | bne | blt | bgt | ble | bge =>
      obtain ⟨source, value, place, rfl, isValue⟩ := comparison_accepts h
      exact .branch _ source place isValue
  | beqz | bnez =>
      obtain ⟨source, place, rfl⟩ := registerAddress_accepts h
      exact .branchZero _ source place
  | j | b | jal =>
      obtain ⟨place, rfl⟩ := target_accepts h
      exact .jump _ place
  | jr =>
      obtain ⟨source, rfl⟩ := source_accepts h
      exact .jumpRegister source

end Machine

end Mips
