import Mathlib.Algebra.Group.Nat.Defs
import Mips.Proofs.Machine.Evaluation

/-!
Arithmetic and exact integers. What an instruction computes is told here without operations on
words: as an integer that has to be in the signed range, as an integer modulo the number of words,
or bit by bit. Each operation agrees with that on all words, and so the cycle of a statement assigns
what is told, or faults if no word holds it.
-/
namespace Mips

/-- The result of an operation before it becomes a word. -/
inductive Exact
  /-- An integer that has to be in the signed range. -/
  | checked (value : Int)
  /-- An integer that counts modulo the number of words. -/
  | modular (value : Int)
  | bitwise (bit : Nat → Bool)

namespace Exact

def Overflows : Exact → Prop
  | checked value => value < -0x80000000 ∨ 0x7FFFFFFF < value
  | modular _ | bitwise _ => False

def IsHeldBy : Exact → Word → Prop
  | checked value, w => w.toInt = value
  | modular value, w => (w.toNat : Int) = value % 0x100000000
  | bitwise bit, w => ∀ i < 32, w.getLsbD i = bit i

/-- No word for a result that overflows, and else the word that holds it. -/
def Describes (e : Exact) : Option Word → Prop
  | none => e.Overflows
  | some w => ¬e.Overflows ∧ e.IsHeldBy w

theorem modular_isHeldBy_ofInt (value : Int) : (modular value).IsHeldBy (Word.ofInt value) := by
  rw [IsHeldBy, Word.ofInt, BitVec.toNat_ofInt]
  omega

theorem describes_modular {value : Int} {w : Word} (h : w = Word.ofInt value) :
    (modular value).Describes (some w) := by
  subst h
  exact ⟨id, modular_isHeldBy_ofInt value⟩

theorem describes_bitwise {bit : Nat → Bool} {w : Word} (h : ∀ i < 32, w.getLsbD i = bit i) :
    (bitwise bit).Describes (some w) :=
  ⟨id, h⟩

end Exact

namespace Word

theorem saddOverflow_iff (a b : Word) :
    BitVec.saddOverflow a b = true ↔ (Exact.checked (a.toInt + b.toInt)).Overflows := by
  simp only [BitVec.saddOverflow, Bool.or_eq_true, decide_eq_true_eq, Exact.Overflows]
  omega

theorem ssubOverflow_iff (a b : Word) :
    BitVec.ssubOverflow a b = true ↔ (Exact.checked (a.toInt - b.toInt)).Overflows := by
  simp only [BitVec.ssubOverflow, Bool.or_eq_true, decide_eq_true_eq, Exact.Overflows]
  omega

theorem describes_addChecked? (a b : Word) :
    (Exact.checked (a.toInt + b.toInt)).Describes (addChecked? a b) := by
  rw [addChecked?]
  split
  · next overflow => exact (saddOverflow_iff a b).mp overflow
  · next fits =>
      exact ⟨mt (saddOverflow_iff a b).mpr fits, BitVec.toInt_add_of_not_saddOverflow fits⟩

theorem describes_subChecked? (a b : Word) :
    (Exact.checked (a.toInt - b.toInt)).Describes (subChecked? a b) := by
  rw [subChecked?]
  split
  · next overflow => exact (ssubOverflow_iff a b).mp overflow
  · next fits =>
      exact ⟨mt (ssubOverflow_iff a b).mpr fits, BitVec.toInt_sub_of_not_ssubOverflow fits⟩

theorem add_eq_ofInt (a b : Word) : a + b = ofInt (a.toInt + b.toInt) := by
  rw [ofInt, BitVec.ofInt_add, BitVec.ofInt_toInt, BitVec.ofInt_toInt]

theorem sub_eq_ofInt (a b : Word) : a - b = ofInt (a.toInt - b.toInt) := by
  rw [ofInt, Int.sub_eq_add_neg, BitVec.ofInt_add, BitVec.ofInt_neg, BitVec.ofInt_toInt,
    BitVec.ofInt_toInt, BitVec.sub_eq_add_neg]

theorem mul_eq_ofInt (a b : Word) : a * b = ofInt (a.toInt * b.toInt) := by
  rw [ofInt, BitVec.ofInt_mul, BitVec.ofInt_toInt, BitVec.ofInt_toInt]

theorem shiftLeft_eq_ofInt (a : Word) (k : Nat) : a <<< k = ofInt (a.toNat * 2 ^ k : Nat) := by
  apply BitVec.eq_of_toNat_eq
  rw [ofInt, BitVec.ofInt_natCast, BitVec.toNat_ofNat, BitVec.toNat_shiftLeft, Nat.shiftLeft_eq]

theorem ushiftRight_eq_ofInt (a : Word) (k : Nat) : a >>> k = ofInt (a.toNat / 2 ^ k : Nat) := by
  apply BitVec.eq_of_toNat_eq
  rw [ofInt, BitVec.ofInt_natCast, BitVec.toNat_ofNat, BitVec.toNat_ushiftRight,
    Nat.shiftRight_eq_div_pow, Nat.mod_eq_of_lt]
  exact Nat.lt_of_le_of_lt (Nat.div_le_self _ _) a.isLt

theorem sshiftRight_eq_ofInt (a : Word) (k : Nat) :
    a.sshiftRight k = ofInt (a.toInt / (2 ^ k : Nat)) := by
  rw [BitVec.sshiftRight_eq, Int.shiftRight_eq_div_pow]
  rfl

theorem shiftLeft_sixteen_eq_ofInt (a : Word) : a <<< 16 = ofInt (a.toInt * 0x10000) := by
  have wide : (0x10000 : Word).toInt = 0x10000 := by decide
  rw [BitVec.shiftLeft_eq_mul_twoPow, mul_eq_ofInt, ← wide]
  rfl

theorem flag_eq_ofInt (p : Prop) [Decidable p] :
    Machine.flag (decide p) = ofInt (if p then 1 else 0) := by
  by_cases h : p
  · rw [decide_eq_true h, if_pos h]
    rfl
  · rw [decide_eq_false h, if_neg h]
    rfl

end Word

namespace Instruction

/-- What an instruction with one source computes. -/
def exactOfOne? (a : Word) : Instruction → Option Exact
  | li | move => some (.modular a.toInt)
  | lui => some (.modular (a.toInt * 0x10000))
  | _ => none

/-- What an instruction with two sources computes. Shifts go by the low five bits of the second. -/
def exactOfTwo? (a b : Word) : Instruction → Option Exact
  | add | addi => some (.checked (a.toInt + b.toInt))
  | sub => some (.checked (a.toInt - b.toInt))
  | addu | addiu => some (.modular (a.toInt + b.toInt))
  | subu => some (.modular (a.toInt - b.toInt))
  | mul => some (.modular (a.toInt * b.toInt))
  | and | andi => some (.bitwise fun i => a.getLsbD i && b.getLsbD i)
  | or | ori => some (.bitwise fun i => a.getLsbD i || b.getLsbD i)
  | xor | xori => some (.bitwise fun i => a.getLsbD i ^^ b.getLsbD i)
  | nor => some (.bitwise fun i => !(a.getLsbD i || b.getLsbD i))
  | slt | slti => some (.modular (if a.toInt < b.toInt then 1 else 0))
  | sltu => some (.modular (if a.toNat < b.toNat then 1 else 0))
  | sll => some (.modular (a.toNat * 2 ^ (b.toNat % 32) : Nat))
  | srl => some (.modular (a.toNat / 2 ^ (b.toNat % 32) : Nat))
  | sra => some (.modular (a.toInt / (2 ^ (b.toNat % 32) : Nat)))
  | _ => none

def result? (i : Instruction) : List Word → Option Exact
  | [source] => i.exactOfOne? source
  | [first, second] => i.exactOfTwo? first second
  | _ => none

def isArithmetic : Instruction → Bool
  | add | addu | sub | subu | and | or | xor | nor | slt | sltu | mul | addi | addiu | andi | ori
  | xori | slti | sll | srl | sra | li | lui | move => true
  | _ => false

end Instruction

namespace Machine

open Exact

/-- The operations on two words agree with the exact results. -/
theorem exactOfTwo?_of_arithmetic {i : Instruction} {result : Word → Word → Option Word}
    (performed : behaviour i = .arithmetic result) (a b : Word) :
    ∃ e, i.exactOfTwo? a b = some e ∧ e.Describes (result a b) := by
  have told {e : Exact} {f : Word → Word → Option Word}
      (same : Behaviour.arithmetic f = .arithmetic result) (described : e.Describes (f a b)) :
      ∃ e', some e = some e' ∧ e'.Describes (result a b) := by
    obtain rfl := Behaviour.arithmetic.inj same
    exact ⟨e, rfl, described⟩
  cases i with
  | add | addi => exact told performed (Word.describes_addChecked? a b)
  | sub => exact told performed (Word.describes_subChecked? a b)
  | addu | addiu => exact told performed (describes_modular (Word.add_eq_ofInt a b))
  | subu => exact told performed (describes_modular (Word.sub_eq_ofInt a b))
  | mul => exact told performed (describes_modular (Word.mul_eq_ofInt a b))
  | and | andi => exact told performed (describes_bitwise fun _ _ => BitVec.getLsbD_and)
  | or | ori => exact told performed (describes_bitwise fun _ _ => BitVec.getLsbD_or)
  | xor | xori => exact told performed (describes_bitwise fun _ _ => BitVec.getLsbD_xor)
  | nor => exact told performed (describes_bitwise fun _ small => by simp [small])
  | slt | slti =>
      exact told performed (describes_modular (Word.flag_eq_ofInt (a.toInt < b.toInt)))
  | sltu => exact told performed (describes_modular (Word.flag_eq_ofInt (a.toNat < b.toNat)))
  | sll => exact told performed (describes_modular (Word.shiftLeft_eq_ofInt a _))
  | srl => exact told performed (describes_modular (Word.ushiftRight_eq_ofInt a _))
  | sra => exact told performed (describes_modular (Word.sshiftRight_eq_ofInt a _))
  | _ => cases performed

/-- The operations on an immediate agree with the exact results. -/
theorem exactOfOne?_of_immediate {i : Instruction} {result : Word → Word}
    (performed : behaviour i = .immediate result) (a : Word) :
    ∃ e, i.exactOfOne? a = some e ∧ e.Describes (some (result a)) := by
  cases i with
  | li =>
      obtain rfl := Behaviour.immediate.inj performed
      exact ⟨_, rfl, describes_modular (BitVec.ofInt_toInt (x := a)).symm⟩
  | lui =>
      obtain rfl := Behaviour.immediate.inj performed
      exact ⟨_, rfl, describes_modular (Word.shiftLeft_sixteen_eq_ofInt a)⟩
  | _ => cases performed

/-- Copies agree with the exact results. -/
theorem exactOfOne?_of_copy {i : Instruction} (performed : behaviour i = .copy) (a : Word) :
    ∃ e, i.exactOfOne? a = some e ∧ e.Describes (some a) := by
  cases i with
  | move => exact ⟨_, rfl, describes_modular (BitVec.ofInt_toInt (x := a)).symm⟩
  | _ => cases performed

theorem behaviour_of_isArithmetic {i : Instruction} (h : i.isArithmetic = true) :
    (∃ combine, behaviour i = .arithmetic combine) ∨
      (∃ combine, behaviour i = .immediate combine) ∨ behaviour i = .copy := by
  cases i <;> simp [Instruction.isArithmetic, behaviour] at h ⊢

namespace Exec.Ends

variable {l : Layout} {v w : Visible} {st : Statement} {target source : Register}
  {result : Except Fault Completion}

theorem overflow {combine : Word → Word → Option Word} {value : Operand} {b : Word}
    (performed : behaviour st.instruction = .arithmetic combine)
    (operands : st.operands = [.register target, .register source, value])
    (read : v.registers.value? value = some b) (none : combine (v.registers.get source) b = none) :
    Ends l v (execute st) (.error .arithmeticOverflow) v := by
  simp only [execute, performed]
  refine bind (.registerAt (by rw [operands]; rfl)) (bind (.registerAt (by rw [operands]; rfl)) ?_)
  refine bind (.readRegister source) (bind (.valueAt (by rw [operands]; rfl) read) ?_)
  simp only [none]
  exact fault _

theorem arithmetic {combine : Word → Word → Option Word} {value : Operand} {b found : Word}
    (performed : behaviour st.instruction = .arithmetic combine)
    (operands : st.operands = [.register target, .register source, value])
    (read : v.registers.value? value = some b)
    (some : combine (v.registers.get source) b = some found) :
    Ends l v (execute st) (.ok .advance) { v with registers := v.registers.set target found } := by
  simp only [execute, performed]
  refine bind (.registerAt (by rw [operands]; rfl)) (bind (.registerAt (by rw [operands]; rfl)) ?_)
  refine bind (.readRegister source) (bind (.valueAt (by rw [operands]; rfl) read) ?_)
  simp only [some]
  exact writeResult target found

theorem immediate {combine : Word → Word} {value : Int}
    (performed : behaviour st.instruction = .immediate combine)
    (operands : st.operands = [.register target, .integer value]) :
    Ends l v (execute st) (.ok .advance)
      { v with registers := v.registers.set target (combine (Word.ofInt value)) } := by
  simp only [execute, performed]
  refine bind (.immediateAt (by rw [operands]; rfl)) (bind (.registerAt (by rw [operands]; rfl)) ?_)
  exact writeResult target _

theorem copy (performed : behaviour st.instruction = .copy)
    (operands : st.operands = [.register target, .register source]) :
    Ends l v (execute st) (.ok .advance)
      { v with registers := v.registers.set target (v.registers.get source) } := by
  simp only [execute, performed]
  refine bind (.registerAt (by rw [operands]; rfl)) (bind (.readRegister source) ?_)
  exact bind (.registerAt (by rw [operands]; rfl)) (writeResult target _)

end Exec.Ends

namespace State

variable {s : State} {st : Statement}

/-- The next cycle faults on overflow and changes nothing; else it assigns the word that holds the
result. -/
structure Computes (s : State) (target : Register) (e : Exact) : Prop where
  faults : s.step.1 = .faulted .arithmeticOverflow ↔ e.Overflows
  leaves : e.Overflows → s.step.2.visible = s.visible
  assigns : ¬e.Overflows → ∃ value, e.IsHeldBy value ∧ s.Assigns target value

theorem computes_of_overflow (running : s.run = .running) (current : s.current? = some st)
    (target : Register) {e : Exact} (overflows : e.Overflows)
    (ends : Exec.Ends s.layout s.visible (execute st) (.error .arithmeticOverflow) s.visible) :
    s.Computes target e := by
  obtain ⟨faulted, shown⟩ := step_of_ends running current ends
  exact ⟨⟨fun _ => overflows, fun _ => faulted⟩, fun _ => shown, fun fits => absurd overflows fits⟩

theorem computes_of_ends (running : s.run = .running) (current : s.current? = some st)
    {target : Register} {e : Exact} {value : Word} (described : e.Describes (some value))
    (ends : Exec.Ends s.layout s.visible (execute st) (.ok .advance)
      { s.visible with registers := s.visible.registers.set target value }) :
    s.Computes target e := by
  obtain ⟨fits, held⟩ := described
  have assigns := assigns_of_ends running current ends
  refine ⟨⟨fun faulted => ?_, fun overflows => absurd overflows fits⟩,
    fun overflows => absurd overflows fits, fun _ => ⟨value, held, assigns⟩⟩
  cases assigns.retired.symm.trans faulted

/-- The values of the operands after the first, as the registers are before the cycle. -/
def sources (s : State) (st : Statement) : List Word :=
  st.operands.tail.filterMap s.bus.registers.value?

/-- Every arithmetic statement computes the exact result of its sources into its first operand. -/
theorem computes_exact (running : s.run = .running) (current : s.current? = some st)
    (accepted : st.instruction.format.accepts (st.operands.map Operand.kind) = true)
    (arithmetic : st.instruction.isArithmetic = true) :
    ∃ target e, st.operands.head? = some (.register target) ∧
      st.instruction.result? (s.sources st) = some e ∧ s.Computes target e := by
  have takes := takes_of_accepts accepted
  obtain ⟨combine, performed⟩ | ⟨combine, performed⟩ | performed :=
    behaviour_of_isArithmetic arithmetic
  all_goals
    rw [performed] at takes
    generalize operands : st.operands = listed at takes
    cases takes
  case arithmetic target source value isValue =>
    obtain ⟨b, read⟩ := s.bus.registers.exists_value isValue
    obtain ⟨e, told, described⟩ :=
      exactOfTwo?_of_arithmetic performed (s.bus.registers.get source) b
    have sources : s.sources st = [s.bus.registers.get source, b] := by
      simp [State.sources, operands, read]
    refine ⟨target, e, rfl, sources ▸ told, ?_⟩
    cases combined : combine (s.bus.registers.get source) b with
    | none =>
        rw [combined] at described
        exact computes_of_overflow running current target described
          (.overflow performed operands read combined)
    | some value =>
        rw [combined] at described
        exact computes_of_ends running current described
          (.arithmetic performed operands read combined)
  case immediate target value =>
    obtain ⟨e, told, described⟩ := exactOfOne?_of_immediate performed (Word.ofInt value)
    have sources : s.sources st = [Word.ofInt value] := by
      simp [State.sources, operands]
    exact ⟨target, e, rfl, sources ▸ told,
      computes_of_ends running current described (.immediate performed operands)⟩
  case copy target source =>
    obtain ⟨e, told, described⟩ := exactOfOne?_of_copy performed (s.bus.registers.get source)
    have sources : s.sources st = [s.bus.registers.get source] := by
      simp [State.sources, operands]
    exact ⟨target, e, rfl, sources ▸ told,
      computes_of_ends running current described (.copy performed operands)⟩

/-- The statement `sra $a0, $a0, 33`, whose destination is its source. -/
def shiftInPlace : Statement :=
  ⟨.sra, [.register .a0, .register .a0, .integer 33], some 1⟩

/-- A machine that shifts a negative number in place. -/
def shifting : State where
  program := { text := { entries := #[shiftInPlace] } }
  config := {}
  layout := {
    textBase := 0x400000
    textLength := 1
    dataBase := 0x10010000
    dataOffsets := #[]
    dataSize := 0 }
  bus := {
    registers := ({} : RegisterFile).set .a0 0x80000001
    memory := { base := 0x10010000, size := 0x100000 } }
  control := { pc := 0x400000 }

/-- An amount above 31 counts modulo 32, and an odd negative number is halved downwards. -/
theorem computes_exact_shifting :
    shifting.run = .running ∧ shifting.current? = some shiftInPlace ∧
      shiftInPlace.instruction.format.accepts (shiftInPlace.operands.map Operand.kind) = true ∧
      shiftInPlace.instruction.isArithmetic = true ∧
      (∃ target e, shiftInPlace.operands.head? = some (.register target) ∧
        shiftInPlace.instruction.result? (shifting.sources shiftInPlace) = some e ∧
        shifting.Computes target e) ∧
      shifting.step.2.bus.registers.get .a0 = Word.ofInt (-1073741824) :=
  ⟨rfl, rfl, by decide, rfl,
    @computes_exact shifting shiftInPlace rfl rfl (by decide) rfl, by decide +kernel⟩

end State

end Machine

end Mips
