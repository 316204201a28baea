import Mips.Proofs.Machine.Cycle
import Mips.Proofs.Machine.Shape

/-!
Checked statements. A statement is checked if it has operands that its instruction takes and its
labels have addresses. Executing it never shows a defect of the program, whatever else may go
wrong, and so a machine whose statements are all checked never does.
-/
namespace Mips.Machine

/-- A fault that blames the statement and not what it was executed on. -/
def Fault.IsDefect : Fault → Prop
  | .malformedStatement _ | .unresolvedLabel _ => True
  | _ => False

/-- The label of an address has an address itself, unless there is no label. -/
def Layout.Places (l : Layout) (a : Address) : Prop :=
  ∀ name, a.label = some name → ∃ word, a.target.bind l.targetAddress? = some word

structure Layout.Checks (l : Layout) (s : Statement) : Prop where
  takes : (behaviour s.instruction).Takes s.operands
  places : ∀ a, .address a ∈ s.operands → l.Places a

namespace Memory

variable {m : Memory} {address : Word} {fault : Fault}

theorem readBytes_error {length : Nat} (h : m.readBytes address length = .error fault) :
    fault = .memoryOutOfRange address length := by
  simp only [readBytes] at h
  split at h
  · contradiction
  · exact (Except.error.inj h).symm

theorem write_error {bytes : List Byte} (h : m.write address bytes = .error fault) :
    fault = .memoryOutOfRange address bytes.length := by
  simp only [write] at h
  split at h
  · contradiction
  · exact (Except.error.inj h).symm

end Memory

namespace Exec

variable {l : Layout} {α β γ : Type}

theorem pure_bind (a : α) (f : α → Exec β) : (Pure.pure a >>= f) = f a := rfl

theorem bind_assoc (x : Exec α) (f : α → Exec β) (g : β → Exec γ) :
    x >>= f >>= g = x >>= fun a => f a >>= g := by
  funext s
  simp only [bind_apply]
  cases x s with
  | mk result t => cases result <;> rfl

/-- A computation that shows no defect on machines with this layout. -/
def Sound (l : Layout) (x : Exec α) : Prop :=
  ∀ s : State, s.layout = l →
    (x s).2.layout = l ∧ ∀ fault, (x s).1 = .error fault → ¬fault.IsDefect

namespace Sound

theorem pure (a : α) : Sound l (Pure.pure a : Exec α) :=
  fun _ same => ⟨same, by simp [pure_apply]⟩

theorem error {fault : Fault} (h : ¬fault.IsDefect) :
    Sound l (Exec.ofExcept (.error fault) : Exec α) := by
  intro s same
  refine ⟨same, ?_⟩
  intro raised raise
  obtain rfl := Except.error.inj raise
  exact h

theorem bind {x : Exec α} {f : α → Exec β} (hx : Sound l x) (hf : ∀ a, Sound l (f a)) :
    Sound l (x >>= f) := by
  intro s same
  rw [bind_apply]
  obtain ⟨kept, harmless⟩ := hx s same
  rcases hs : x s with ⟨result, t⟩
  rw [hs] at kept harmless
  cases result with
  | ok a => exact hf a t kept
  | error fault =>
      refine ⟨kept, ?_⟩
      intro raised raise
      obtain rfl := Except.error.inj raise
      exact harmless fault rfl

theorem take {result : Except Fault α} {f : α → Exec β} (a : α) (h : result = .ok a)
    (hf : Sound l (f a)) : Sound l (Exec.ofExcept result >>= f) := by
  subst h
  exact hf

theorem ite {c : Prop} [Decidable c] {x y : Exec α} (hx : Sound l x) (hy : Sound l y) :
    Sound l (if c then x else y) := by
  split
  · exact hx
  · exact hy

theorem look (view : State → α) : Sound l (Exec.look view) :=
  fun _ same => ⟨same, by simp [Exec.look]⟩

theorem layout {f : Layout → Exec β} (hf : Sound l (f l)) :
    Sound l (Exec.look State.layout >>= f) := by
  intro s same
  rw [bind_apply]
  simp only [Exec.look, same]
  exact hf s same

theorem readRegister (r : Register) : Sound l (Exec.readRegister r) :=
  fun _ same => ⟨same, by simp [Exec.readRegister, transfer]⟩

theorem writeRegister (r : Register) (value : Word) : Sound l (Exec.writeRegister r value) :=
  fun _ same => ⟨same, by simp [Exec.writeRegister, transfer]⟩

theorem print (text : List Char) : Sound l (Exec.print text) :=
  fun _ same => ⟨same, by simp [Exec.print, change]⟩

theorem jumpTo (target : Word) : Sound l (Machine.jumpTo target) :=
  fun _ same => ⟨same, by simp [Machine.jumpTo, bind_apply, change, pure_apply]⟩

theorem readMemory (address : Word) (length : Nat) (signed : Bool) :
    Sound l (Exec.readMemory address length signed) := by
  intro s same
  refine ⟨same, ?_⟩
  intro fault raise
  simp only [Exec.readMemory, transfer, Bus.readMemory, Memory.read, Memory.readUnsigned] at raise
  cases bytes : s.bus.memory.readBytes address length with
  | ok read => cases signed <;> simp [bytes, Except.map] at raise
  | error found =>
      have same : found = fault := by
        cases signed <;> simpa [bytes, Except.map] using raise
      rw [← same, Memory.readBytes_error bytes]
      exact not_false

theorem writeMemory (address value : Word) (length : Nat) :
    Sound l (Exec.writeMemory address value length) := by
  intro s same
  refine ⟨same, ?_⟩
  intro fault raise
  simp only [Exec.writeMemory, transfer, Bus.writeMemory] at raise
  split at raise
  · contradiction
  · next found write =>
      rw [← Except.error.inj raise, Memory.write_error write]
      exact not_false

theorem printFrom (left : Nat) (address : Word) : Sound l (Machine.printFrom left address) := by
  induction left generalizing address with
  | zero => exact bind (readMemory _ _ _) fun _ => pure _
  | succ left ih =>
      refine bind (readMemory _ _ _) fun byte => ite (pure _) ?_
      exact bind (print _) fun _ => ih _

theorem syscall : Sound l Machine.syscall := by
  refine bind (readRegister _) fun service => ?_
  refine ite ?_ (ite ?_ (ite (pure _) (ite ?_ (error not_false))))
  · exact bind (readRegister _) fun _ => bind (print _) fun _ => pure _
  · refine bind (readRegister _) fun address => bind (look _) fun memory => ?_
    exact bind (printFrom _ _) fun _ => pure _
  · exact bind (readRegister _) fun _ => bind (print _) fun _ => pure _

theorem valueAt {st : Statement} {index : Nat} {value : Operand}
    (found : st.operands[index]? = some value) (isValue : value.IsValue) :
    Sound l (Machine.valueAt st index) := by
  simp only [Machine.valueAt, found]
  cases value with
  | register r => exact readRegister r
  | integer n => exact pure _
  | string text | address a => simp [Operand.IsValue, Operand.kind] at isValue

theorem effectiveAddress {a : Address} (places : l.Places a) :
    Sound l (Machine.effectiveAddress a) := by
  have start : ∃ start, labelAddress l a = .ok start := by
    simp only [labelAddress]
    cases label : a.label with
    | none => exact ⟨0, rfl⟩
    | some name =>
        obtain ⟨word, found⟩ := places name label
        simp [found]
  obtain ⟨start, found⟩ := start
  refine layout (take start found ?_)
  cases a.base with
  | none => exact pure _
  | some r => exact bind (readRegister r) fun _ => pure _

theorem jump {place : Address} (places : l.Places place) :
    Sound l (do
      let target ← Machine.effectiveAddress place
      Machine.jumpTo target) :=
  bind (effectiveAddress places) fun target => jumpTo target

theorem writeResult (r : Register) (value : Word) :
    Sound l (do
      Exec.writeRegister r value
      return Completion.advance) :=
  bind (writeRegister r value) fun _ => pure _

/-- A checked statement shows no defect. The cases are the operands that its instruction takes. -/
theorem execute {st : Statement} (h : l.Checks st) : Sound l (Machine.execute st) := by
  obtain ⟨takes, places⟩ := h
  unfold Machine.execute
  generalize behaviour st.instruction = performed at takes ⊢
  generalize given : st.operands = operands at takes places
  cases takes with
  | nothing => exact pure _
  | service => exact syscall
  | arithmetic result target source isValue =>
      refine take target (by simp [registerAt, given]) ?_
      refine take source (by simp [registerAt, given]) ?_
      refine bind (readRegister source) fun a => ?_
      refine bind (valueAt (by rw [given]; rfl) isValue) fun b => ?_
      cases result a b with
      | none => exact error not_false
      | some value => exact writeResult target value
  | immediate result target value =>
      refine take (Word.ofInt value) (by simp [immediateAt, given]) ?_
      refine take target (by simp [registerAt, given]) ?_
      exact writeResult target _
  | loadAddress target place =>
      refine take place (by simp [addressAt, given]) ?_
      refine bind (effectiveAddress (places place (by simp))) fun address => ?_
      exact take target (by simp [registerAt, given]) (writeResult target address)
  | copy target source =>
      refine take source (by simp [registerAt, given]) ?_
      refine bind (readRegister source) fun value => ?_
      exact take target (by simp [registerAt, given]) (writeResult target value)
  | load width signed target place =>
      refine take target (by simp [registerAt, given]) ?_
      refine take place (by simp [addressAt, given]) ?_
      refine bind (effectiveAddress (places place (by simp))) fun address => ?_
      exact bind (readMemory address width signed) fun value => writeResult target value
  | store width source place =>
      refine take source (by simp [registerAt, given]) ?_
      refine bind (readRegister source) fun value => ?_
      refine take place (by simp [addressAt, given]) ?_
      refine bind (effectiveAddress (places place (by simp))) fun address => ?_
      exact bind (writeMemory address value width) fun _ => pure _
  | branch taken source place isValue =>
      refine take source (by simp [registerAt, given]) ?_
      refine bind (readRegister source) fun a => ?_
      rw [branchOperands, if_neg (by simp [given]), bind_assoc]
      refine bind (valueAt (by rw [given]; rfl) isValue) fun b => ?_
      rw [bind_assoc]
      refine take place (by simp [addressAt, given]) ?_
      rw [pure_bind]
      exact ite (jump (places place (by simp))) (pure _)
  | branchZero taken source place =>
      refine take source (by simp [registerAt, given]) ?_
      refine bind (readRegister source) fun a => ?_
      rw [branchOperands, if_pos (by simp [given]), bind_assoc]
      refine take place (by simp [addressAt, given]) ?_
      rw [pure_bind]
      exact ite (jump (places place (by simp))) (pure _)
  | jump links place =>
      refine take place (by simp [addressAt, given]) ?_
      refine bind (effectiveAddress (places place (by simp))) fun target => ?_
      refine ite ?_ (jumpTo target)
      exact bind (look _) fun next => bind (writeRegister _ _) fun _ => jumpTo target
  | jumpRegister source =>
      refine take source (by simp [registerAt, given]) ?_
      refine bind (readRegister source) fun _ => ?_
      exact fun _ same => ⟨same, by simp [bind_apply, change, pure_apply]⟩

end Sound

end Exec

namespace State

/-- A machine whose statements are all checked, and which has not shown a defect. -/
structure Checked (s : State) : Prop where
  statements : ∀ index statement, s.program.text.get? index = some statement →
    s.layout.Checks statement
  run : ∀ fault, s.run = .faulted fault → ¬fault.IsDefect

theorem error_of_complete {line : Option Nat} {executed : Except Fault Completion × State}
    {fault : Fault} (h : (complete line executed).1 = .faulted fault) :
    executed.1 = .error fault := by
  match executed with
  | (.ok .advance, _) | (.ok .jumped, _) | (.ok .exit, _) => contradiction
  | (.error raised, _) => exact congrArg Except.error (Outcome.faulted.inj h)

theorem Checked.outcome {s : State} (h : s.Checked) {fault : Fault}
    (raise : s.step.1 = .faulted fault) : ¬fault.IsDefect := by
  by_cases running : s.run = .running
  · have cycle := cycle_of_running running
    generalize s.step = next at cycle raise
    cases cycle with
    | astray _ | missing _ _ _ =>
        obtain rfl := Outcome.faulted.inj raise
        exact not_false
    | finished _ => contradiction
    | executed index statement slot found =>
        have sound := Exec.Sound.execute (h.statements index statement found)
        exact (sound (s.fetch.decode index) rfl).2 fault (error_of_complete raise)
  · have stopped : s.run = .faulted fault := by
      rw [← step_of_stopped running, run_step, raise, Outcome.run]
    exact h.run fault stopped

theorem Checked.step {s : State} (h : s.Checked) : s.step.2.Checked := by
  have same := sameSetup_step s
  refine ⟨?_, ?_⟩
  · rw [same.program, same.layout]
    exact h.statements
  · intro fault run
    rw [run_step] at run
    apply h.outcome
    cases outcome : s.step.1 with
    | retired | halted reason => simp [outcome, Outcome.run] at run
    | faulted raised => simpa [outcome, Outcome.run] using run

theorem Checked.after {s : State} (h : s.Checked) (n : Nat) : (s.after n).Checked :=
  after_induction Checked (fun _ => Checked.step) h n

end State

end Mips.Machine
