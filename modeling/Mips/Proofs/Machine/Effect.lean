import Mips.Proofs.Machine.Printing

/-!
What the execution of a statement does to what is visible. Any statement, well formed or not, ends
in one of a few ways, and in each it changes at most one register, or memory, or the console, or
moves the program counter. What it changes it changes last, so a statement that faults has changed
nothing; only a string is printed before the fault.
-/
namespace Mips.Machine

/-- The instructions of a class that has a result for the register in the first operand. -/
def Behaviour.hasResult : Behaviour → Bool
  | .arithmetic _ | .immediate _ | .loadAddress | .copy | .load _ _ => true
  | .nothing | .service | .store _ | .branch _ | .jump _ | .jumpRegister => false

theorem behaviour_eq_service_iff {i : Instruction} : behaviour i = .service ↔ i = .syscall := by
  cases i <;> simp [behaviour]

theorem getElem?_of_registerAt {st : Statement} {index : Nat} {r : Register}
    (found : registerAt st index = .ok r) : st.operands[index]? = some (.register r) := by
  simp only [registerAt] at found
  split at found
  · next operand =>
      cases found
      exact operand
  · contradiction

theorem getElem?_of_addressAt {st : Statement} {index : Nat} {a : Address}
    (found : addressAt st index = .ok a) : st.operands[index]? = some (.address a) := by
  simp only [addressAt] at found
  split at found
  · next operand =>
      cases found
      exact operand
  · contradiction

/-- The statement asks for the service that prints a string. -/
def Visible.PrintsString (v : Visible) (st : Statement) : Prop :=
  st.instruction = .syscall ∧ v.registers.get .v0 = 4

/-- Where a string that is printed leaves memory: after some bytes without a zero among them. -/
structure Visible.RunsOut (v : Visible) (bytes : List Byte) : Prop where
  spells : v.memory.Spells (v.registers.get .a0) bytes
  outside : v.memory.byte? (addressFrom (v.registers.get .a0) bytes.length) = none

/-- The fault of the read after some bytes of a string. -/
def Visible.rangeFault (v : Visible) (bytes : List Byte) : Fault :=
  .memoryOutOfRange (addressFrom (v.registers.get .a0) bytes.length) 1

inductive Effect (st : Statement) (v : Visible) : Except Fault Completion → Visible → Prop
  | faulted (fault : Fault) (raised : fault.IsRaised) (silent : ¬v.PrintsString st) :
      Effect st v (.error fault) v
  | ranOut (bytes : List Byte) (prints : v.PrintsString st) (runsOut : v.RunsOut bytes) :
      Effect st v (.error (v.rangeFault bytes)) (v.print bytes)
  | exited (service : st.instruction = .syscall) (exit : v.registers.get .v0 = 10) :
      Effect st v (.ok .exit) v
  | idle : Effect st v (.ok .advance) v
  | printed (text : String) (service : st.instruction = .syscall) :
      Effect st v (.ok .advance) { v with console := v.console ++ text }
  | computed (target : Register) (value : Word)
      (hasResult : (behaviour st.instruction).hasResult = true)
      (operand : registerAt st 0 = .ok target) :
      Effect st v (.ok .advance) { v with registers := v.registers.set target value }
  | stored (address value : Word) (width : Nat) (memory : Memory)
      (stores : behaviour st.instruction = .store width)
      (written : v.memory.write address (value.lowBytes width) = .ok memory) :
      Effect st v (.ok .advance) { v with memory }
  | jumped (target : Word) : Effect st v (.ok .jumped) { v with pc := target }
  | linked (target : Word) (links : behaviour st.instruction = .jump true) :
      Effect st v (.ok .jumped)
        { v with pc := target, registers := v.registers.set .ra (v.pc + 4) }

namespace Effect

variable {st : Statement} {v w : Visible}

theorem isRaised {fault : Fault} (h : Effect st v (.error fault) w) : fault.IsRaised := by
  cases h with
  | faulted _ raised _ => exact raised
  | ranOut _ _ _ => trivial

theorem of_exit (h : Effect st v (.ok .exit) w) :
    st.instruction = .syscall ∧ v.registers.get .v0 = 10 := by
  cases h with
  | exited service exit => exact ⟨service, exit⟩

end Effect

namespace Exec

variable {st : Statement} {v : Visible} {α : Type}

/-- On machines that look the same, the computation has an effect that the statement can have. -/
def Leads (st : Statement) (v : Visible) (x : Exec Completion) : Prop :=
  ∀ s, s.visible = v → Effect st v (x s).1 (x s).2.visible

namespace Leads

theorem idle : Leads st v (pure .advance) := by
  intro s same
  subst same
  exact .idle

theorem jumpTo (target : Word) : Leads st v (Machine.jumpTo target) := by
  intro s same
  subst same
  exact .jumped target

theorem bind {x : Exec α} {f : α → Exec Completion} (quiet : x.Quiet)
    (silent : ¬v.PrintsString st)
    (hf : ∀ s a, s.visible = v → (x s).1 = .ok a → Leads st v (f a)) :
    Leads st v (x >>= f) := by
  intro s same
  have kept := (quiet.visible s).trans same
  have raised := quiet.raises s
  have answer := hf s
  rw [bind_apply]
  rcases hs : x s with ⟨result, t⟩
  rw [hs] at kept raised answer
  cases result with
  | ok a => exact answer a same rfl t kept
  | error fault =>
      subst kept
      exact .faulted fault (raised fault rfl) silent

theorem readRegister {r : Register} {f : Word → Exec Completion}
    (hf : Leads st v (f (v.registers.get r))) : Leads st v (Exec.readRegister r >>= f) := by
  intro s same
  subst same
  exact hf _ rfl

theorem writeResult {target : Register} (value : Word)
    (hasResult : (behaviour st.instruction).hasResult = true)
    (operand : registerAt st 0 = .ok target) :
    Leads st v (do
      Exec.writeRegister target value
      return .advance) := by
  intro s same
  subst same
  exact .computed target value hasResult operand

theorem print (text : List Char) (service : st.instruction = .syscall) :
    Leads st v (do
      Exec.print text
      return .advance) := by
  intro s same
  subst same
  exact .printed (String.ofList text) service

theorem printString (prints : v.PrintsString st) :
    Leads st v (do
      let address ← Exec.readRegister .a0
      let memory ← look fun s => s.bus.memory
      printFrom (bytesLeft memory address) address
      return .advance) := by
  refine readRegister ?_
  intro s same
  subst same
  simp only [bind_apply, look, pure_apply]
  obtain ⟨bytes, spells, ended, shown⟩ := printFrom_prints _ (s.visible.registers.get .a0) s
    (covers_bytesLeft s.bus.memory (s.visible.registers.get .a0))
  rcases hs : printFrom (bytesLeft s.bus.memory (s.visible.registers.get .a0))
    (s.visible.registers.get .a0) s with ⟨result, t⟩
  rw [hs] at ended shown
  simp only at shown
  cases ended with
  | ended zero =>
      rw [shown]
      exact .printed (String.ofList (bytes.map character)) prints.1
  | ranOut outside =>
      rw [shown]
      exact .ranOut bytes prints ⟨spells, outside⟩

theorem syscall (service : st.instruction = .syscall) : Leads st v Machine.syscall := by
  refine readRegister ?_
  split
  · exact readRegister (print _ service)
  · split
    · next string => exact printString ⟨service, string⟩
    · next other =>
        have silent : ¬v.PrintsString st := fun prints => other prints.2
        split
        · next exit =>
            intro s same
            subst same
            exact .exited service exit
        · split
          · exact readRegister (print _ service)
          · intro s same
            subst same
            exact .faulted _ trivial silent

theorem fault {raised : Fault} (h : raised.IsRaised) (silent : ¬v.PrintsString st) :
    Leads st v (ofExcept (.error raised)) := by
  intro s same
  subst same
  exact .faulted raised h silent

theorem store (address value : Word) {width : Nat}
    (stores : behaviour st.instruction = .store width) (silent : ¬v.PrintsString st) :
    Leads st v (do
      Exec.writeMemory address value width
      return .advance) := by
  intro s same
  subst same
  simp only [bind_apply, pure_apply, Exec.writeMemory, transfer, Bus.writeMemory]
  cases written : s.bus.memory.write address (value.lowBytes width) with
  | ok memory => exact .stored address value width memory stores written
  | error raised =>
      rw [Memory.write_error written]
      exact .faulted _ trivial silent

theorem jump {place : Address} (silent : ¬v.PrintsString st) :
    Leads st v (do
      let target ← Machine.effectiveAddress place
      Machine.jumpTo target) :=
  bind (.effectiveAddress place) silent fun _ target _ _ => jumpTo target

theorem link (target : Word) (links : behaviour st.instruction = .jump true) :
    Leads st v (do
      let next ← look fun s => s.control.pc + 4
      Exec.writeRegister .ra next
      Machine.jumpTo target) := by
  intro s same
  subst same
  exact .linked target links

/-- The value of the register comes out of the transport slot, into which it was just read. -/
theorem jumpToRegister (r : Register) :
    Leads st v (do
      let _ ← Exec.readRegister r
      change fun s =>
        let (control, bus) := s.bus.sendControl s.control
        { s with control := control.jump, bus }
      return .jumped) := by
  intro s same
  subst same
  exact .jumped (s.bus.registers.get r)

/-- A statement that is no system call asks and looks first, and changes at most one thing last. -/
theorem execute (st : Statement) (v : Visible) : Leads st v (Machine.execute st) := by
  by_cases service : st.instruction = .syscall
  · have performed : behaviour st.instruction = .service := behaviour_eq_service_iff.mpr service
    simp only [Machine.execute, performed]
    exact syscall service
  have silent : ¬v.PrintsString st := fun prints => service prints.1
  unfold Machine.execute
  cases performed : behaviour st.instruction with
  | service => exact absurd (behaviour_eq_service_iff.mp performed) service
  | nothing => exact idle
  | arithmetic result =>
      refine bind (.registerAt st 0) silent fun _ target _ operand => ?_
      refine bind (.registerAt st 1) silent fun _ source _ _ => ?_
      refine bind (.readRegister source) silent fun _ a _ _ => ?_
      refine bind (.valueAt st 2) silent fun _ b _ _ => ?_
      cases result a b with
      | none => exact fault trivial silent
      | some value => exact writeResult value (by rw [performed]; rfl) operand
  | immediate result =>
      refine bind (.immediateAt st 1) silent fun _ value _ _ => ?_
      refine bind (.registerAt st 0) silent fun _ target _ operand => ?_
      exact writeResult (result value) (by rw [performed]; rfl) operand
  | loadAddress =>
      refine bind (.addressAt st 1) silent fun _ place _ _ => ?_
      refine bind (.effectiveAddress place) silent fun _ address _ _ => ?_
      refine bind (.registerAt st 0) silent fun _ target _ operand => ?_
      exact writeResult address (by rw [performed]; rfl) operand
  | copy =>
      refine bind (.registerAt st 1) silent fun _ source _ _ => ?_
      refine bind (.readRegister source) silent fun _ value _ _ => ?_
      refine bind (.registerAt st 0) silent fun _ target _ operand => ?_
      exact writeResult value (by rw [performed]; rfl) operand
  | load width signed =>
      refine bind (.registerAt st 0) silent fun _ target _ operand => ?_
      refine bind (.addressAt st 1) silent fun _ place _ _ => ?_
      refine bind (.effectiveAddress place) silent fun _ address _ _ => ?_
      refine bind (.readMemory address width signed) silent fun _ value _ _ => ?_
      exact writeResult value (by rw [performed]; rfl) operand
  | store width =>
      refine bind (.registerAt st 0) silent fun _ source _ _ => ?_
      refine bind (.readRegister source) silent fun _ value _ _ => ?_
      refine bind (.addressAt st 1) silent fun _ place _ _ => ?_
      refine bind (.effectiveAddress place) silent fun _ address _ _ => ?_
      exact store address value performed silent
  | branch taken =>
      refine bind (.registerAt st 0) silent fun _ source _ _ => ?_
      refine bind (.readRegister source) silent fun _ a _ _ => ?_
      refine bind (.branchOperands st) silent fun _ ⟨b, place⟩ _ _ => ?_
      change Leads st v (if taken a b then _ else _)
      split
      · exact jump silent
      · exact idle
  | jump links =>
      refine bind (.addressAt st 0) silent fun _ place _ _ => ?_
      refine bind (.effectiveAddress place) silent fun _ target _ _ => ?_
      cases links with
      | true => exact link target performed
      | false => exact jumpTo target
  | jumpRegister =>
      refine bind (.registerAt st 0) silent fun _ source _ _ => ?_
      exact jumpToRegister source

end Leads

end Exec

/-- Every statement has one of the effects. -/
theorem effect_execute (st : Statement) (s : State) :
    Effect st s.visible (execute st s).1 (execute st s).2.visible :=
  Exec.Leads.execute st s.visible s rfl

namespace State

/-- The statement that the program counter stands at. -/
def current? (s : State) : Option Statement :=
  match s.layout.textSlot? s.control.pc with
  | some (.statement index) => s.program.text.get? index
  | _ => none

theorem current?_of_slot {s : State} {index : Nat}
    (slot : s.layout.textSlot? s.control.pc = some (.statement index)) :
    s.current? = s.program.text.get? index := by
  simp only [current?, slot]

theorem visible_complete (line : Option Nat) {result : Except Fault Completion} (s : State)
    (stopped : (complete line (result, s)).1 ≠ .retired) :
    (complete line (result, s)).2.visible = s.visible := by
  match result with
  | .ok .advance | .ok .jumped => exact absurd rfl stopped
  | .ok .exit | .error _ => rfl

end State

end Mips.Machine
