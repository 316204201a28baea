import Mips.Proofs.Machine.Phases

/-!
What the execution of a statement is composed of. Every statement, well formed or not, is a
composition of a dozen operations, so a property of computations that holds of these and survives
composition holds of every statement. The first use is the frame: a statement changes nothing but
the bus, the control unit and the console.
-/
namespace Mips.Machine.Exec

/-- A computation that is composed of the operations of the machine. -/
inductive Composed : {α : Type} → Exec α → Prop
  | pure {α : Type} (a : α) : Composed (Pure.pure a : Exec α)
  | ofExcept {α : Type} (result : Except Fault α) : Composed (Exec.ofExcept result)
  | bind {α β : Type} {x : Exec α} {f : α → Exec β} :
      Composed x → (∀ a, Composed (f a)) → Composed (x >>= f)
  | layout : Composed (look State.layout)
  | bytesLeft (address : Word) :
      Composed (look fun s => Machine.bytesLeft s.bus.memory address)
  | nextAddress : Composed (look fun s => s.control.pc + 4)
  | readRegister (r : Register) : Composed (Exec.readRegister r)
  | writeRegister (r : Register) (value : Word) : Composed (Exec.writeRegister r value)
  | readMemory (address : Word) (length : Nat) (signed : Bool) :
      Composed (Exec.readMemory address length signed)
  | writeMemory (address value : Word) (length : Nat) :
      Composed (Exec.writeMemory address value length)
  | print (text : List Char) : Composed (Exec.print text)
  | jumpTo (target : Word) : Composed (Machine.jumpTo target)
  /- The value of the register reaches the program counter through the transport slot, so reading
  and jumping are one operation. -/
  | jumpToRegister (r : Register) :
      Composed (do
        let _ ← Exec.readRegister r
        change fun s =>
          let (control, bus) := s.bus.sendControl s.control
          { s with control := control.jump, bus }
        return Completion.jumped)

variable {α : Type}

namespace Composed

theorem ite {c : Prop} [Decidable c] {x y : Exec α} (hx : Composed x) (hy : Composed y) :
    Composed (if c then x else y) := by
  split
  · exact hx
  · exact hy

theorem ofPassive {x : Exec α} (h : Passive x) : Composed x := by
  induction h with
  | pure a => exact .pure a
  | ofExcept result => exact .ofExcept result
  | bind _ _ ihx ihf => exact .bind ihx ihf
  | layout => exact .layout
  | bytesLeft address => exact .bytesLeft address
  | readRegister r => exact .readRegister r
  | readMemory address length signed => exact .readMemory address length signed
  | print text => exact .print text

theorem effectiveAddress (a : Address) : Composed (Machine.effectiveAddress a) :=
  ofPassive (.effectiveAddress a)

theorem printString (address : Word) :
    Composed (do
      let memory ← look fun s => s.bus.memory
      Machine.printFrom (Machine.bytesLeft memory address) address
      return Completion.advance) := by
  have printed := ofPassive (.printString address)
  have composed := Composed.bind printed fun _ => .pure Completion.advance
  exact composed

theorem syscall : Composed Machine.syscall := by
  refine .bind (.readRegister _) fun service => ?_
  refine ite ?_ (ite ?_ (ite (.pure _) (ite ?_ (.ofExcept _))))
  · exact .bind (.readRegister _) fun _ => .bind (.print _) fun _ => .pure _
  · exact .bind (.readRegister _) fun address => printString address
  · exact .bind (.readRegister _) fun _ => .bind (.print _) fun _ => .pure _

/-- What a statement ends with if it has a result for a register. -/
theorem writeResult (r : Register) (value : Word) :
    Composed (do
      Exec.writeRegister r value
      return Completion.advance) :=
  .bind (.writeRegister r value) fun _ => .pure _

theorem execute (st : Statement) : Composed (Machine.execute st) := by
  unfold Machine.execute
  cases behaviour st.instruction with
  | nothing => exact .pure _
  | service => exact syscall
  | arithmetic result =>
      refine .bind (.ofExcept _) fun target => .bind (.ofExcept _) fun source => ?_
      refine .bind (.readRegister source) fun a => .bind (.ofPassive (.valueAt st 2)) fun b => ?_
      cases result a b with
      | none => exact .ofExcept _
      | some value => exact writeResult target value
  | immediate result =>
      refine .bind (.ofExcept _) fun value => .bind (.ofExcept _) fun target => ?_
      exact writeResult target (result value)
  | loadAddress =>
      refine .bind (.ofExcept _) fun place => .bind (effectiveAddress place) fun address => ?_
      exact .bind (.ofExcept _) fun target => writeResult target address
  | copy =>
      refine .bind (.ofExcept _) fun source => .bind (.readRegister source) fun value => ?_
      exact .bind (.ofExcept _) fun target => writeResult target value
  | load width signed =>
      refine .bind (.ofExcept _) fun target => .bind (.ofExcept _) fun place => ?_
      refine .bind (effectiveAddress place) fun address => ?_
      exact .bind (.readMemory address width signed) fun value => writeResult target value
  | store width =>
      refine .bind (.ofExcept _) fun source => .bind (.readRegister source) fun value => ?_
      refine .bind (.ofExcept _) fun place => .bind (effectiveAddress place) fun address => ?_
      exact .bind (.writeMemory address value width) fun _ => .pure _
  | branch taken =>
      refine .bind (.ofExcept _) fun source => .bind (.readRegister source) fun a => ?_
      refine .bind (.ofPassive (.branchOperands st)) fun compared => ite ?_ (.pure _)
      exact .bind (effectiveAddress _) fun target => .jumpTo target
  | jump links =>
      refine .bind (.ofExcept _) fun place => .bind (effectiveAddress place) fun target => ?_
      refine ite ?_ (.jumpTo target)
      exact .bind .nextAddress fun next => .bind (.writeRegister _ _) fun _ => .jumpTo target
  | jumpRegister => exact .bind (.ofExcept _) fun source => .jumpToRegister source

end Composed

/-- Nothing but the bus, the control unit and the console differs. -/
def Local (s t : State) : Prop :=
  ∃ bus control console, t = { s with bus, control, console }

theorem Local.refl (s : State) : Local s s :=
  ⟨s.bus, s.control, s.console, rfl⟩

theorem Local.trans {s t u : State} (h : Local s t) (k : Local t u) : Local s u := by
  obtain ⟨_, _, _, rfl⟩ := h
  obtain ⟨bus, control, console, rfl⟩ := k
  exact ⟨bus, control, console, rfl⟩

theorem Composed.local {x : Exec α} (h : Composed x) (s : State) : Local s (x s).2 := by
  induction h generalizing s with
  | pure a | ofExcept result | layout | bytesLeft _ | nextAddress => exact Local.refl s
  | bind _ _ ihx ihf =>
      rename_i x f _ _
      rw [bind_apply]
      have first := ihx s
      rcases hx : x s with ⟨result, t⟩
      rw [hx] at first
      cases result with
      | ok a => exact first.trans (ihf a t)
      | error fault => exact first
  | readRegister r | writeRegister r value | print text | jumpTo target | jumpToRegister r =>
      exact ⟨_, _, _, rfl⟩
  | readMemory address length signed | writeMemory address value length => exact ⟨_, _, _, rfl⟩

theorem execute_local (st : Statement) (s : State) : Local s (execute st s).2 :=
  (Composed.execute st).local s

end Mips.Machine.Exec
