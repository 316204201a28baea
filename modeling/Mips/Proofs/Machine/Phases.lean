import Mips.Machine.Execution

/-!
The phases of a statement. Every statement, well formed or not, first asks for what it needs and
then does one thing: it gives a register its result, stores a word, moves the program counter, or
nothing of these. What asks leaves registers, memory and the program counter alone; all that a
statement changes in them it changes at its end.
-/
namespace Mips

open Machine in
/-- The register that a statement has a result for: its first operand, or the one that links. -/
def Statement.Writes (st : Statement) (r : Register) : Prop :=
  match behaviour st.instruction with
  | .arithmetic _ | .immediate _ | .loadAddress | .copy | .load _ _ => registerAt st 0 = .ok r
  | .jump true => r = .ra
  | .nothing | .service | .store _ | .branch _ | .jump false | .jumpRegister => False

namespace Machine.Exec

/-- A computation that only asks: it is composed of operations that read and print. -/
inductive Passive : {α : Type} → Exec α → Prop
  | pure {α : Type} (a : α) : Passive (Pure.pure a : Exec α)
  | ofExcept {α : Type} (result : Except Fault α) : Passive (Exec.ofExcept result)
  | bind {α β : Type} {x : Exec α} {f : α → Exec β} :
      Passive x → (∀ a, Passive (f a)) → Passive (x >>= f)
  | layout : Passive (look State.layout)
  | bytesLeft (address : Word) :
      Passive (look fun s => Machine.bytesLeft s.bus.memory address)
  | readRegister (r : Register) : Passive (Exec.readRegister r)
  | readMemory (address : Word) (length : Nat) (signed : Bool) :
      Passive (Exec.readMemory address length signed)
  | print (text : List Char) : Passive (Exec.print text)

namespace Passive

theorem ite {α : Type} {c : Prop} [Decidable c] {x y : Exec α} (hx : Passive x) (hy : Passive y) :
    Passive (if c then x else y) := by
  split
  · exact hx
  · exact hy

theorem valueAt (st : Statement) (index : Nat) : Passive (Machine.valueAt st index) := by
  unfold Machine.valueAt
  split
  · exact .readRegister _
  · exact .pure _
  · exact .ofExcept _

theorem effectiveAddress (a : Address) : Passive (Machine.effectiveAddress a) := by
  refine .bind .layout fun layout => .bind (.ofExcept _) fun start => ?_
  cases a.base with
  | none => exact .pure _
  | some r => exact .bind (.readRegister r) fun _ => .pure _

theorem printFrom (left : Nat) (address : Word) : Passive (Machine.printFrom left address) := by
  induction left generalizing address with
  | zero => exact .bind (.readMemory _ _ _) fun _ => .pure _
  | succ left ih =>
      refine .bind (.readMemory _ _ _) fun byte => ite (.pure _) ?_
      exact .bind (.print _) fun _ => ih _

/-- How many bytes are left is all that printing a string looks up in memory beforehand. -/
theorem printString (address : Word) :
    Passive (do
      let memory ← look fun s => s.bus.memory
      Machine.printFrom (Machine.bytesLeft memory address) address) := by
  have passive := Passive.bind (.bytesLeft address) fun left => printFrom left address
  exact passive

theorem branchOperands (st : Statement) : Passive (Machine.branchOperands st) := by
  refine ite ?_ ?_
  · exact .bind (.ofExcept _) fun _ => .pure _
  · exact .bind (valueAt st 1) fun _ => .bind (.ofExcept _) fun _ => .pure _

end Passive

/-- A computation that asks, and ends with one thing that the statement can do. -/
inductive Phased (st : Statement) : Exec Completion → Prop
  | ask {α : Type} {x : Exec α} {f : α → Exec Completion} :
      Passive x → (∀ s a, (x s).1 = .ok a → Phased st (f a)) → Phased st (x >>= f)
  | straight {completion : Completion} :
      completion ≠ .jumped → Phased st (Pure.pure completion)
  | fault (fault : Fault) : Phased st (Exec.ofExcept (.error fault))
  | result {target : Register} (value : Word) :
      st.Writes target → Phased st (do
        Exec.writeRegister target value
        return .advance)
  | store (address value : Word) {width : Nat} :
      behaviour st.instruction = .store width → Phased st (do
        Exec.writeMemory address value width
        return .advance)
  | jump (target : Word) : Phased st (Machine.jumpTo target)
  | link (target : Word) :
      st.Writes .ra → Phased st (do
        let next ← look fun s => s.control.pc + 4
        Exec.writeRegister .ra next
        Machine.jumpTo target)
  | jumpToRegister (r : Register) :
      Phased st (do
        let _ ← Exec.readRegister r
        change fun s =>
          let (control, bus) := s.bus.sendControl s.control
          { s with control := control.jump, bus }
        return .jumped)

namespace Phased

variable {st : Statement}

theorem advance : Phased st (Pure.pure .advance) :=
  straight nofun

theorem ite {c : Prop} [Decidable c] {x y : Exec Completion} (hx : Phased st x)
    (hy : Phased st y) : Phased st (if c then x else y) := by
  split
  · exact hx
  · exact hy

theorem printString (address : Word) :
    Phased st (do
      let memory ← look fun s => s.bus.memory
      printFrom (Machine.bytesLeft memory address) address
      return .advance) := by
  have phased : Phased st _ := ask (.printString address) fun _ _ _ => advance
  exact phased

theorem syscall : Phased st Machine.syscall := by
  refine ask (.readRegister _) fun _ service _ => ite ?_ (ite ?_ (ite ?_ (ite ?_ (fault _))))
  · exact ask (.readRegister _) fun _ _ _ => ask (.print _) fun _ _ _ => advance
  · exact ask (.readRegister _) fun _ address _ => printString address
  · exact straight nofun
  · exact ask (.readRegister _) fun _ _ _ => ask (.print _) fun _ _ _ => advance

theorem execute (st : Statement) : Phased st (Machine.execute st) := by
  unfold Machine.execute
  cases performed : behaviour st.instruction with
  | nothing => exact advance
  | service => exact syscall
  | arithmetic function =>
      refine ask (.ofExcept _) fun _ target operand => ask (.ofExcept _) fun _ source _ => ?_
      refine ask (.readRegister source) fun _ a _ => ask (.valueAt st 2) fun _ b _ => ?_
      cases function a b with
      | none => exact fault _
      | some value => exact result value (by rw [Statement.Writes, performed]; exact operand)
  | immediate function =>
      refine ask (.ofExcept _) fun _ value _ => ask (.ofExcept _) fun _ target operand => ?_
      exact result (function value) (by rw [Statement.Writes, performed]; exact operand)
  | loadAddress =>
      refine ask (.ofExcept _) fun _ place _ => ask (.effectiveAddress place) fun _ address _ => ?_
      refine ask (.ofExcept _) fun _ target operand => ?_
      exact result address (by rw [Statement.Writes, performed]; exact operand)
  | copy =>
      refine ask (.ofExcept _) fun _ source _ => ask (.readRegister source) fun _ value _ => ?_
      refine ask (.ofExcept _) fun _ target operand => ?_
      exact result value (by rw [Statement.Writes, performed]; exact operand)
  | load width signed =>
      refine ask (.ofExcept _) fun _ target operand => ask (.ofExcept _) fun _ place _ => ?_
      refine ask (.effectiveAddress place) fun _ address _ => ?_
      refine ask (.readMemory address width signed) fun _ value _ => ?_
      exact result value (by rw [Statement.Writes, performed]; exact operand)
  | store width =>
      refine ask (.ofExcept _) fun _ source _ => ask (.readRegister source) fun _ value _ => ?_
      refine ask (.ofExcept _) fun _ place _ => ask (.effectiveAddress place) fun _ address _ => ?_
      exact store address value performed
  | branch taken =>
      refine ask (.ofExcept _) fun _ source _ => ask (.readRegister source) fun _ a _ => ?_
      refine ask (.branchOperands st) fun _ compared _ => ite ?_ advance
      exact ask (.effectiveAddress _) fun _ target _ => jump target
  | jump links =>
      refine ask (.ofExcept _) fun _ place _ => ask (.effectiveAddress place) fun _ target _ => ?_
      cases links with
      | true => exact link target (by rw [Statement.Writes, performed])
      | false => exact jump target
  | jumpRegister => exact ask (.ofExcept _) fun _ source _ => jumpToRegister source

end Phased

end Machine.Exec

end Mips
