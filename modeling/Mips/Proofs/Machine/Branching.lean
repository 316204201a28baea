import Mips.Proofs.Machine.Evaluation

/-!
Branches and jumps. Where a statement sends the program counter is told by its operands and by what
is visible before it, on three routes that the machine takes: to the next statement, to the place of
an address, or to what a register holds. Of two branches with opposite conditions, exactly one
jumps.
-/
namespace Mips

/-- How an instruction goes on. A branch compares signed integers. -/
inductive Route
  | branch (holds : Int → Int → Bool)
  | jump
  | link
  | register

namespace Instruction

def route? : Instruction → Option Route
  | beq | beqz => some (.branch fun first second => first = second)
  | bne | bnez => some (.branch fun first second => first ≠ second)
  | blt => some (.branch fun first second => first < second)
  | bgt => some (.branch fun first second => second < first)
  | ble => some (.branch fun first second => first ≤ second)
  | bge => some (.branch fun first second => second ≤ first)
  | j | b => some .jump
  | jal => some .link
  | jr => some .register
  | _ => none

/-- The branch with the opposite condition. -/
def opposite? : Instruction → Option Instruction
  | beq => some bne
  | bne => some beq
  | blt => some bge
  | bge => some blt
  | ble => some bgt
  | bgt => some ble
  | beqz => some bnez
  | bnez => some beqz
  | _ => none

end Instruction

namespace Machine

namespace Visible

/-- What a branch with these operands compares, and the address to which it goes. With two operands
the comparison is with zero. -/
def comparison? (v : Visible) : List Operand → Option (Int × Int × Address)
  | [.register r, .address a] => some ((v.registers.get r).toInt, 0, a)
  | [.register r, value, .address a] =>
      (v.registers.value? value).map fun w => ((v.registers.get r).toInt, w.toInt, a)
  | _ => none

/-- Where a statement with these operands sends the program counter. -/
def next? (l : Layout) (v : Visible) (operands : List Operand) : Route → Option Word
  | .branch holds => (v.comparison? operands).map fun (first, second, a) =>
      if holds first second then v.place l a else v.pc + 4
  | .jump | .link =>
      match operands with
      | [.address a] => some (v.place l a)
      | _ => none
  | .register =>
      match operands with
      | [.register r] => some (v.registers.get r)
      | _ => none

end Visible

theorem behaviour_branch {i : Instruction} {holds : Int → Int → Bool}
    (h : i.route? = some (.branch holds)) :
    ∃ taken, behaviour i = .branch taken ∧ ∀ a b, taken a b = holds a.toInt b.toInt := by
  cases i with
  | beq | beqz =>
      cases h
      exact ⟨_, rfl, fun _ _ => decide_eq_decide.mpr BitVec.toInt_inj.symm⟩
  | bne | bnez =>
      cases h
      exact ⟨_, rfl, fun _ _ => (decide_not.symm.trans
        (decide_eq_decide.mpr (not_congr BitVec.toInt_inj.symm)))⟩
  | blt | bgt | ble | bge =>
      cases h
      exact ⟨_, rfl, fun _ _ => rfl⟩
  | _ => cases h

theorem behaviour_jump {i : Instruction} (h : i.route? = some .jump) :
    behaviour i = .jump false := by
  cases i with
  | j | b => rfl
  | _ => cases h

theorem eq_jal {i : Instruction} (h : i.route? = some .link) : i = .jal := by
  cases i with
  | jal => rfl
  | _ => cases h

theorem eq_jr {i : Instruction} (h : i.route? = some .register) : i = .jr := by
  cases i with
  | jr => rfl
  | _ => cases h

namespace Exec

variable {l : Layout} {v w : Visible} {st : Statement} {r : Register} {a : Address} {b : Word}

/-- What a branch compares is what it reads. -/
theorem Answers.branchOperands {first second : Int}
    (compares : v.comparison? st.operands = some (first, second, a)) :
    ∃ r b, st.operands[0]? = some (.register r) ∧ first = (v.registers.get r).toInt ∧
      second = b.toInt ∧ Answers l v (Machine.branchOperands st) (b, a) := by
  simp only [Visible.comparison?] at compares
  split at compares
  · next r place operands =>
      cases compares
      refine ⟨r, 0, by rw [operands]; rfl, rfl, rfl, ?_⟩
      simp only [Machine.branchOperands, operands]
      exact bind (addressAt (by rw [operands]; rfl)) (pure _)
  · next r value place operands =>
      obtain ⟨w, read, found⟩ := Option.map_eq_some_iff.mp compares
      cases found
      refine ⟨r, w, by rw [operands]; rfl, rfl, rfl, ?_⟩
      simp only [Machine.branchOperands, operands]
      exact bind (valueAt (by rw [operands]; rfl) read)
        (bind (addressAt (by rw [operands]; rfl)) (pure _))
  · contradiction

namespace Ends

theorem jumpTo (target : Word) :
    Ends l v (Machine.jumpTo target) (.ok .jumped) { v with pc := target } := by
  intro s same _
  subst same
  exact ⟨rfl, rfl⟩

theorem link (target : Word) :
    Ends l v (do
      let next ← look fun s => s.control.pc + 4
      Exec.writeRegister .ra next
      Machine.jumpTo target) (.ok .jumped)
      { v with pc := target, registers := v.registers.set .ra (v.pc + 4) } := by
  intro s same _
  subst same
  exact ⟨rfl, rfl⟩

/-- The value of the register comes out of the transport slot, into which it was just read. -/
theorem jumpToRegister (r : Register) :
    Ends l v (do
      let _ ← Exec.readRegister r
      change fun s =>
        let (control, bus) := s.bus.sendControl s.control
        { s with control := control.jump, bus }
      return .jumped) (.ok .jumped) { v with pc := v.registers.get r } := by
  intro s same _
  subst same
  exact ⟨rfl, rfl⟩

/-- A branch jumps if its condition holds and advances if not. -/
theorem branch {holds : Int → Int → Bool} {first second : Int}
    (route : st.instruction.route? = some (.branch holds))
    (compares : v.comparison? st.operands = some (first, second, a)) (places : l.Places a) :
    (holds first second = true →
      Ends l v (execute st) (.ok .jumped) { v with pc := v.place l a }) ∧
      (holds first second = false → Ends l v (execute st) (.ok .advance) v) := by
  obtain ⟨taken, performed, agrees⟩ := behaviour_branch route
  obtain ⟨r, b, source, rfl, rfl, operands⟩ := Answers.branchOperands (l := l) compares
  have step {result : Except Fault Completion} {w : Visible}
      (ends : Ends l v (if taken (v.registers.get r) b then
          Machine.effectiveAddress a >>= Machine.jumpTo
        else pure .advance) result w) : Ends l v (execute st) result w := by
    simp only [execute, performed]
    exact bind (.registerAt source) (bind (.readRegister r) (bind operands ends))
  rw [← agrees]
  refine ⟨fun holds => step ?_, fun fails => step ?_⟩
  · rw [if_pos holds]
    exact bind (.effectiveAddress places) (jumpTo _)
  · rw [fails]
    exact advance

theorem jump (performed : behaviour st.instruction = .jump false)
    (operands : st.operands = [.address a]) (places : l.Places a) :
    Ends l v (execute st) (.ok .jumped) { v with pc := v.place l a } := by
  simp only [execute, performed]
  refine bind (.addressAt (by rw [operands]; rfl)) (bind (.effectiveAddress places) ?_)
  exact jumpTo _

/-- The place is known before the register for the return address is written. -/
theorem jumpAndLink (performed : behaviour st.instruction = .jump true)
    (operands : st.operands = [.address a]) (places : l.Places a) :
    Ends l v (execute st) (.ok .jumped)
      { v with pc := v.place l a, registers := v.registers.set .ra (v.pc + 4) } := by
  simp only [execute, performed]
  refine bind (.addressAt (by rw [operands]; rfl)) (bind (.effectiveAddress places) ?_)
  exact link _

theorem jumpRegister (performed : behaviour st.instruction = .jumpRegister)
    (operands : st.operands = [.register r]) :
    Ends l v (execute st) (.ok .jumped) { v with pc := v.registers.get r } := by
  simp only [execute, performed]
  exact bind (.registerAt (by rw [operands]; rfl)) (jumpToRegister r)

end Ends

end Exec

namespace State

variable {s : State} {st : Statement}

/-- On every machine that looks like this one the statement jumps to the place of an address. -/
def JumpsTo (s : State) (st : Statement) (a : Address) : Prop :=
  Exec.Ends s.layout s.visible (execute st) (.ok .jumped)
    { s.visible with pc := s.visible.place s.layout a }

/-- On every machine that looks like this one the statement leaves the next one to come. -/
def GoesOn (s : State) (st : Statement) : Prop :=
  Exec.Ends s.layout s.visible (execute st) (.ok .advance) s.visible

/-- The next cycle retires, sends the program counter on its route and changes nothing else, except
that a link puts the address of the next statement into `$ra`. -/
structure Routes (s : State) (st : Statement) (route : Route) : Prop where
  retired : s.step.1 = .retired
  next : s.visible.next? s.layout st.operands route = some s.step.2.control.pc
  registers : ∀ q, s.step.2.bus.registers.get q =
    if st.instruction = .jal ∧ q = .ra then s.control.pc + 4 else s.bus.registers.get q
  memory : s.step.2.bus.memory = s.bus.memory
  console : s.step.2.console = s.console

/-- Operands that are accepted for a branch can be compared. -/
theorem exists_comparison {holds : Int → Int → Bool} (v : Visible)
    (accepted : st.instruction.format.accepts (st.operands.map Operand.kind) = true)
    (routed : st.instruction.route? = some (.branch holds)) :
    ∃ first second a, v.comparison? st.operands = some (first, second, a) ∧
      .address a ∈ st.operands := by
  obtain ⟨taken, performed, -⟩ := behaviour_branch routed
  have takes := takes_of_accepts accepted
  rw [performed] at takes
  generalize st.operands = operands at takes
  cases takes with
  | branch _ source place isValue =>
      obtain ⟨w, read⟩ := v.registers.exists_value isValue
      refine ⟨(v.registers.get source).toInt, w.toInt, place, ?_, by simp⟩
      simp only [Visible.comparison?, read, Option.map_some]
  | branchZero _ source place => exact ⟨_, _, place, rfl, by simp⟩

/-- The opposite branch has the opposite condition. -/
theorem route_opposite {i other : Instruction} (h : i.opposite? = some other) :
    ∃ holds fails, i.route? = some (.branch holds) ∧ other.route? = some (.branch fails) ∧
      ∀ first second, fails first second = !holds first second := by
  cases i with
  | beq | bne | blt | bge | ble | bgt | beqz | bnez =>
      cases h
      refine ⟨_, _, rfl, rfl, fun first second => ?_⟩
      exact (decide_eq_decide.mpr (by omega)).trans decide_not
  | _ => cases h

/-- Of two branches with opposite conditions, one jumps and the other goes on. -/
theorem jumpsTo_or_goesOn {first second : Int} {a : Address} {other : Statement}
    (opposite : st.instruction.opposite? = some other.instruction)
    (operands : other.operands = st.operands) (places : s.layout.Places a)
    (compares : s.visible.comparison? st.operands = some (first, second, a)) :
    s.JumpsTo st a ∧ s.GoesOn other ∨ s.GoesOn st ∧ s.JumpsTo other a := by
  obtain ⟨holds, fails, routed, routed', opposed⟩ := route_opposite opposite
  obtain ⟨jumps, advances⟩ := Exec.Ends.branch (l := s.layout) routed compares places
  rw [← operands] at compares
  obtain ⟨jumps', advances'⟩ := Exec.Ends.branch (l := s.layout) routed' compares places
  rw [opposed] at jumps' advances'
  cases condition : holds first second with
  | true => exact .inl ⟨jumps condition, advances' (by rw [condition]; rfl)⟩
  | false => exact .inr ⟨advances condition, jumps' (by rw [condition]; rfl)⟩

theorem routes_of_visible {route : Route} {pc : Word}
    (step : s.step.1 = .retired ∧ s.step.2.visible = { s.visible with pc })
    (routed : st.instruction.route? = some route) (unlinked : route ≠ .link)
    (next : s.visible.next? s.layout st.operands route = some pc) : s.Routes st route := by
  obtain ⟨retired, shown⟩ := step
  have unlinked : st.instruction ≠ .jal := by
    intro link
    rw [link] at routed
    exact unlinked (Option.some.inj routed).symm
  have registers : s.step.2.bus.registers = s.bus.registers := congrArg Visible.registers shown
  refine ⟨retired, next.trans (congrArg (some ∘ Visible.pc) shown.symm), fun q => ?_,
    congrArg Visible.memory shown, congrArg Visible.console shown⟩
  rw [registers, if_neg fun linked => unlinked linked.1]

section Routes

variable (running : s.run = .running) (current : s.current? = some st)
  (accepted : st.instruction.format.accepts (st.operands.map Operand.kind) = true)
  (places : ∀ a, .address a ∈ st.operands → s.layout.Places a)

include running current accepted

theorem routes_register (routed : st.instruction.route? = some .register) :
    s.Routes st .register := by
  have performed : behaviour st.instruction = .jumpRegister := by rw [eq_jr routed]; rfl
  have takes := takes_of_accepts accepted
  rw [performed] at takes
  generalize operands : st.operands = listed at takes
  cases takes with
  | jumpRegister r =>
      have step := step_of_ends running current (.jumpRegister performed operands)
      exact routes_of_visible step routed nofun (by rw [operands]; rfl)

include places

theorem routes_branch {holds : Int → Int → Bool}
    (routed : st.instruction.route? = some (.branch holds)) : s.Routes st (.branch holds) := by
  obtain ⟨first, second, a, compares, listed⟩ := exists_comparison s.visible accepted routed
  obtain ⟨jumps, advances⟩ := Exec.Ends.branch (l := s.layout) routed compares (places a listed)
  have next : s.visible.next? s.layout st.operands (.branch holds) =
      some (if holds first second then s.visible.place s.layout a else s.control.pc + 4) := by
    rw [Visible.next?, compares]
    rfl
  cases condition : holds first second with
  | true =>
      rw [condition, if_pos rfl] at next
      exact routes_of_visible (step_of_ends running current (jumps condition)) routed nofun next
  | false =>
      rw [condition, if_neg Bool.false_ne_true] at next
      exact routes_of_visible (step_of_ends running current (advances condition)) routed nofun next

theorem routes_jump (routed : st.instruction.route? = some .jump) : s.Routes st .jump := by
  have performed := behaviour_jump routed
  have takes := takes_of_accepts accepted
  rw [performed] at takes
  generalize operands : st.operands = listed at takes
  cases takes with
  | jump _ a =>
      have step := step_of_ends running current
        (.jump performed operands (places a (by simp [operands])))
      exact routes_of_visible step routed nofun (by rw [operands]; rfl)

theorem routes_link (routed : st.instruction.route? = some .link) : s.Routes st .link := by
  have performed : behaviour st.instruction = .jump true := by rw [eq_jal routed]; rfl
  have takes := takes_of_accepts accepted
  rw [performed] at takes
  generalize operands : st.operands = listed at takes
  cases takes with
  | jump _ a =>
      obtain ⟨retired, shown⟩ := step_of_ends running current
        (.jumpAndLink performed operands (places a (by simp [operands])))
      have registers : s.step.2.bus.registers = s.bus.registers.set .ra (s.control.pc + 4) :=
        congrArg Visible.registers shown
      have pc : s.step.2.control.pc = s.visible.place s.layout a := congrArg Visible.pc shown
      have nonzero : Register.ra ≠ .zero := by decide
      refine ⟨retired, by rw [pc, operands]; rfl, fun q => ?_, congrArg Visible.memory shown,
        congrArg Visible.console shown⟩
      rw [registers, RegisterFile.get_set]
      simp only [nonzero, ne_eq, not_false_eq_true, true_and, eq_jal routed, eq_comm]

end Routes

/-- Every branch and jump goes on as its route says, and with the opposite condition a branch goes
the other way. -/
theorem routes_exact (setUp : s.SetUp) (running : s.run = .running) (current : s.current? = some st)
    (accepted : st.instruction.format.accepts (st.operands.map Operand.kind) = true)
    {route : Route} (routed : st.instruction.route? = some route)
    (inside : ∀ a, .address a ∈ st.operands → a.IsIn s.program) :
    s.Routes st route ∧
      ∀ other line, st.instruction.opposite? = some other → ∃ a, .address a ∈ st.operands ∧
        (s.JumpsTo st a ∧ s.GoesOn ⟨other, st.operands, line⟩ ∨
          s.GoesOn st ∧ s.JumpsTo ⟨other, st.operands, line⟩ a) := by
  have places (a : Address) (listed : .address a ∈ st.operands) : s.layout.Places a :=
    setUp.places (inside a listed)
  refine ⟨?_, fun other line opposite => ?_⟩
  · cases route with
    | branch holds => exact routes_branch running current accepted places routed
    | jump => exact routes_jump running current accepted places routed
    | link => exact routes_link running current accepted places routed
    | register => exact routes_register running current accepted routed
  · obtain ⟨holds, -, branches, -⟩ := route_opposite opposite
    obtain ⟨first, second, a, compares, listed⟩ := exists_comparison s.visible accepted branches
    exact ⟨a, listed, jumpsTo_or_goesOn opposite rfl (places a listed) compares⟩

/-- A machine that jumps and links to an address by `$ra` itself, in a program of two statements. -/
def linking : State where
  program := {
    text := { entries := #[⟨.jal, [.address { offset := some (-4), base := some .ra }], some 1⟩,
      ⟨.nop, [], some 2⟩] } }
  config := {}
  layout := {
    textBase := 0x400000
    textLength := 2
    dataBase := 0x10010000
    dataOffsets := #[]
    dataSize := 0 }
  bus := {
    registers := ({} : RegisterFile).set .ra 0x400008
    memory := { base := 0x10010000, size := 0x100000 } }
  control := { pc := 0x400000 }

/-- The target comes from the old `$ra`; the new one would lead back to the jump. -/
theorem routes_exact_linking :
    linking.Routes ⟨.jal, [.address { offset := some (-4), base := some .ra }], some 1⟩ .link ∧
      linking.step.2.control.pc = 0x400004 ∧
      linking.step.2.bus.registers.get .ra = 0x400004 := by
  refine ⟨(@routes_exact linking
    ⟨.jal, [.address { offset := some (-4), base := some .ra }], some 1⟩
    ⟨rfl, rfl, rfl⟩ rfl rfl (by decide) _ rfl ?_).1, by decide +kernel, by decide +kernel⟩
  intro a listed
  obtain rfl : a = { offset := some (-4), base := some .ra } := by simpa using listed
  intro _ labelled
  contradiction

end State

end Machine

end Mips
