import Mips.Proofs.Machine.Access

/-!
The frame of a run: what a cycle leaves alone. Whatever its statement is, well formed or not, a
cycle changes one register, or the bytes that a store addresses, or the console, and never two of
these. So the zero register, the bounds of memory and what stands on the console are the same along
a run.
-/
namespace Mips

/-- The register that a statement can have a result for: the first operand of a computation or a
load, or the one that links. -/
def Statement.target? (st : Statement) : Option Register :=
  match st.instruction with
  | .add | .addu | .sub | .subu | .and | .or | .xor | .nor | .slt | .sltu | .mul
  | .addi | .addiu | .andi | .ori | .xori | .slti | .sll | .srl | .sra
  | .li | .lui | .la | .move | .lw | .lh | .lb | .lbu => st.operands[0]?.bind Operand.register?
  | .jal => some .ra
  | .nop | .syscall | .sw | .sh | .sb
  | .beq | .bne | .blt | .bgt | .ble | .bge | .beqz | .bnez | .j | .b | .jr => none

namespace Machine

theorem target?_of_hasResult {st : Statement} {r : Register}
    (hasResult : (behaviour st.instruction).hasResult = true) (operand : registerAt st 0 = .ok r) :
    st.target? = some r := by
  have first : st.operands[0]?.bind Operand.register? = some r := by
    rw [getElem?_of_registerAt operand]
    rfl
  rw [Statement.target?]
  generalize st.instruction = i at hasResult ⊢
  cases i with
  | nop | syscall | sw | sh | sb | beq | bne | blt | bgt | ble | bge | beqz | bnez | j | b | jal
  | jr => cases hasResult
  | _ => exact first

theorem target?_of_links {st : Statement} (links : behaviour st.instruction = .jump true) :
    st.target? = some .ra := by
  rw [Statement.target?]
  generalize st.instruction = i at links ⊢
  cases i with
  | jal => rfl
  | _ => cases links

theorem exists_access_of_store {i : Instruction} {width : Nat}
    (stores : behaviour i = .store width) : ∃ w, i.access? = some (.store w) := by
  cases i with
  | sw | sh | sb => exact ⟨_, rfl⟩
  | _ => cases stores

theorem places_of_labelAddress {l : Layout} {a : Address} {start : Int}
    (found : labelAddress l a = .ok start) : l.Places a := by
  intro name label
  simp only [labelAddress, label] at found
  split at found
  · next word placed => exact ⟨word, placed⟩
  · contradiction

/-- Only the program counter is touched after the statement. -/
theorem exists_conclude_eq (result : Except Fault Completion) (v : Visible) :
    ∃ pc, (conclude result v).2 = { v with pc } := by
  match result with
  | .ok .advance | .ok .jumped | .ok .exit | .error _ => exact ⟨_, rfl⟩

namespace Exec

variable {l : Layout} {v : Visible} {st : Statement} {width : Width} {α : Type}

namespace Ends

theorem refused (fault : Fault) (f : α → Exec Completion) :
    Ends l v (Exec.ofExcept (.error fault) >>= f) (.error fault) v :=
  fun _ same _ => ⟨rfl, same⟩

theorem unplaced {a : Address} {fault : Fault} (failed : labelAddress l a = .error fault)
    (f : Word → Exec Completion) :
    Ends l v (Machine.effectiveAddress a >>= f) (.error fault) v := by
  intro s same layout
  subst layout
  simp only [Machine.effectiveAddress, bind_apply, look, Exec.ofExcept, failed]
  exact ⟨trivial, same⟩

/-- A store ends as it ends after its operands are known. -/
theorem store_of_operands {r : Register} {a : Address} {result : Except Fault Completion}
    {w : Visible} (stores : st.instruction.access? = some (.store width))
    (source : registerAt st 0 = .ok r) (operand : addressAt st 1 = .ok a)
    (ends : Ends l v (do
      let address ← Machine.effectiveAddress a
      Exec.writeMemory address (v.registers.get r) width.count
      return .advance) result w) : Ends l v (execute st) result w := by
  simp only [execute, behaviour_store stores, source, operand]
  exact bind (.ofExcept r) (bind (.readRegister r) (bind (.ofExcept a) ends))

/-- A store of any shape faults, or it puts its bytes at the place of its second operand. -/
theorem store_cases (stores : st.instruction.access? = some (.store width)) :
    (∃ fault, Ends l v (execute st) (.error fault) v) ∨
      ∃ a bytes, st.operands[1]? = some (.address a) ∧ bytes.length = width.count ∧
        v.memory.HasRange (v.place l a) bytes.length ∧
        Ends l v (execute st) (.ok .advance) { v with
          memory := v.memory.store ((v.place l a).toNat - v.memory.base.toNat) bytes } := by
  cases source : registerAt st 0 with
  | error fault =>
      simp only [execute, behaviour_store stores, source]
      exact .inl ⟨fault, refused fault _⟩
  | ok r =>
      cases operand : addressAt st 1 with
      | error fault =>
          simp only [execute, behaviour_store stores, source, operand]
          exact .inl ⟨fault, bind (.ofExcept r) (bind (.readRegister r) (refused fault _))⟩
      | ok a =>
          cases placed : labelAddress l a with
          | error fault =>
              exact .inl ⟨fault, store_of_operands stores source operand (unplaced placed _)⟩
          | ok start =>
              have places := places_of_labelAddress placed
              by_cases inside : v.memory.HasRange (v.place l a) width.count
              · refine .inr ⟨a, _, getElem?_of_addressAt operand, length_bigEndian _ _, ?_,
                  store_of_operands stores source operand
                    (bind (.effectiveAddress places) (writeMemory inside))⟩
                rwa [length_bigEndian]
              · exact .inl ⟨_, store_of_operands stores source operand
                  (bind (.effectiveAddress places) (writeOutside inside))⟩

end Ends

end Exec

namespace State

variable {s : State} {st : Statement} {pc : Word}

/-- What the next cycle leaves alone, whatever it does. -/
structure Framed (s : State) : Prop where
  /-- One register takes a value, and it is the one that the statement has a result for. -/
  registers : s.step.2.bus.registers ≠ s.bus.registers → s.step.1 = .retired ∧
    ∃ st r value, s.current? = some st ∧ st.target? = some r ∧
      ∀ q, s.step.2.bus.registers.get q =
        if q = r ∧ r ≠ .zero then value else s.bus.registers.get q
  /-- A store writes to the addresses that its second operand names. -/
  memory : s.step.2.bus.memory ≠ s.bus.memory → s.step.1 = .retired ∧
    ∃ st width a, s.current? = some st ∧ st.instruction.access? = some (.store width) ∧
      st.operands[1]? = some (.address a) ∧
      ∀ x, s.step.2.bus.memory.at? x ≠ s.bus.memory.at? x →
        (s.visible.place s.layout a).toNat ≤ x ∧
          x < (s.visible.place s.layout a).toNat + width.count
  console : s.step.2.console ≠ s.console →
    ∃ st, s.current? = some st ∧ st.instruction = .syscall
  grows : ∃ text, s.step.2.console = s.console ++ text
  registers_or_memory :
    s.step.2.bus.registers = s.bus.registers ∨ s.step.2.bus.memory = s.bus.memory
  registers_or_console :
    s.step.2.bus.registers = s.bus.registers ∨ s.step.2.console = s.console
  memory_or_console : s.step.2.bus.memory = s.bus.memory ∨ s.step.2.console = s.console

namespace Framed

/-- At most the program counter moves. -/
theorem still (shown : s.step.2.visible = { s.visible with pc }) : s.Framed := by
  have registers : s.step.2.bus.registers = s.bus.registers := congrArg Visible.registers shown
  have memory : s.step.2.bus.memory = s.bus.memory := congrArg Visible.memory shown
  have console : s.step.2.console = s.console := congrArg Visible.console shown
  exact {
    registers := fun changed => absurd registers changed
    memory := fun changed => absurd memory changed
    console := fun changed => absurd console changed
    grows := ⟨"", by rw [console, String.append_empty]⟩
    registers_or_memory := .inl registers
    registers_or_console := .inl registers
    memory_or_console := .inl memory }

theorem ofRegister {r : Register} {value : Word} (retired : s.step.1 = .retired)
    (current : s.current? = some st) (target : st.target? = some r)
    (shown : s.step.2.visible =
      { s.visible with pc, registers := s.visible.registers.set r value }) : s.Framed := by
  have registers : s.step.2.bus.registers = s.bus.registers.set r value :=
    congrArg Visible.registers shown
  have memory : s.step.2.bus.memory = s.bus.memory := congrArg Visible.memory shown
  have console : s.step.2.console = s.console := congrArg Visible.console shown
  refine {
    registers := fun _ => ⟨retired, st, r, value, current, target, fun q => ?_⟩
    memory := fun changed => absurd memory changed
    console := fun changed => absurd console changed
    grows := ⟨"", by rw [console, String.append_empty]⟩
    registers_or_memory := .inr memory
    registers_or_console := .inr console
    memory_or_console := .inl memory }
  rw [registers, RegisterFile.get_set]
  simp only [ne_eq, and_comm, eq_comm]

theorem ofMemory {a : Address} {width : Width} {bytes : List Byte} (retired : s.step.1 = .retired)
    (current : s.current? = some st) (stores : st.instruction.access? = some (.store width))
    (operand : st.operands[1]? = some (.address a)) (length : bytes.length = width.count)
    (inside : s.visible.memory.HasRange (s.visible.place s.layout a) bytes.length)
    (shown : s.step.2.visible = { s.visible with
      pc
      memory := s.visible.memory.store
        ((s.visible.place s.layout a).toNat - s.visible.memory.base.toNat) bytes }) :
    s.Framed := by
  have registers : s.step.2.bus.registers = s.bus.registers := congrArg Visible.registers shown
  have memory := congrArg Visible.memory shown
  have console : s.step.2.console = s.console := congrArg Visible.console shown
  refine {
    registers := fun changed => absurd registers changed
    memory := fun _ => ⟨retired, st, width, a, current, stores, operand, fun x changed => ?_⟩
    console := fun changed => absurd console changed
    grows := ⟨"", by rw [console, String.append_empty]⟩
    registers_or_memory := .inl registers
    registers_or_console := .inl registers
    memory_or_console := .inr console }
  by_contra outside
  have kept := inside.at?_store x
  rw [if_neg (by rwa [length])] at kept
  exact changed ((congrArg (Memory.at? · x) memory).trans kept)

theorem ofConsole {text : String} (current : s.current? = some st)
    (service : st.instruction = .syscall)
    (shown : s.step.2.visible = { s.visible with pc, console := s.visible.console ++ text }) :
    s.Framed := by
  have registers : s.step.2.bus.registers = s.bus.registers := congrArg Visible.registers shown
  have memory : s.step.2.bus.memory = s.bus.memory := congrArg Visible.memory shown
  exact {
    registers := fun changed => absurd registers changed
    memory := fun changed => absurd memory changed
    console := fun _ => ⟨st, current, service⟩
    grows := ⟨text, congrArg Visible.console shown⟩
    registers_or_memory := .inl registers
    registers_or_console := .inl registers
    memory_or_console := .inl memory }

end Framed

theorem framed_of_store {width : Width} (running : s.run = .running)
    (current : s.current? = some st) (stores : st.instruction.access? = some (.store width)) :
    s.Framed := by
  obtain ⟨fault, ends⟩ | ⟨a, bytes, operand, length, inside, ends⟩ :=
    Exec.Ends.store_cases (l := s.layout) (v := s.visible) stores
  · exact .still (step_of_ends running current ends).2
  · obtain ⟨retired, shown⟩ := step_of_ends running current ends
    exact .ofMemory retired current stores operand length inside shown

theorem framed_of_other (running : s.run = .running) (current : s.current? = some st)
    (other : ∀ width, st.instruction.access? ≠ some (.store width)) : s.Framed := by
  obtain ⟨t, same, -, step⟩ := exists_complete running current
  have effect := effect_execute st t
  obtain ⟨outcome, shown⟩ := complete_eq_conclude st.line (execute st t)
  rw [← step] at outcome shown
  rw [same] at effect
  generalize (execute st t).1 = result, (execute st t).2.visible = w at effect outcome shown
  obtain ⟨pc, concluded⟩ := exists_conclude_eq result w
  rw [concluded] at shown
  cases effect with
  | faulted _ _ _ | exited _ _ | idle | jumped _ => exact .still shown
  | ranOut bytes prints _ => exact .ofConsole current prints.1 shown
  | printed text service => exact .ofConsole current service shown
  | computed target value hasResult operand =>
      exact .ofRegister outcome current (target?_of_hasResult hasResult operand) shown
  | linked target links => exact .ofRegister outcome current (target?_of_links links) shown
  | stored address value width memory stores _ =>
      obtain ⟨w, access⟩ := exists_access_of_store stores
      exact absurd access (other w)

theorem visible_of_no_current (running : s.run = .running) (absent : s.current? = none) :
    s.step.2.visible = s.visible := by
  have cycle := cycle_of_running running
  generalize s.step = next at cycle ⊢
  cases cycle with
  | astray _ | finished _ | missing _ _ _ => rfl
  | executed index found slot here =>
      rw [current?_of_slot slot, here] at absent
      contradiction

/-- No cycle changes more than its statement may. -/
theorem framed (s : State) : s.Framed := by
  by_cases running : s.run = .running
  · cases current : s.current? with
    | none => exact .still (visible_of_no_current running current)
    | some st =>
        by_cases stores : ∃ width, st.instruction.access? = some (.store width)
        · obtain ⟨width, stores⟩ := stores
          exact framed_of_store running current stores
        · exact framed_of_other running current (not_exists.mp stores)
  · exact .still (congrArg State.visible (step_of_stopped running))

theorem Framed.zero (h : s.Framed) (zero : s.bus.registers.get .zero = 0) :
    s.step.2.bus.registers.get .zero = 0 := by
  by_cases changed : s.step.2.bus.registers = s.bus.registers
  · rw [changed, zero]
  · obtain ⟨-, st, r, value, -, -, taken⟩ := h.registers changed
    rw [taken, if_neg fun here => here.2 here.1.symm, zero]

theorem zero_after (zero : s.bus.registers.get .zero = 0) (n : Nat) :
    (s.after n).bus.registers.get .zero = 0 :=
  after_induction (fun t => t.bus.registers.get .zero = 0) (fun t => t.framed.zero) zero n

theorem console_after (s : State) (n : Nat) : ∃ text, (s.after n).console = s.console ++ text := by
  induction n with
  | zero => exact ⟨"", String.append_empty.symm⟩
  | succ n ih =>
      obtain ⟨before, grown⟩ := ih
      obtain ⟨text, grows⟩ := (s.after n).framed.grows
      refine ⟨before ++ text, ?_⟩
      rw [after_succ, grows, grown, String.append_assoc]

theorem zero_initialRegisters (c : Config) : (initialRegisters c).get .zero = 0 := by
  rw [initialRegisters, RegisterFile.get_set, RegisterFile.get_set]
  rfl

/-- After any number of cycles of a machine that has been loaded, whoever observes it, the zero
register is zero, memory covers what the configuration says and what has been printed stays; and the
next cycle changes no more than its statement may. -/
theorem framed_of_load {p : Program} {c : Config} {loaded : State} (h : load p c = .ok loaded)
    (channel : Channel) (n : Nat) :
    let s := (loaded.mapChannel fun _ => channel).after n
    s.bus.registers.get .zero = 0 ∧ s.bus.memory.base = c.dataBase ∧
      s.bus.memory.size = c.memorySize ∧
      (∀ k, ∃ text, (s.after k).console = s.console ++ text) ∧ s.Framed := by
  intro s
  obtain ⟨layout, memory, -, -, -, same⟩ := exists_of_load h
  have start := setUp_of_load h
  have setUp : (loaded.mapChannel fun _ => channel).SetUp := ⟨start.planned, start.base, start.size⟩
  have config : s.config = c :=
    (sameSetup_after _ n).config.trans (congrArg State.config same)
  have zero : (loaded.mapChannel fun _ => channel).bus.registers.get .zero = 0 := by
    rw [same]
    exact zero_initialRegisters c
  exact ⟨zero_after zero n, config ▸ (setUp.after n).base, config ▸ (setUp.after n).size,
    console_after s, s.framed⟩

/-- A program of statements that no assembler accepts: a result for `$zero`, a store with an operand
too many and a sum of nothing. -/
def unruly : Program where
  text := {
    entries := #[⟨.li, [.register .zero, .integer 5], some 3⟩,
      ⟨.jal, [.address { offset := some 0x400008 }], some 4⟩,
      ⟨.sb, [.register .ra, .address { label := some "x", target := some (.data 0) },
        .register .zero], some 5⟩,
      ⟨.li, [.register .v0, .integer 1], some 6⟩,
      ⟨.syscall, [], some 7⟩,
      ⟨.add, [], some 8⟩] }
  data := { entries := #[⟨.space, 2, none, some 1⟩], labels := [("x", 0)] }

/-- The call, the store and the system call have each changed one thing before the run faults. -/
theorem framed_of_load_unruly : ∃ loaded, State.load unruly {} = .ok loaded ∧
    (loaded.after 9).run = .faulted (.malformedStatement "add") ∧
    (loaded.after 9).bus.registers.get .ra = 0x400008 ∧
    (loaded.after 9).bus.memory.at? 0x10010000 = some 0x08 ∧
    (loaded.after 9).console = "0" ∧
    (loaded.after 9).bus.registers.get .zero = 0 ∧
    ∀ n, (loaded.after n).Framed := by
  have ends : (State.load unruly {}).toOption.map (fun s =>
      ((s.after 9).run, (s.after 9).bus.registers.get .ra, (s.after 9).bus.memory.at? 0x10010000,
        (s.after 9).console)) =
      some (.faulted (.malformedStatement "add"), 0x400008, some 0x08, "0") := by
    decide +kernel
  cases loads : State.load unruly {} with
  | error fault =>
      rw [loads] at ends
      contradiction
  | ok loaded =>
      rw [loads] at ends
      obtain ⟨run, ra, stored, console⟩ :
          (loaded.after 9).run = .faulted (.malformedStatement "add") ∧
            (loaded.after 9).bus.registers.get .ra = 0x400008 ∧
            (loaded.after 9).bus.memory.at? 0x10010000 = some 0x08 ∧
            (loaded.after 9).console = "0" := by
        simpa [Except.toOption] using ends
      have frame := framed_of_load loads loaded.bus.channel
      exact ⟨loaded, rfl, run, ra, stored, console, (frame 9).1, fun n => (frame n).2.2.2.2⟩

end State

end Machine

end Mips
