import Mips.Proofs.Machine.Effect
import Mips.Proofs.Machine.Loading

/-!
Control flow. The addresses of the text are those of its statements and the one after the last. In a
program without jumps to registers, whose other jumps all name a statement, the program counter
never leaves them: the next statement is reached from any but the end, and a jump lands on a
statement.
-/
namespace Mips

/-- The jumps and branches to an address. -/
def Instruction.isTransfer : Instruction → Bool
  | .beq | .bne | .blt | .bgt | .ble | .bge | .beqz | .bnez | .j | .b | .jal => true
  | _ => false

/-- A statement that can only jump to one of the first statements of a program, as many as are
counted. -/
structure Statement.Guided (count : Nat) (st : Statement) : Prop where
  direct : st.instruction ≠ .jr
  places : st.instruction.isTransfer = true → ∀ a, .address a ∈ st.operands →
    a.isLabelOnly = true ∧ ∃ i < count, a.target = some (.text i)

def Program.Guided (p : Program) : Prop :=
  ∀ st ∈ p.text.entries.toList, st.Guided p.text.size

namespace Machine

def Behaviour.transfers : Behaviour → Bool
  | .branch _ | .jump _ => true
  | _ => false

theorem transfers_behaviour (i : Instruction) : (behaviour i).transfers = i.isTransfer := by
  cases i <;> rfl

theorem behaviour_eq_jumpRegister_iff {i : Instruction} :
    behaviour i = .jumpRegister ↔ i = .jr := by
  cases i <;> simp [behaviour]

namespace Layout

variable {l : Layout} {address : Word}

/-- An address of the text: of a statement, or the one after the last. -/
def InText (l : Layout) (address : Word) : Prop :=
  ∃ i ≤ l.textLength, address.toNat = l.textBase.toNat + 4 * i

/-- No address of the text is beyond the last one there is. -/
def HasRoom (l : Layout) : Prop :=
  l.textBase.toNat + 4 * l.textLength < 0x100000000

theorem textSlot?_eq_statement_iff {i : Nat} :
    l.textSlot? address = some (.statement i) ↔
      i < l.textLength ∧ address.toNat = l.textBase.toNat + 4 * i := by
  simp only [textSlot?]
  split
  · next aligned =>
      rw [stride] at aligned
      split
      · simp only [Option.some.injEq, TextSlot.statement.injEq, stride] at *
        omega
      · split <;>
        · simp only [Option.some.injEq, reduceCtorEq, false_iff, stride] at *
          omega
  · simp only [reduceCtorEq, false_iff, stride] at *
    omega

theorem textSlot?_eq_finish_iff :
    l.textSlot? address = some .finish ↔
      address.toNat = l.textBase.toNat + 4 * l.textLength := by
  simp only [textSlot?]
  split
  · split
    · simp only [Option.some.injEq, reduceCtorEq, false_iff, stride] at *
      omega
    · split <;>
      · simp only [reduceCtorEq, true_iff, false_iff, stride] at *
        omega
  · simp only [reduceCtorEq, false_iff, stride] at *
    omega

theorem InText.slot (h : l.InText address) : l.textSlot? address ≠ none := by
  obtain ⟨i, le, place⟩ := h
  obtain lt | rfl := Nat.lt_or_eq_of_le le
  · rw [textSlot?_eq_statement_iff.mpr ⟨lt, place⟩]
    simp
  · rw [textSlot?_eq_finish_iff.mpr place]
    simp

theorem hasRoom_of_plan {p : Program} {c : Config} (planned : plan p c = .ok l)
    (room : c.textBase.toNat + 4 * p.text.size < 0x100000000) : l.HasRoom := by
  rwa [HasRoom, textLength_of_plan planned, textBase_of_plan planned]

theorem toNat_textAddress (room : l.HasRoom) {i : Nat} (le : i ≤ l.textLength) :
    (l.textAddress i).toNat = l.textBase.toNat + 4 * i := by
  rw [HasRoom] at room
  rw [textAddress, stride, BitVec.toNat_add, BitVec.toNat_ofNat]
  omega

theorem inText_textAddress (room : l.HasRoom) {i : Nat} (le : i ≤ l.textLength) :
    l.InText (l.textAddress i) :=
  ⟨i, le, toNat_textAddress room le⟩

theorem toNat_next (room : l.HasRoom) {i : Nat}
    (slot : l.textSlot? address = some (.statement i)) :
    (address + 4).toNat = l.textBase.toNat + 4 * (i + 1) := by
  obtain ⟨lt, place⟩ := textSlot?_eq_statement_iff.mp slot
  have four : (4 : Word).toNat = 4 := rfl
  rw [HasRoom] at room
  rw [BitVec.toNat_add, four, place]
  omega

/-- What follows a statement is in the text. -/
theorem inText_next (room : l.HasRoom) {i : Nat}
    (slot : l.textSlot? address = some (.statement i)) : l.InText (address + 4) :=
  ⟨i + 1, (textSlot?_eq_statement_iff.mp slot).1, toNat_next room slot⟩

end Layout

theorem mem_of_addressAt {st : Statement} {index : Nat} {a : Address}
    (found : addressAt st index = .ok a) : .address a ∈ st.operands :=
  List.mem_of_getElem? (getElem?_of_addressAt found)

namespace Exec

variable {l : Layout} {α : Type}

theorem Composed.layout_eq {x : Exec α} (h : Composed x) (s : State) :
    (x s).2.layout = s.layout :=
  (h.local s).sameSetup.layout

theorem mem_of_branchOperands {st : Statement} {s : State} {b : Word} {place : Address}
    (h : (branchOperands st s).1 = .ok (b, place)) : .address place ∈ st.operands := by
  unfold branchOperands at h
  split at h
  · cases found : addressAt st 1 with
    | error fault => simp [found, bind_apply, ofExcept] at h
    | ok a =>
        obtain ⟨-, rfl⟩ : 0 = b ∧ a = place := by
          simpa [found, bind_apply, ofExcept, pure_apply] using h
        exact mem_of_addressAt found
  · rw [bind_apply] at h
    rcases compared : valueAt st 1 s with ⟨value, t⟩
    rw [compared] at h
    cases value with
    | error fault => simp at h
    | ok value =>
        cases found : addressAt st 2 with
        | error fault => simp [found, bind_apply, ofExcept] at h
        | ok a =>
            obtain ⟨-, rfl⟩ : value = b ∧ a = place := by
              simpa [found, bind_apply, ofExcept, pure_apply] using h
            exact mem_of_addressAt found

/-- A jump of the computation lands on a statement. -/
def Lands (l : Layout) (x : Exec Completion) : Prop :=
  ∀ s, s.layout = l → (x s).1 = .ok .jumped →
    ∃ i < l.textLength, (x s).2.control.pc = l.textAddress i

namespace Lands

theorem straight {x : Exec Completion} (h : ∀ s, (x s).1 ≠ .ok .jumped) : Lands l x :=
  fun s _ jumped => absurd jumped (h s)

theorem advance : Lands l (pure .advance) :=
  straight fun s => by simp [pure_apply]

theorem fault (fault : Fault) : Lands l (ofExcept (.error fault)) :=
  straight fun s => by simp [ofExcept]

theorem bind {x : Exec α} {f : α → Exec Completion} (hx : Composed x)
    (hf : ∀ s a, (x s).1 = .ok a → Lands l (f a)) : Lands l (x >>= f) := by
  intro s same
  have layout := (hx.layout_eq s).trans same
  have answer := hf s
  rw [bind_apply]
  rcases hs : x s with ⟨result, t⟩
  rw [hs] at layout answer
  cases result with
  | ok a => exact answer a rfl t layout
  | error fault => simp

theorem ite {c : Prop} [Decidable c] {x y : Exec Completion} (hx : Lands l x) (hy : Lands l y) :
    Lands l (if c then x else y) := by
  split
  · exact hx
  · exact hy

theorem writeResult (r : Register) (value : Word) :
    Lands l (do
      Exec.writeRegister r value
      return .advance) :=
  bind (.writeRegister r value) fun _ _ _ => advance

theorem print (text : List Char) :
    Lands l (do
      Exec.print text
      return .advance) :=
  bind (.print text) fun _ _ _ => advance

theorem printString (address : Word) :
    Lands l (do
      let memory ← look fun s => s.bus.memory
      printFrom (bytesLeft memory address) address
      return .advance) := by
  refine straight fun s => ?_
  simp only [bind_apply, look, pure_apply]
  rcases printFrom (bytesLeft s.bus.memory address) address s with ⟨result, t⟩
  cases result <;> simp

theorem syscall : Lands l Machine.syscall := by
  refine bind (.readRegister _) fun _ service _ => ite ?_ (ite ?_ (ite ?_ (ite ?_ (fault _))))
  · exact bind (.readRegister _) fun _ value _ => print _
  · exact bind (.readRegister _) fun _ address _ => printString address
  · exact straight fun s => by simp [pure_apply]
  · exact bind (.readRegister _) fun _ value _ => print _

end Lands

/-- An address that is a label alone is the address of its target. -/
theorem effectiveAddress_placed {a : Address} (alone : a.isLabelOnly = true) {s : State}
    {word : Word} (placed : a.target.bind s.layout.targetAddress? = some word) :
    effectiveAddress a s = (.ok word, s) := by
  simp only [Address.isLabelOnly, Bool.and_eq_true, Option.isSome_iff_exists,
    Option.isNone_iff_eq_none] at alone
  obtain ⟨⟨⟨name, label⟩, offset⟩, base⟩ := alone
  have start : labelAddress s.layout a = .ok word.toNat := by simp [labelAddress, label, placed]
  have same : Word.ofInt (word.toNat + (none : Option Int).getD 0) = word := by simp [Word.ofInt]
  simp only [effectiveAddress, bind_apply, look, ofExcept, start, offset, base, same]
  rfl

theorem Lands.jump {place : Address} {f : Word → Exec Completion}
    (alone : place.isLabelOnly = true)
    (target : ∃ i < l.textLength, place.target = some (.text i))
    (jumps : ∀ s word, (f word s).2.control.pc = word) :
    Lands l (effectiveAddress place >>= f) := by
  intro s same jumped
  obtain ⟨i, lt, target⟩ := target
  subst same
  have placed : place.target.bind s.layout.targetAddress? = some (s.layout.textAddress i) := by
    rw [target]
    exact if_pos lt
  refine ⟨i, lt, ?_⟩
  rw [bind_apply, effectiveAddress_placed alone placed]
  exact jumps s _

/-- Only a branch or a jump to an address jumps, and it lands where its label stands. -/
theorem Lands.execute {st : Statement} (guided : st.Guided l.textLength) :
    Lands l (Machine.execute st) := by
  have kind := transfers_behaviour st.instruction
  unfold Machine.execute
  cases performed : behaviour st.instruction with
  | nothing => exact advance
  | service => exact syscall
  | arithmetic result =>
      refine bind (.ofExcept _) fun _ target _ => ?_
      refine bind (.ofExcept _) fun _ source _ => ?_
      refine bind (.readRegister source) fun _ a _ => ?_
      refine bind (.ofPassive (.valueAt st 2)) fun _ b _ => ?_
      cases result a b with
      | none => exact fault _
      | some value => exact writeResult target value
  | immediate result =>
      refine bind (.ofExcept _) fun _ value _ => ?_
      refine bind (.ofExcept _) fun _ target _ => ?_
      exact writeResult target (result value)
  | loadAddress =>
      refine bind (.ofExcept _) fun _ place _ => ?_
      refine bind (.effectiveAddress place) fun _ address _ => ?_
      refine bind (.ofExcept _) fun _ target _ => ?_
      exact writeResult target address
  | copy =>
      refine bind (.ofExcept _) fun _ source _ => ?_
      refine bind (.readRegister source) fun _ value _ => ?_
      refine bind (.ofExcept _) fun _ target _ => ?_
      exact writeResult target value
  | load width signed =>
      refine bind (.ofExcept _) fun _ target _ => ?_
      refine bind (.ofExcept _) fun _ place _ => ?_
      refine bind (.effectiveAddress place) fun _ address _ => ?_
      refine bind (.readMemory address width signed) fun _ value _ => ?_
      exact writeResult target value
  | store width =>
      refine bind (.ofExcept _) fun _ source _ => ?_
      refine bind (.readRegister source) fun _ value _ => ?_
      refine bind (.ofExcept _) fun _ place _ => ?_
      refine bind (.effectiveAddress place) fun _ address _ => ?_
      refine bind (.writeMemory address value width) fun _ _ _ => ?_
      exact advance
  | branch taken =>
      refine bind (.ofExcept _) fun _ source _ => ?_
      refine bind (.readRegister source) fun _ a _ => ?_
      refine bind (.ofPassive (.branchOperands st)) fun _ ⟨b, place⟩ compared => ?_
      have transfers : st.instruction.isTransfer = true := by rw [← kind, performed]; rfl
      obtain ⟨alone, target⟩ := guided.places transfers place (mem_of_branchOperands compared)
      exact ite (jump alone target fun _ _ => rfl) advance
  | jump links =>
      refine bind (.ofExcept _) fun _ place found => ?_
      have transfers : st.instruction.isTransfer = true := by rw [← kind, performed]; rfl
      obtain ⟨alone, target⟩ := guided.places transfers place (mem_of_addressAt found)
      refine jump alone target fun s word => ?_
      cases links <;> rfl
  | jumpRegister =>
      exact absurd (behaviour_eq_jumpRegister_iff.mp performed) guided.direct

end Exec

/-- Unless a statement jumps, the program counter is where it was. -/
theorem Effect.pc_eq {st : Statement} {v w : Visible} {result : Except Fault Completion}
    (h : Effect st v result w) (straight : result ≠ .ok .jumped) : w.pc = v.pc := by
  cases h with
  | jumped _ | linked _ _ => exact absurd rfl straight
  | faulted _ _ _ | ranOut _ _ _ | exited _ _ | idle | printed _ _ | computed _ _ _ _
  | stored _ _ _ _ _ _ => rfl

/-- A jump that links leaves the address of the next statement in `$ra`. -/
theorem get_ra_of_links {st : Statement} (links : behaviour st.instruction = .jump true) {s : State}
    {completion : Completion} (done : (execute st s).1 = .ok completion) :
    (execute st s).2.bus.registers.get .ra = s.control.pc + 4 := by
  simp only [execute, links, Exec.bind_apply, Exec.ofExcept] at done ⊢
  cases found : addressAt st 0 with
  | error fault => simp [found] at done
  | ok place =>
      simp only [found] at done ⊢
      have kept := (Exec.Quiet.effectiveAddress place).visible s
      rcases he : effectiveAddress place s with ⟨result, t⟩
      rw [he] at kept done
      cases result with
      | error fault => simp at done
      | ok target =>
          have pc : t.control.pc = s.control.pc := congrArg Visible.pc kept
          have written : (t.bus.registers.set .ra (t.control.pc + 4)).get .ra =
              t.control.pc + 4 := by
            rw [RegisterFile.get_set, if_pos (by decide)]
          rw [← pc]
          exact written

namespace State

/-- A machine whose program counter stands in the text of a guided program. -/
structure OnTrack (s : State) : Prop where
  room : s.layout.HasRoom
  length : s.layout.textLength = s.program.text.size
  guided : s.program.Guided
  here : s.layout.InText s.control.pc
  valid : ∀ pc, s.run ≠ .faulted (.invalidProgramCounter pc)

namespace OnTrack

variable {s : State}

/-- A statement keeps the program counter in the text, and the cycle ends by no invalid one. -/
theorem complete (h : s.OnTrack) {index : Nat} {st : Statement}
    (slot : s.layout.textSlot? s.control.pc = some (.statement index))
    (found : s.program.text.get? index = some st) :
    let next := State.complete st.line (execute st (s.fetch.decode index))
    s.layout.InText next.2.control.pc ∧ ∀ pc, next.1 ≠ .faulted (.invalidProgramCounter pc) := by
  have guided : st.Guided s.layout.textLength := by
    rw [h.length]
    exact h.guided st (Array.mem_toList_iff.mpr (Array.mem_of_getElem? found))
  have effect := effect_execute st (s.fetch.decode index)
  have lands := Exec.Lands.execute guided (s.fetch.decode index) rfl
  rcases he : execute st (s.fetch.decode index) with ⟨result, t⟩
  rw [he] at effect lands
  have straight (other : result ≠ .ok .jumped) : t.control.pc = s.control.pc := effect.pc_eq other
  match result with
  | .ok .advance =>
      have next := Layout.inText_next h.room slot
      rw [← straight (by simp)] at next
      exact ⟨next, by simp [State.complete]⟩
  | .ok .jumped =>
      obtain ⟨i, lt, landed⟩ := lands rfl
      have inside := Layout.inText_textAddress h.room (Nat.le_of_lt lt)
      exact ⟨landed ▸ inside, by simp [State.complete]⟩
  | .ok .exit =>
      have here := h.here
      rw [← straight (by simp)] at here
      exact ⟨here, by simp [State.complete, halt]⟩
  | .error fault =>
      have here := h.here
      rw [← straight (by simp)] at here
      refine ⟨here, ?_⟩
      rintro pc raised
      obtain rfl := Outcome.faulted.inj raised
      exact effect.isRaised

theorem cycle (h : s.OnTrack) (running : s.run = .running) :
    s.layout.InText s.step.2.control.pc ∧
      ∀ pc, s.step.1 ≠ .faulted (.invalidProgramCounter pc) := by
  have cycle := cycle_of_running running
  generalize s.step = next at cycle ⊢
  cases cycle with
  | astray slot => exact absurd slot h.here.slot
  | finished slot => exact ⟨h.here, by simp [halt]⟩
  | missing index slot absent =>
      have lt := (Layout.textSlot?_eq_statement_iff.mp slot).1
      rw [h.length] at lt
      rw [Segment.get?, Array.getElem?_eq_none_iff] at absent
      exact absurd lt (Nat.not_lt.mpr absent)
  | executed index st slot found => exact h.complete slot found

theorem outcome (h : s.OnTrack) (pc : Word) : s.step.1 ≠ .faulted (.invalidProgramCounter pc) := by
  cases run : s.run with
  | running => exact (h.cycle run).2 pc
  | halted reason => simp [State.step, run]
  | faulted fault =>
      have valid := h.valid pc
      rw [run] at valid
      simpa [State.step, run] using valid

theorem step (h : s.OnTrack) : s.step.2.OnTrack := by
  have same := sameSetup_step s
  have length : s.step.2.layout.textLength = s.step.2.program.text.size := by
    rw [same.layout, same.program]
    exact h.length
  refine ⟨same.layout ▸ h.room, length, same.program ▸ h.guided, ?_, ?_⟩
  · rw [same.layout]
    by_cases running : s.run = .running
    · exact (h.cycle running).1
    · rw [step_of_stopped running]
      exact h.here
  · intro pc raised
    have outcome := h.outcome pc
    rw [run_step] at raised
    cases ended : s.step.1 <;> simp_all [Outcome.run]

theorem after (h : s.OnTrack) (n : Nat) : (s.after n).OnTrack :=
  after_induction OnTrack (fun _ h => h.step) h n

/-- The link of a cycle that retires a `jal` is an address of the text. -/
theorem link (h : s.OnTrack) {st : Statement} (current : s.current? = some st)
    (links : st.instruction = .jal) (retired : s.step.1 = .retired) :
    s.step.2.bus.registers.get .ra = s.control.pc + 4 ∧ s.layout.InText (s.control.pc + 4) := by
  have running : s.run = .running := by
    cases run : s.run with
    | running => rfl
    | halted _ | faulted _ => simp [State.step, run] at retired
  have cycle := cycle_of_running running
  generalize s.step = next at cycle retired ⊢
  cases cycle with
  | astray _ | finished _ | missing _ _ _ => simp [fail, halt] at retired
  | executed index found slot here =>
      rw [current?_of_slot slot, here] at current
      obtain rfl := Option.some.inj current
      have performed : behaviour found.instruction = .jump true := by rw [links]; rfl
      have linked : ∀ completion, (execute found (s.fetch.decode index)).1 = .ok completion →
          (execute found (s.fetch.decode index)).2.bus.registers.get .ra = s.control.pc + 4 :=
        fun _ done => get_ra_of_links performed done
      rcases he : execute found (s.fetch.decode index) with ⟨result, t⟩
      rw [he] at linked retired
      refine ⟨?_, Layout.inText_next h.room slot⟩
      cases result with
      | ok completion => cases completion <;> exact linked _ rfl
      | error fault => simp [State.complete, fail] at retired

end OnTrack

theorem onTrack_of_load {p : Program} {c : Config} {s : State} (guided : p.Guided)
    (room : c.textBase.toNat + 4 * p.text.size < 0x100000000) (loaded : load p c = .ok s) :
    s.OnTrack := by
  obtain ⟨program, running, planned⟩ := load_ok loaded
  obtain ⟨labelled, entry⟩ := entered_of_load loaded
  have length := Layout.textLength_of_plan planned
  have room := Layout.hasRoom_of_plan planned room
  refine ⟨room, program ▸ length, program ▸ guided, ?_, by simp [running]⟩
  rw [entry]
  exact Layout.inText_textAddress room (length ▸ entryIndex_le labelled)

/-- After any number of cycles the program counter of a guided program stands in the text, so that
it is never invalid, and all links that are written stand there too. -/
theorem guided_stays_in_text {p : Program} {c : Config} {s : State} (guided : p.Guided)
    (room : c.textBase.toNat + 4 * p.text.size < 0x100000000) (loaded : load p c = .ok s)
    (n : Nat) :
    (∃ i ≤ p.text.size, (s.after n).control.pc.toNat = c.textBase.toNat + 4 * i) ∧
      (∀ pc, (s.after n).step.1 ≠ .faulted (.invalidProgramCounter pc)) ∧
      ∀ st, (s.after n).current? = some st → st.instruction = .jal →
        (s.after n).step.1 = .retired →
        (s.after n).step.2.bus.registers.get .ra = (s.after n).control.pc + 4 ∧
          ∃ i ≤ p.text.size,
            ((s.after n).step.2.bus.registers.get .ra).toNat = c.textBase.toNat + 4 * i := by
  have track := (onTrack_of_load guided room loaded).after n
  have planned := (load_ok loaded).2.2
  have inText (address : Word) (h : (s.after n).layout.InText address) :
      ∃ i ≤ p.text.size, address.toNat = c.textBase.toNat + 4 * i := by
    rwa [(sameSetup_after s n).layout, Layout.InText, Layout.textLength_of_plan planned,
      Layout.textBase_of_plan planned] at h
  refine ⟨inText _ track.here, track.outcome, ?_⟩
  intro st current links retired
  obtain ⟨linked, inside⟩ := track.link current links retired
  exact ⟨linked, inText _ (linked ▸ inside)⟩

/-- Three statements that go round for ever. -/
def ring : Program where
  text := {
    entries := #[⟨.jal, [.address { label := some "next", target := some (.text 1) }], some 2⟩,
      ⟨.nop, [], some 3⟩,
      ⟨.bnez, [.register .ra, .address { label := some "main", target := some (.text 0) }], some 4⟩]
    labels := [("main", 0), ("next", 1)] }

/-- A text of three statements ends just before the last word of all addresses. -/
def lastText : Config where
  textBase := 0xFFFFFFF0

theorem guided_stays_in_text_ring :
    ring.Guided ∧ lastText.textBase.toNat + 4 * ring.text.size < 0x100000000 ∧
      ∃ s, load ring lastText = .ok s ∧ ∀ n,
        (∃ i ≤ 3, (s.after n).control.pc.toNat = 0xFFFFFFF0 + 4 * i) ∧
          (∀ pc, (s.after n).step.1 ≠ .faulted (.invalidProgramCounter pc)) ∧
          ∀ st, (s.after n).current? = some st → st.instruction = .jal →
            (s.after n).step.1 = .retired →
            (s.after n).step.2.bus.registers.get .ra = (s.after n).control.pc + 4 ∧
              ∃ i ≤ 3,
                ((s.after n).step.2.bus.registers.get .ra).toNat = 0xFFFFFFF0 + 4 * i := by
  have guided : ring.Guided := by
    simp only [Program.Guided, ring, List.forall_mem_cons]
    refine ⟨⟨by simp, ?_⟩, ⟨by simp, by simp [Instruction.isTransfer]⟩, ⟨by simp, ?_⟩, nofun⟩
    · intro _ a operand
      obtain rfl : a = _ := by simpa using operand
      exact ⟨rfl, 1, by decide, rfl⟩
    · intro _ a operand
      obtain rfl : a = _ := by simpa using operand
      exact ⟨rfl, 0, by decide, rfl⟩
  have room : lastText.textBase.toNat + 4 * ring.text.size < 0x100000000 := by decide
  have loads : (load ring lastText).toOption.isSome = true := by decide +kernel
  refine ⟨guided, room, ?_⟩
  cases loaded : load ring lastText with
  | error fault =>
      rw [loaded] at loads
      contradiction
  | ok s => exact ⟨s, rfl, guided_stays_in_text guided room loaded⟩

end State

end Machine

end Mips
