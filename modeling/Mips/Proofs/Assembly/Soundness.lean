import Mips.Proofs.Assembly.Extraction
import Mips.Proofs.Machine.Loading

/-!
What the assembler lets through, the machine can execute. A program without critical problems has
statements whose operands are of the right kinds, and every label that they name has a place; both
are all that a statement is checked for.
-/
namespace Mips

theorem Operand.kind_link (find : String → Option Target) (o : Operand) :
    (o.link find).kind = o.kind := by
  cases o <;> rfl

/-- An address of a linked statement is placed where its label was found. -/
theorem Statement.target_of_mem_link {find : String → Option Target} {s : Statement}
    (defined : s.undefinedLabels find = []) {a : Address} (member : .address a ∈ (s.link find).operands)
    {name : String} (label : a.label = some name) : ∃ target, find name = some target ∧
      a.target = some target := by
  obtain ⟨o, unlinked, linked⟩ := List.mem_map.mp member
  cases o with
  | integer _ | string _ | register _ => simp [Operand.link] at linked
  | address before =>
      obtain rfl := Operand.address.inj linked
      simp only at label ⊢
      cases found : find name with
      | some target => exact ⟨target, rfl, by simp [label, found]⟩
      | none =>
          have undefined : Operand.undefinedLabel? find (.address before) = some name := by
            simp [Operand.undefinedLabel?, label, found]
          have reported : name ∈ s.operands.filterMap (Operand.undefinedLabel? find) :=
            List.mem_filterMap.mpr ⟨_, unlinked, undefined⟩
          rw [List.map_eq_nil_iff.mp defined] at reported
          cases reported

namespace Assembly

open Machine

/-- Linking a result reports every label that is bound nowhere. -/
theorem Result.isRunnable_link_iff (r : Result) :
    r.link.isRunnable = true ↔ r.isRunnable = true ∧ r.program.undefinedLabels = [] := by
  simp only [Result.isRunnable, Result.link, Problems.hasCritical, List.any_append,
    Bool.not_or, Bool.and_eq_true]
  refine and_congr_right fun _ => ?_
  cases r.program.undefinedLabels with
  | nil => simp
  | cons label rest => simp [Problem.isCritical, Problem.atLine, Severity.default]

theorem Kept.accepted {item : Source.Item} {entries : List Entry} (h : Kept item entries)
    {s : Statement} (member : .statement s ∈ entries) :
    s.instruction.format.accepts (s.operands.map Operand.kind) = true := by
  cases h with
  | marker _ | label _ | undeclaring _ => cases member
  | statement carries =>
      obtain rfl := Entry.statement.inj (List.mem_singleton.mp member)
      exact carries.accepted
  | declaration _ _ _ _ => simp at member

theorem exists_kept_of_mem {items : List Source.Item} {groups : List (List Entry)}
    (each : List.Forall₂ Kept items groups) {entries : List Entry} (member : entries ∈ groups) :
    ∃ item, Kept item entries := by
  induction each with
  | nil => cases member
  | cons first _ ih =>
      obtain rfl | later := List.mem_cons.mp member
      · exact ⟨_, first⟩
      · exact ih later

theorem accepted_of_entered {p : Program} {items : List Source.Item} (h : Entered p items)
    {s : Statement} (member : s ∈ p.text.entries.toList) :
    s.instruction.format.accepts (s.operands.map Operand.kind) = true := by
  obtain ⟨groups, each, text, -⟩ := h
  rw [text] at member
  obtain ⟨entry, entered, same⟩ := List.mem_filterMap.mp member
  obtain ⟨entries, grouped, grouped_entry⟩ := List.mem_flatten.mp entered
  obtain ⟨item, kept⟩ := exists_kept_of_mem each grouped
  cases entry with
  | statement found =>
      obtain rfl : found = s := Option.some.inj same
      exact kept.accepted grouped_entry
  | «variable» v => cases same

theorem checks_link {p : Program} (labelled : p.WellLabelled) (defined : p.undefinedLabels = [])
    {s : Statement} (member : s ∈ p.text.entries.toList)
    (accepted : s.instruction.format.accepts (s.operands.map Operand.kind) = true)
    {c : Config} {l : Layout} (planned : Layout.plan p.link c = .ok l) :
    l.Checks (s.link p.place?) := by
  refine ⟨takes_of_accepts ?_, ?_⟩
  · simpa [Statement.link, Function.comp_def, Operand.kind_link] using accepted
  · intro a address name label
    have linked := List.flatMap_eq_nil_iff.mp defined s member
    obtain ⟨target, found, placed⟩ := Statement.target_of_mem_link linked address label
    have inside : target.IsIn p.link := by
      have inside := labelled.isIn_of_place? found
      cases target with
      | text index =>
          change index < p.link.text.size
          rw [Program.size_text_link]
          exact inside
      | data index => exact inside
    rw [placed]
    exact Layout.targetAddress?_of_plan planned inside

theorem wellLabelled_assemble (source : String) : (assemble source).program.WellLabelled :=
  (wellLabelled_extract _).link

/-- A machine that is loaded with a runnable program is checked. -/
theorem checked_of_load {source : String} (h : (assemble source).isRunnable = true)
    {config : Config} {s : State} (loaded : State.load (assemble source).program config = .ok s) :
    s.Checked := by
  obtain ⟨runnable, defined⟩ := (Result.isRunnable_link_iff _).mp h
  obtain ⟨program, running, planned⟩ := State.load_ok loaded
  refine ⟨?_, by simp [running]⟩
  intro index statement found
  rw [program] at found
  have member : statement ∈ (assemble source).program.text.entries.toList :=
    Array.mem_toList_iff.mpr (Array.mem_of_getElem? found)
  simp only [assemble, Result.link, Program.link, Array.toList_map] at member
  obtain ⟨unlinked, entered, rfl⟩ := List.mem_map.mp member
  exact checks_link (wellLabelled_extract _) defined entered
    (accepted_of_entered (entered_of_isRunnable runnable) entered) planned

/-- What is assembled without a critical problem is a valid program, and no run of it ever faults
because of the operands or the labels of a statement. -/
theorem assembled_sound (source : String) (config : Config)
    (h : (assemble source).isRunnable = true) :
    (∀ e, State.load (assemble source).program config ≠ .error (.invalidProgram e)) ∧
      ∀ s, State.load (assemble source).program config = .ok s → ∀ n,
        (∀ mnemonic, (s.after n).step.1 ≠ .faulted (.malformedStatement mnemonic)) ∧
          ∀ name, (s.after n).step.1 ≠ .faulted (.unresolvedLabel name) := by
  refine ⟨?_, ?_⟩
  · intro e invalid
    have valid := (Program.validate_eq_ok_iff _).mpr (wellLabelled_assemble source)
    rw [State.load_eq_invalidProgram_iff, valid] at invalid
    contradiction
  · intro s loaded n
    have checked := (checked_of_load h loaded).after n
    exact ⟨fun _ raise => checked.outcome raise trivial,
      fun _ raise => checked.outcome raise trivial⟩

/-- A loop that counts a variable down. -/
def countdown : String :=
  ".data\ncount: .word 3\n.text\nmain: lw $t0, count\nloop: addi $t0, $t0, -1\n" ++
    "bnez $t0, loop\nli $v0, 10\nsyscall\n"

theorem assembled_sound_countdown :
    (assemble countdown).isRunnable = true ∧
      ∃ s, State.load (assemble countdown).program {} = .ok s ∧ ∀ n,
        (∀ mnemonic, (s.after n).step.1 ≠ .faulted (.malformedStatement mnemonic)) ∧
          ∀ name, (s.after n).step.1 ≠ .faulted (.unresolvedLabel name) := by
  have runnable : (assemble countdown).isRunnable = true := by decide +kernel
  refine ⟨runnable, ?_⟩
  have loads : (State.load (assemble countdown).program {}).toOption.isSome = true := by
    decide +kernel
  cases loaded : State.load (assemble countdown).program {} with
  | error fault =>
      rw [loaded] at loads
      contradiction
  | ok s => exact ⟨s, rfl, (assembled_sound countdown {} runnable).2 s loaded⟩

end Assembly

end Mips
