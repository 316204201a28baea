import Mips.Proofs.Machine.Phases
import Mips.Proofs.Machine.Effect

/-!
What an observer learns. A machine does the same whoever listens: on every channel a computation
sends the same events. A cycle opens with the units that the program counter passes through, and
then announces each unit that its statement changes, so an observer misses no change.
-/
namespace Mips.Machine

namespace Channel

/-- Sends events one after the other. -/
def emitAll (c : Channel) (events : List Event) : Channel :=
  events.foldl emit c

theorem emitAll_append (c : Channel) (first later : List Event) :
    c.emitAll (first ++ later) = (c.emitAll first).emitAll later :=
  List.foldl_append

/-- Whoever receives at the other end of a connected channel gets all events in order. -/
theorem events?_emitAll {c : Channel} (connected : c.isConnected = true) (events : List Event) :
    (c.emitAll events).events? = c.events?.map (· ++ events) := by
  induction events generalizing c with
  | nil => simp [emitAll]
  | cons event rest ih =>
      have sent : (c.emit event).events? = c.events?.map (· ++ [event]) := by
        simp [emit, connected, events?, Function.comp_def]
      have later := ih (c := c.emit event) (by rw [emit, if_pos connected]; exact connected)
      rw [sent, Option.map_map] at later
      simpa [emitAll, Function.comp_def] using later

end Channel

/-- The same machine on another channel. -/
def State.withChannel (s : State) (c : Channel) : State :=
  s.mapChannel fun _ => c

section WithChannel

variable (s : State) (c : Channel)

theorem State.run_withChannel : (s.withChannel c).run = s.run := rfl

theorem State.layout_withChannel : (s.withChannel c).layout = s.layout := rfl

theorem State.program_withChannel : (s.withChannel c).program = s.program := rfl

theorem State.control_withChannel : (s.withChannel c).control = s.control := rfl

theorem State.instruction_withChannel : (s.withChannel c).instruction = s.instruction := rfl

end WithChannel

/-- The bus is in the cycle that is counted, as it is while a statement is executed. -/
def State.InTime (s : State) : Prop :=
  s.bus.cycle = s.cycles

namespace Exec

variable {α β : Type} {s t : State} {first later : List Component}

/-- On every channel the computation does the same, and it announces these units in this cycle. -/
structure Announces (x : Exec α) (s : State) (units : List Component) : Prop where
  sends : ∀ c, x (s.withChannel c) =
    ((x s).1, (x s).2.withChannel (c.emitAll (units.map fun unit => ⟨unit, s.cycles⟩)))
  cycles : (x s).2.cycles = s.cycles
  clock : (x s).2.bus.cycle = s.bus.cycle

namespace Announces

theorem inTime {x : Exec α} (h : Announces x s first) (inTime : s.InTime) : (x s).2.InTime := by
  rw [State.InTime, h.clock, h.cycles]
  exact inTime

theorem bind {x : Exec α} {f : α → Exec β} {a : α} (hx : Announces x s first)
    (answer : x s = (.ok a, t)) (hf : Announces (f a) t later) :
    Announces (x >>= f) s (first ++ later) := by
  have same : (x >>= f) s = f a t := by rw [bind_apply, answer]
  have cycles : t.cycles = s.cycles := by simpa [answer] using hx.cycles
  refine ⟨fun c => ?_, ?_, ?_⟩
  · rw [same, bind_apply, hx.sends, answer]
    simp only
    rw [hf.sends, cycles, List.map_append, Channel.emitAll_append]
  · rw [same, hf.cycles, cycles]
  · rw [same, hf.clock]
    simpa [answer] using hx.clock

theorem fault {x : Exec α} {f : α → Exec β} {fault : Fault} (hx : Announces x s first)
    (answer : x s = (.error fault, t)) : Announces (x >>= f) s first := by
  have same : (x >>= f) s = (.error fault, t) := by rw [bind_apply, answer]
  have cycles := hx.cycles
  have clock := hx.clock
  rw [answer] at cycles clock
  refine ⟨fun c => ?_, by rw [same, cycles], by rw [same, clock]⟩
  rw [same, bind_apply, hx.sends, answer]

theorem transfer {f : Bus → Except Fault α × Bus} {units : List Component} (inTime : s.InTime)
    (sends : ∀ c, f { s.bus with channel := c } = ((f s.bus).1, { (f s.bus).2 with
      channel := c.emitAll (units.map fun unit => ⟨unit, s.bus.cycle⟩) }))
    (clock : (f s.bus).2.cycle = s.bus.cycle) : Announces (Exec.transfer f) s units := by
  refine ⟨fun c => ?_, rfl, clock⟩
  have sent := sends c
  rw [show s.bus.cycle = s.cycles from inTime] at sent
  simp only [Exec.transfer, State.withChannel, State.mapChannel, sent]

end Announces

/-- A word that memory gives is carried over the bus; a read that faults is not announced. -/
theorem announces_readMemory (inTime : s.InTime) (address : Word) (length : Nat) (signed : Bool) :
    ∃ reads, Announces (Exec.readMemory address length signed) s
        (List.replicate reads .loadStoreUnit) ∧
      (Exec.readMemory address length signed s).2.bus.registers = s.bus.registers ∧
      (Exec.readMemory address length signed s).2.bus.memory = s.bus.memory := by
  simp only [Exec.readMemory]
  cases read : if signed then s.bus.memory.read address length
      else s.bus.memory.readUnsigned address length with
  | error fault =>
      have answer : s.bus.readMemory address length signed = (.error fault, s.bus) := by
        simp only [Bus.readMemory, read]
      refine ⟨0, .transfer inTime (fun c => ?_) (by rw [answer]), ?_, ?_⟩
      · rw [answer]
        simp only [Bus.readMemory, read]
        rfl
      · simp only [transfer, answer]
      · simp only [transfer, answer]
  | ok word =>
      have answer : s.bus.readMemory address length signed = (.ok word, s.bus.carry word) := by
        simp only [Bus.readMemory, read]
      refine ⟨1, .transfer inTime (fun c => ?_) (by rw [answer]; rfl), ?_, ?_⟩
      · rw [answer]
        simp only [Bus.readMemory, read]
        rfl
      · simp only [transfer, answer]
        rfl
      · simp only [transfer, answer]
        rfl

/-- A store is announced when it has succeeded; one that faults changes the transport slot alone. -/
theorem announces_writeMemory (inTime : s.InTime) (address value : Word) (width : Nat) :
    (∃ fault t, Exec.writeMemory address value width s = (.error fault, t) ∧
      Announces (Exec.writeMemory address value width) s [] ∧
      t.bus.registers = s.bus.registers ∧ t.bus.memory = s.bus.memory) ∨
    ∃ t, Exec.writeMemory address value width s = (.ok (), t) ∧
      Announces (Exec.writeMemory address value width) s [.memory] ∧
      t.bus.registers = s.bus.registers ∧
      s.bus.memory.write address (value.lowBytes width) = .ok t.bus.memory := by
  cases written : s.bus.memory.write address (value.lowBytes width) with
  | error fault =>
      have answer : s.bus.writeMemory address value width =
          (.error fault, { s.bus with slot := value }) := by
        simp only [Bus.writeMemory, written]
      refine .inl ⟨fault, { s with bus := { s.bus with slot := value } }, ?_, ?_, rfl, rfl⟩
      · simp only [Exec.writeMemory, Exec.transfer, answer]
      · refine .transfer inTime (fun c => ?_) (by rw [answer])
        rw [answer]
        simp only [Bus.writeMemory, written]
        rfl
  | ok memory =>
      have answer : s.bus.writeMemory address value width =
          (.ok (), { s.bus with slot := value, memory }.publish .memory) := by
        simp only [Bus.writeMemory, written]
      refine .inr ⟨{ s with bus := { s.bus with slot := value, memory }.publish .memory }, ?_, ?_,
        rfl, rfl⟩
      · simp only [Exec.writeMemory, Exec.transfer, answer]
      · refine .transfer inTime (fun c => ?_) (by rw [answer]; rfl)
        rw [answer]
        simp only [Bus.writeMemory, written]
        rfl

/-- What asks announces the words that it carries over the bus, and nothing else. -/
theorem Passive.announces {x : Exec α} (h : Passive x) (s : State) (inTime : s.InTime) :
    ∃ reads, Announces x s (List.replicate reads .loadStoreUnit) ∧
      (x s).2.bus.registers = s.bus.registers ∧ (x s).2.bus.memory = s.bus.memory := by
  induction h generalizing s with
  | pure a | ofExcept result | layout | bytesLeft _ | print _ =>
      exact ⟨0, ⟨fun c => rfl, rfl, rfl⟩, rfl, rfl⟩
  | bind _ _ ihx ihf =>
      rename_i x f _ _
      obtain ⟨reads, announces, registers, memory⟩ := ihx s inTime
      rcases answer : x s with ⟨result, t⟩
      rw [answer] at registers memory
      cases result with
      | ok a =>
          have inTime' : t.InTime := by simpa [answer] using announces.inTime inTime
          obtain ⟨more, announces', registers', memory'⟩ := ihf a t inTime'
          refine ⟨reads + more, ?_, ?_, ?_⟩
          · rw [List.replicate_add]
            exact announces.bind answer announces'
          · rw [bind_apply, answer]
            exact registers'.trans registers
          · rw [bind_apply, answer]
            exact memory'.trans memory
      | error fault =>
          refine ⟨reads, announces.fault answer, ?_, ?_⟩
          · rw [bind_apply, answer]
            exact registers
          · rw [bind_apply, answer]
            exact memory
  | readRegister r => exact ⟨1, .transfer inTime (fun c => rfl) rfl, rfl, rfl⟩
  | readMemory address length signed => exact announces_readMemory inTime address length signed

/-- What the last phase of a statement announces, by what it changes. -/
inductive Finish (st : Statement) (registers : RegisterFile) (memory : Memory) :
    Except Fault Completion × State → List Component → Prop
  | straight {result : Except Fault Completion} {t : State} (stays : result ≠ .ok .jumped)
      (kept : t.bus.registers = registers) (same : t.bus.memory = memory) :
      Finish st registers memory (result, t) []
  | result {t : State} (target : Register) (value : Word) (writes : st.Writes target)
      (written : t.bus.registers = registers.set target value) (same : t.bus.memory = memory) :
      Finish st registers memory (.ok .advance, t) [.registers]
  | stored {t : State} (address value : Word) (width : Nat)
      (stores : behaviour st.instruction = .store width) (kept : t.bus.registers = registers)
      (written : memory.write address (value.lowBytes width) = .ok t.bus.memory) :
      Finish st registers memory (.ok .advance, t) [.memory]
  | jumped {t : State} (kept : t.bus.registers = registers) (same : t.bus.memory = memory) :
      Finish st registers memory (.ok .jumped, t) [.controlUnit]
  | linked {t : State} (value : Word) (writes : st.Writes .ra)
      (written : t.bus.registers = registers.set .ra value) (same : t.bus.memory = memory) :
      Finish st registers memory (.ok .jumped, t) [.registers, .controlUnit]

/-- A statement announces the words it carries over the bus, and then what it does at its end. -/
theorem Phased.announces {st : Statement} {x : Exec Completion} (h : Phased st x) (s : State)
    (inTime : s.InTime) :
    ∃ reads last, Announces x s (List.replicate reads .loadStoreUnit ++ last) ∧
      Finish st s.bus.registers s.bus.memory (x s) last := by
  induction h generalizing s with
  | ask passive _ ih =>
      rename_i x f _
      obtain ⟨reads, announces, registers, memory⟩ := passive.announces s inTime
      rcases answer : x s with ⟨result, t⟩
      rw [answer] at registers memory
      cases result with
      | ok a =>
          have inTime' : t.InTime := by simpa [answer] using announces.inTime inTime
          obtain ⟨more, last, announces', finish⟩ := ih s a (by rw [answer]) t inTime'
          refine ⟨reads + more, last, ?_, ?_⟩
          · rw [List.replicate_add, List.append_assoc]
            exact announces.bind answer announces'
          · rw [bind_apply, answer, ← registers, ← memory]
            exact finish
      | error fault =>
          refine ⟨reads, [], ?_, ?_⟩
          · rw [List.append_nil]
            exact announces.fault answer
          · rw [bind_apply, answer]
            exact .straight nofun registers memory
  | straight other =>
      refine ⟨0, [], ⟨fun c => rfl, rfl, rfl⟩, .straight (fun same => other ?_) rfl rfl⟩
      exact Except.ok.inj same
  | fault fault => exact ⟨0, [], ⟨fun c => rfl, rfl, rfl⟩, .straight nofun rfl rfl⟩
  | result value writes =>
      rename_i target
      have announces : Announces (Exec.writeRegister target value) s [.registers] :=
        .transfer inTime (fun c => rfl) rfl
      exact ⟨0, [.registers], announces.bind rfl ⟨fun c => rfl, rfl, rfl⟩,
        .result target value writes rfl rfl⟩
  | store address value stores =>
      rename_i width
      obtain ⟨fault, t, run, announces, kept, same⟩ | ⟨t, run, announces, kept, written⟩ :=
        announces_writeMemory inTime address value width
      · refine ⟨0, [], announces.fault run, ?_⟩
        rw [bind_apply, run]
        exact .straight nofun kept same
      · refine ⟨0, [.memory], announces.bind run ⟨fun c => rfl, rfl, rfl⟩, ?_⟩
        rw [bind_apply, run]
        exact .stored address value width stores kept written
  | jump target => exact ⟨0, [.controlUnit], ⟨fun c => rfl, rfl, rfl⟩, .jumped rfl rfl⟩
  | link target writes =>
      have announces : Announces (Exec.writeRegister .ra (s.control.pc + 4)) s [.registers] :=
        .transfer inTime (fun c => rfl) rfl
      have asks : Announces (look fun s => s.control.pc + 4) s [] := ⟨fun c => rfl, rfl, rfl⟩
      have jumps (t : State) : Announces (Machine.jumpTo target) t [.controlUnit] :=
        ⟨fun c => rfl, rfl, rfl⟩
      have links := announces.bind (f := fun _ => Machine.jumpTo target) rfl (jumps _)
      exact ⟨0, [.registers, .controlUnit],
        asks.bind (f := fun next => do
          Exec.writeRegister .ra next
          Machine.jumpTo target) rfl links,
        .linked (s.control.pc + 4) writes rfl rfl⟩
  | jumpToRegister r =>
      refine ⟨1, [.controlUnit], ⟨fun c => ?_, rfl, rfl⟩, .jumped rfl rfl⟩
      have clock : s.bus.cycle = s.cycles := inTime
      rw [← clock]
      rfl

end Exec

namespace State

/-- What an observer hears who listens for one cycle alone, the first event first. -/
def announcements (s : State) : List Event :=
  (s.listen.step).2.bus.channel.events?.getD []

/-- The units that a cycle announces, in order. -/
def announced (s : State) : List Component :=
  s.announcements.map Event.component

/-- Every cycle opens with the way of the program counter: out of the control unit, over the bus and
into the instruction register. The first of these events counts the cycles that are complete. -/
def opening (s : State) : List Event :=
  [⟨.controlUnit, s.cycles⟩, ⟨.loadStoreUnit, s.cycles + 1⟩, ⟨.instructionRegister, s.cycles + 1⟩]

theorem fetch_withChannel (s : State) (c : Channel) :
    (s.withChannel c).fetch = s.fetch.withChannel (c.emitAll s.opening) := rfl

theorem decode_withChannel (s : State) (c : Channel) (index : Nat) :
    (s.withChannel c).decode index =
      (s.decode index).withChannel (c.emitAll [⟨.instructionRegister, s.cycles + 1⟩]) := rfl

/-- Only a statement that does not move the program counter itself is followed by the control
unit. -/
def closing : Except Fault Completion → List Component
  | .ok .advance => [.controlUnit]
  | .ok .jumped | .ok .exit | .error _ => []

theorem complete_withChannel (line : Option Nat) (result : Except Fault Completion) (s : State)
    (c : Channel) :
    complete line (result, s.withChannel c) = ((complete line (result, s)).1,
      (complete line (result, s)).2.withChannel
        (c.emitAll ((closing result).map fun unit => ⟨unit, s.cycles⟩))) := by
  match result with
  | .ok .advance | .ok .jumped | .ok .exit | .error _ => rfl

/-- What a cycle announces after its opening. -/
inductive Trail (s : State) : Outcome × State → List Component → Prop
  | stopped {next : Outcome × State} (slot : ∀ index, s.layout.textSlot? s.control.pc ≠
      some (.statement index)) (stops : next.1 ≠ .retired)
      (kept : next.2.bus.registers = s.bus.registers) (same : next.2.bus.memory = s.bus.memory) :
      Trail s next []
  | missing {next : Outcome × State} (stops : next.1 ≠ .retired)
      (kept : next.2.bus.registers = s.bus.registers) (same : next.2.bus.memory = s.bus.memory) :
      Trail s next [.instructionRegister]
  | executed {st : Statement} {result : Except Fault Completion} {t : State} {last : List Component}
      (here : s.current? = some st) (reads : Nat)
      (finish : Exec.Finish st s.bus.registers s.bus.memory (result, t) last) :
      Trail s (complete st.line (result, t))
        (.instructionRegister :: (List.replicate reads .loadStoreUnit ++ last ++ closing result))

theorem trail_of_running {s : State} (running : s.run = .running) :
    ∃ units, Trail s s.step units ∧ ∀ c, (s.withChannel c).step = (s.step.1, s.step.2.withChannel
      (c.emitAll (s.opening ++ units.map fun unit => ⟨unit, s.cycles + 1⟩))) := by
  have layout : s.fetch.layout = s.layout := rfl
  have program (index : Nat) : (s.fetch.decode index).program = s.program := rfl
  simp only [step, running, run_withChannel, control_withChannel, fetch_withChannel,
    layout_withChannel, instruction_withChannel, decode_withChannel, program_withChannel,
    fetch_word, layout, program]
  cases slot : s.layout.textSlot? s.control.pc with
  | none => exact ⟨[], .stopped (by simp [slot]) (by simp [fail]) rfl rfl, fun c => rfl⟩
  | some place =>
      cases place with
      | finish => exact ⟨[], .stopped (by simp [slot]) (by simp [halt]) rfl rfl, fun c => rfl⟩
      | statement index =>
          simp only
          cases found : s.program.text.get? index with
          | none => exact ⟨[.instructionRegister], .missing (by simp [fail]) rfl rfl, fun c => rfl⟩
          | some st =>
              have here := (current?_of_slot slot).trans found
              have inTime : (s.fetch.decode index).InTime := rfl
              obtain ⟨reads, last, announces, finish⟩ :=
                (Exec.Phased.execute st).announces (s.fetch.decode index) inTime
              have cycles := announces.cycles
              have sends := announces.sends
              rcases executed : execute st (s.fetch.decode index) with ⟨result, t⟩
              rw [executed] at cycles finish sends
              have counted : t.cycles = s.cycles + 1 := cycles
              simp only [executed, sends, complete_withChannel, ← Channel.emitAll_append]
              refine ⟨_, .executed here reads finish, fun c => ?_⟩
              simp only [counted, List.map_cons, List.map_append, List.append_assoc]
              rfl

/-- A cycle sends the same events on every channel. -/
theorem exists_step_withChannel (s : State) : ∃ events, ∀ c,
    (s.withChannel c).step = (s.step.1, s.step.2.withChannel (c.emitAll events)) := by
  by_cases running : s.run = .running
  · obtain ⟨units, -, sends⟩ := trail_of_running running
    exact ⟨_, sends⟩
  · refine ⟨[], fun c => ?_⟩
    cases stopped : s.run with
    | running => exact absurd stopped running
    | halted reason | faulted fault =>
        simp only [step, run_withChannel, stopped]
        rfl

theorem announcements_eq {s : State} {events : List Event} (sends : ∀ c,
    (s.withChannel c).step = (s.step.1, s.step.2.withChannel (c.emitAll events))) :
    s.announcements = events := by
  have heard : s.announcements = ((Channel.connected.emitAll events).events?).getD [] :=
    congrArg (fun next => (next.2.bus.channel.events?).getD []) (sends .connected)
  rw [heard, Channel.events?_emitAll rfl]
  rfl

/-- Those events are what an observer hears. -/
theorem step_withChannel (s : State) (c : Channel) :
    (s.withChannel c).step = (s.step.1, s.step.2.withChannel (c.emitAll s.announcements)) := by
  obtain ⟨events, sends⟩ := exists_step_withChannel s
  rw [announcements_eq sends]
  exact sends c

theorem channel_step (s : State) :
    s.step.2.bus.channel = s.bus.channel.emitAll s.announcements :=
  congrArg (fun next => next.2.bus.channel) (step_withChannel s s.bus.channel)

theorem trail_step {s : State} (running : s.run = .running) :
    ∃ units, Trail s s.step units ∧
      s.announcements = s.opening ++ units.map fun unit => ⟨unit, s.cycles + 1⟩ := by
  obtain ⟨units, trail, sends⟩ := trail_of_running running
  exact ⟨units, trail, announcements_eq sends⟩

theorem registers_complete (line : Option Nat) (result : Except Fault Completion) (t : State) :
    (complete line (result, t)).2.bus.registers = t.bus.registers := by
  match result with
  | .ok .advance | .ok .jumped | .ok .exit | .error _ => rfl

theorem memory_complete (line : Option Nat) (result : Except Fault Completion) (t : State) :
    (complete line (result, t)).2.bus.memory = t.bus.memory := by
  match result with
  | .ok .advance | .ok .jumped | .ok .exit | .error _ => rfl

namespace Trail

variable {s : State} {next : Outcome × State} {units : List Component}

theorem registers (h : Trail s next units) (changed : next.2.bus.registers ≠ s.bus.registers) :
    .registers ∈ units := by
  cases h with
  | stopped _ _ kept _ | missing _ kept _ => exact absurd kept changed
  | executed here reads finish =>
      rw [registers_complete] at changed
      cases finish with
      | straight _ kept _ | stored _ _ _ _ kept _ | jumped kept _ => exact absurd kept changed
      | result _ _ _ _ _ | linked _ _ _ _ => simp

theorem memory (h : Trail s next units) (changed : next.2.bus.memory ≠ s.bus.memory) :
    .memory ∈ units := by
  cases h with
  | stopped _ _ _ same | missing _ _ same => exact absurd same changed
  | executed here reads finish =>
      rw [memory_complete] at changed
      cases finish with
      | straight _ _ same | result _ _ _ _ same | jumped _ same | linked _ _ _ same =>
          exact absurd same changed
      | stored _ _ _ _ _ _ => simp

theorem written (h : Trail s next units) (heard : .registers ∈ units) :
    ∃ st target value, s.current? = some st ∧ st.Writes target ∧ next.1 = .retired ∧
      next.2.bus.registers = s.bus.registers.set target value := by
  cases h with
  | stopped _ _ _ _ | missing _ _ _ => simp at heard
  | executed here reads finish =>
      rename_i st result t last
      cases finish with
      | straight stays _ _ => match result with
          | .ok .advance | .ok .jumped | .ok .exit | .error _ => simp [closing] at heard
      | stored _ _ _ _ _ _ | jumped _ _ => simp [closing] at heard
      | result target value writes written _ =>
          exact ⟨st, target, value, here, writes, rfl, written⟩
      | linked value writes written _ => exact ⟨st, .ra, value, here, writes, rfl, written⟩

theorem stored (h : Trail s next units) (heard : .memory ∈ units) :
    ∃ st width address, ∃ value : Word, s.current? = some st ∧
      behaviour st.instruction = .store width ∧ next.1 = .retired ∧
      s.bus.memory.write address (value.lowBytes width) = .ok next.2.bus.memory := by
  cases h with
  | stopped _ _ _ _ | missing _ _ _ => simp at heard
  | executed here reads finish =>
      rename_i st result t last
      cases finish with
      | straight stays _ _ => match result with
          | .ok .advance | .ok .jumped | .ok .exit | .error _ => simp [closing] at heard
      | result _ _ _ _ _ | jumped _ _ | linked _ _ _ _ => simp [closing] at heard
      | stored address value width stores _ written =>
          exact ⟨st, width, address, value, here, stores, rfl, written⟩

theorem opens (h : Trail s next units) {index : Nat}
    (slot : s.layout.textSlot? s.control.pc = some (.statement index)) :
    [.instructionRegister] <+: units := by
  cases h with
  | stopped other _ _ _ => exact absurd slot (other index)
  | missing _ _ _ | executed _ _ _ => exact List.prefix_append [_] _

theorem closes (h : Trail s next units) (retired : next.1 = .retired) :
    units.getLast? = some .controlUnit := by
  cases h with
  | stopped _ stops _ _ | missing stops _ _ => exact absurd retired stops
  | executed here reads finish =>
      rename_i st result t last
      match result with
      | .ok .exit | .error _ => simp [complete, halt, fail] at retired
      | .ok .advance => simp [closing, List.getLast?_cons]
      | .ok .jumped =>
          cases finish with
          | straight stays _ _ => exact absurd rfl stays
          | jumped _ _ | linked _ _ _ _ => simp [closing, List.getLast?_cons]

end Trail

/-- What an observer learns of a cycle. -/
structure Observed (s : State) : Prop where
  received : s.step.2.bus.channel.events? = s.bus.channel.events?.map (· ++ s.announcements)
  registers : s.step.2.bus.registers ≠ s.bus.registers → .registers ∈ s.announced
  memory : s.step.2.bus.memory ≠ s.bus.memory → .memory ∈ s.announced
  instruction : s.step.2.instruction ≠ s.instruction → .instructionRegister ∈ s.announced
  control : s.step.2.control ≠ s.control → .controlUnit ∈ s.announced
  slot : s.step.2.bus.slot ≠ s.bus.slot → .loadStoreUnit ∈ s.announced
  written : .registers ∈ s.announced → ∃ st target value, s.current? = some st ∧
    st.Writes target ∧ s.step.1 = .retired ∧
    s.step.2.bus.registers = s.bus.registers.set target value
  stored : .memory ∈ s.announced → ∃ st width address, ∃ value : Word, s.current? = some st ∧
    behaviour st.instruction = .store width ∧ s.step.1 = .retired ∧
    s.bus.memory.write address (value.lowBytes width) = .ok s.step.2.bus.memory
  opens : ∀ index, s.layout.textSlot? s.control.pc = some (.statement index) →
    [.controlUnit, .loadStoreUnit, .instructionRegister, .instructionRegister] <+: s.announced
  closes : s.step.1 = .retired → s.announced.getLast? = some .controlUnit

/-- An observer of a running machine misses no change, hears of registers and memory only when
a statement has written them, and can tell where a cycle begins and ends. -/
theorem observed_step {s : State} (running : s.run = .running)
    (connected : s.bus.channel.isConnected = true) : s.Observed := by
  obtain ⟨units, trail, events⟩ := trail_step running
  have announced : s.announced =
      [.controlUnit, .loadStoreUnit, .instructionRegister] ++ units := by
    simp [announced, events, opening, Function.comp_def]
  refine ⟨?_, ?_, ?_, ?_, ?_, ?_, ?_, ?_, ?_, ?_⟩
  · rw [channel_step, Channel.events?_emitAll connected]
  · intro changed
    rw [announced]
    exact List.mem_append_right _ (trail.registers changed)
  · intro changed
    rw [announced]
    exact List.mem_append_right _ (trail.memory changed)
  · simp [announced]
  · simp [announced]
  · simp [announced]
  · intro heard
    exact trail.written (by simpa [announced] using heard)
  · intro heard
    exact trail.stored (by simpa [announced] using heard)
  · intro index slot
    rw [announced]
    exact (List.prefix_append_right_inj [.controlUnit, .loadStoreUnit, .instructionRegister]).mpr
      (trail.opens slot)
  · intro retired
    rw [announced, List.getLast?_append, trail.closes retired, Option.some_or]

/-- The jump of the relay moves the control unit by itself, so nothing is announced after that. -/
theorem observed_step_relay : (relay.listen.after 1).run = .running ∧
    (relay.listen.after 1).bus.channel.isConnected = true ∧
    (relay.listen.after 1).announced = [.controlUnit, .loadStoreUnit, .instructionRegister,
      .instructionRegister, .loadStoreUnit, .controlUnit] ∧ (relay.listen.after 1).Observed := by
  have running : (relay.listen.after 1).run = .running := by decide +kernel
  have connected : (relay.listen.after 1).bus.channel.isConnected = true := by decide +kernel
  exact ⟨running, connected, by decide +kernel, observed_step running connected⟩

end State

end Mips.Machine
