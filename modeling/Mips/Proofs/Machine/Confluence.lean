import Mips.Proofs.Machine.Threads
import Mathlib.Algebra.GroupWithZero.Nat

/-!
Sessions are confluent. A session that is observed when it has settled is one order of moves of
its threads, so the reports of sessions are those that every order of moves ends in.
-/
namespace Mips.Machine

/-- A report in which a run that was still going counts as stopped from outside. -/
def Report.stopped (r : Report) : Report :=
  match r.snapshot.run with
  | .running => { r with snapshot := { r.snapshot with run := .halted .stopped } }
  | _ => r

theorem State.report_stop (s : State) : s.stop.report = s.report.stopped := by
  cases run : s.run <;> simp [State.stop, State.report, State.snapshot, Report.stopped, run]

namespace Session

/-- The worker has finished or has nothing to wake for. -/
def IsSettled (s : Session) : Prop :=
  s.isFinished = true ∨ s.gate.pending = 0 ∧ s.gate.isClosed = false

theorem settle_of_isSettled {s : Session} (h : s.IsSettled) : s.settle = s := by
  rcases h with finished | ⟨pending, opened⟩
  · simp [settle, finished]
  · simp [settle, pending, opened]

end Session

namespace Threads

def ofSession (s : Session) (o : OwnerPhase) : Threads where
  machine := s.machine
  gate := s.gate
  worker := if s.isFinished then .finished else .parked (0 < s.gate.pending || s.gate.isClosed)
  owner := o

variable {origin : Threads} {signals : Nat} {o : OwnerPhase}

theorem Run.leave {m : State} {g : TickGate} (h : Run origin signals ⟨m, g, .leaving, o⟩) :
    Run origin signals ⟨m, g.close, .finished, o⟩ :=
  h.move (.leave m g o)

/-- The rounds of a worker use up the ticks that are pending. -/
theorem Run.rounds {ticks : Nat} {s : Session} (working : s.isFinished = false)
    (pending : s.gate.pending = ticks)
    (h : Run origin signals ⟨s.machine, s.gate, .asking, o⟩) :
    Run origin signals (ofSession (Session.rounds ticks s) o) ∧
      (Session.rounds ticks s).IsSettled := by
  have asked := h.move (.request _ _ _)
  induction ticks generalizing s with
  | zero =>
      cases shut : s.gate.isClosed with
      | true =>
          have answer : s.gate.request = (.refused, s.gate) := by
            simp [TickGate.request, pending, shut]
          rw [answer] at asked
          simp only [Session.rounds, answer, Session.round]
          exact ⟨asked.leave, .inl rfl⟩
      | false =>
          have answer : s.gate.request = (.parked, { s.gate with waiters := s.gate.waiters + 1 }) := by
            simp [TickGate.request, pending, shut]
          rw [answer] at asked
          simp only [Session.rounds, answer, Session.round]
          refine ⟨?_, .inr ⟨pending, shut⟩⟩
          simpa [ofSession, WorkerPhase.afterRequest, working, pending, shut] using asked
  | succ ticks ih =>
      have answer : s.gate.request = (.granted, { s.gate with pending := ticks }) := by
        simp [TickGate.request, pending]
      rw [answer] at asked
      have cycled := asked.move (.cycle _ _ _)
      simp only [Session.rounds, answer, Session.round]
      rcases result : s.machine.step with ⟨outcome, machine⟩
      rw [result] at cycled
      cases outcome with
      | retired =>
          simp only [working, Bool.false_eq_true, ite_false]
          have next : Run origin signals ⟨machine, { s.gate with pending := ticks }, .asking, o⟩ :=
            cycled
          exact ih (s := { machine, gate := { s.gate with pending := ticks } })
            rfl rfl next (next.move (.request _ _ _))
      | halted _ | faulted _ =>
          simp only [ite_true]
          exact ⟨cycled.leave, .inl rfl⟩

theorem Run.settle {s : Session} (h : Run origin signals (ofSession s o)) :
    Run origin signals (ofSession s.settle o) ∧ s.settle.IsSettled := by
  by_cases settled : s.IsSettled
  · rw [Session.settle_of_isSettled settled]
    exact ⟨h, settled⟩
  · obtain ⟨unfinished, unsettled⟩ := not_or.mp settled
    have working : s.isFinished = false := by simpa using unfinished
    have reason : (decide (0 < s.gate.pending) || s.gate.isClosed) = true := by
      cases shut : s.gate.isClosed with
      | true => simp
      | false =>
          have some : s.gate.pending ≠ 0 := fun none => unsettled ⟨none, shut⟩
          simp [Nat.pos_of_ne_zero some]
    have woken : Run origin signals ⟨s.machine, s.gate.wake, .asking, o⟩ := by
      simp only [ofSession, working, reason] at h
      exact h.move (.wake _ _ _)
    have unfold : s.settle = Session.rounds s.gate.pending { s with gate := s.gate.wake } := by
      unfold Session.settle
      rw [if_neg]
      simpa [working] using fun none : s.gate.pending = 0 => by simpa [none] using reason
    rw [unfold]
    exact Run.rounds (s := { s with gate := s.gate.wake }) working rfl woken

theorem hear_ofSession (s : Session) (o o' : OwnerPhase) :
    (ofSession s o).worker.hear s.gate = (ofSession s.tick o').worker := by
  cases finished : s.isFinished <;> cases shut : s.gate.isClosed <;>
    simp [ofSession, Session.tick, TickGate.signal, WorkerPhase.hear, WorkerPhase.notify,
      finished, shut]

theorem Run.tick {s : Session} {left : Nat}
    (h : Run origin signals (ofSession s (.granting (left + 1)))) :
    Run origin signals (ofSession s.tick (.granting left)) := by
  have moved : Run origin signals ⟨s.machine, s.gate.signal,
      (ofSession s (.granting (left + 1))).worker.hear s.gate, .granting left⟩ :=
    h.move (.tick _ _ _ _)
  rwa [hear_ofSession s _ (.granting left)] at moved

theorem Run.signal {s : Session} (h : Run origin signals (ofSession s .awaiting)) :
    Run origin (signals + 1) (ofSession s.tick .awaiting) := by
  have moved : Run origin (signals + 1) ⟨s.machine, s.gate.signal,
      (ofSession s .awaiting).worker.hear s.gate, .awaiting⟩ := h.clock
  rwa [hear_ofSession s _ .awaiting] at moved

theorem Run.grant {s : Session} {ticks left : Nat}
    (h : Run origin signals (ofSession s (.granting (ticks + left)))) :
    Run origin signals (ofSession (s.grant ticks) (.granting left)) := by
  have ticked : Run origin signals (ofSession (Nat.repeat Session.tick ticks s) (.granting left)) := by
    induction ticks generalizing left with
    | zero => simpa [Nat.repeat] using h
    | succ ticks ih =>
        refine Run.tick (ih ?_)
        rwa [show ticks + (left + 1) = ticks + 1 + left by omega]
  exact ticked.settle.1

theorem run_start (machine : State) (plan : Plan) :
    Run (start machine plan) 0 (ofSession (Session.start machine) (start machine plan).owner) :=
  Run.start.move (.request _ _ _)

theorem isFinished_of_run {machine : State} {plan : Plan} {s : Session}
    (h : Run (start machine plan) signals (ofSession s o)) (settled : s.IsSettled)
    (driven : Driven machine signals plan) (waiting : o = .joining ∨ o = .awaiting) :
    s.isFinished = true := by
  rcases settled with finished | ⟨pending, opened⟩
  · exact finished
  · refine Bool.of_not_eq_false fun unfinished => ?_
    have stuck : ofSession s o = ⟨s.machine, s.gate, .parked false, o⟩ := by
      simp [ofSession, unfinished, pending, opened]
    rcases (valid_of_run h).progress driven with ⟨u, move⟩ | ⟨report, returned, _⟩
    · rw [stuck] at move
      rcases waiting with rfl | rfl <;> cases move
    · change o = .returned report at returned
      rcases waiting with rfl | rfl <;> cases returned

/-- The report of a session that is stopped is returned by some order of moves. -/
theorem Run.stop {machine : State} {ticks : Nat} {s : Session}
    (h : Run (Threads.start machine (.stopAfter ticks)) signals (ofSession s (.granting 0))) :
    ∃ t, Run (Threads.start machine (.stopAfter ticks)) signals t ∧
      t.owner = .returned s.stop := by
  have closed := (h.move (.close _ _ _)).move (.notify _ _ _)
  have joining : Run (Threads.start machine (.stopAfter ticks)) signals
      (ofSession { s with gate := s.gate.close } .joining) := by
    cases finished : s.isFinished <;>
      simpa [ofSession, TickGate.close, WorkerPhase.notify, finished] using closed
  have settled := joining.settle
  have finished := isFinished_of_run settled.1 settled.2 trivial (.inl rfl)
  have joined := settled.1
  simp only [ofSession, finished, ite_true] at joined
  exact ⟨_, joined.move (.stop _ _), rfl⟩

theorem Run.grants (grants : List Nat) {s : Session} {left : Nat}
    (h : Run origin signals (ofSession s (.granting (grants.sum + left)))) :
    Run origin signals
      (ofSession (grants.foldl (fun s ticks => s.grant ticks) s) (.granting left)) := by
  induction grants generalizing s with
  | nil => simpa using h
  | cons ticks grants ih =>
      refine ih (Run.grant ?_)
      rwa [List.sum_cons, Nat.add_assoc] at h

/-- A clocked session gets every signal, unless it finishes before. -/
theorem Run.runClock (ticks : Nat) {s : Session} (settled : s.IsSettled)
    (h : Run origin signals (ofSession s .awaiting)) :
    ∃ signals', Run origin signals' (ofSession (s.runClock ticks) .awaiting) ∧
      (s.runClock ticks).IsSettled ∧
      ((s.runClock ticks).isFinished = true ∨ signals' = signals + ticks) := by
  induction ticks generalizing s signals with
  | zero => exact ⟨signals, h, settled, .inr rfl⟩
  | succ ticks ih =>
      cases finished : s.isFinished with
      | true =>
          simp only [Session.runClock, finished, ite_true]
          exact ⟨signals, h, settled, .inl trivial⟩
      | false =>
          simp only [Session.runClock, finished, Bool.false_eq_true, ite_false]
          have next := h.signal.settle
          obtain ⟨signals', run, settled, done⟩ := ih next.2 next.1
          refine ⟨signals', run, settled, done.imp_right fun count => ?_⟩
          omega

theorem reports_stopAfter {machine : State} {ticks : Nat} {report : Report}
    (h : Reports machine (.stopAfter ticks) report) :
    report = (machine.runFor ticks).2.report.stopped :=
  h.trans (State.report_stop _)

theorem reports_wait {machine : State} {n : Nat} {report : Report}
    (stops : (machine.runFor n).1 ≠ .retired) (h : Reports machine .wait report) :
    report = (machine.runFor n).2.report := by
  obtain ⟨k, stopped, rfl⟩ := h
  rw [State.runFor_eq_of_stopped stopped stops]

theorem driven_of_le {machine : State} {n : Nat} (stops : (machine.runFor n).1 ≠ .retired)
    (le : n ≤ signals) : Driven machine signals .wait := by
  change (machine.runFor signals).1 ≠ .retired
  rwa [State.runFor_of_le_of_stopped le stops]

theorem stop_grants (machine : State) (grants : List Nat) :
    (grants.foldl (fun s ticks => s.grant ticks) (Session.start machine)).stop =
      (machine.runFor grants.sum).2.report.stopped := by
  have granted : Run (Threads.start machine (.stopAfter grants.sum)) 0
      (ofSession (grants.foldl (fun s ticks => s.grant ticks) (Session.start machine))
        (.granting 0)) :=
    Run.grants grants (run_start machine (.stopAfter grants.sum))
  obtain ⟨t, stopped, returned⟩ := granted.stop
  exact reports_stopAfter ((valid_of_run stopped).report returned)

theorem finalReport?_runClock {machine : State} {n limit : Nat}
    (stops : (machine.runFor n).1 ≠ .retired) (le : n ≤ limit) :
    ((Session.start machine).runClock limit).finalReport? =
      some (machine.runFor n).2.report := by
  obtain ⟨signals, run, settled, done⟩ :=
    Run.runClock limit (.inr ⟨rfl, rfl⟩) (run_start machine .wait)
  have finished : ((Session.start machine).runClock limit).isFinished = true := by
    rcases done with finished | count
    · exact finished
    · exact isFinished_of_run run settled (driven_of_le stops (by omega)) (.inr rfl)
  simp only [ofSession, finished, ite_true] at run
  have report := (valid_of_run (run.move (.wait _ _))).report rfl
  simp only [Session.finalReport?, Session.settle_of_isSettled settled, finished, ite_true]
  exact congrArg some (reports_wait stops report)

/-- Every order of moves of a session that is stopped after some ticks leads to the report of a
run for as many cycles, and every order of moves of a clocked session to the report of the run
that stops by itself, once the clock has given it the ticks. So do the sessions that settle. -/
theorem session_confluent (machine : State) :
    (∀ ticks signals t, Run (Threads.start machine (.stopAfter ticks)) signals t →
      Returns (machine.runFor ticks).2.report.stopped t ∧
        ∀ report, t.owner = .returned report →
          report = (machine.runFor ticks).2.report.stopped) ∧
    (∀ n, (machine.runFor n).1 ≠ .retired →
      ∀ signals t, Run (Threads.start machine .wait) signals t →
        (∀ report, t.owner = .returned report → report = (machine.runFor n).2.report) ∧
          (n ≤ signals → Returns (machine.runFor n).2.report t)) ∧
    (∀ grants : List Nat,
      (grants.foldl (fun s ticks => s.grant ticks) (Session.start machine)).stop =
        (machine.runFor grants.sum).2.report.stopped) ∧
    ∀ n limit, (machine.runFor n).1 ≠ .retired → n ≤ limit →
      ((Session.start machine).runClock limit).finalReport? =
        some (machine.runFor n).2.report := by
  refine ⟨?_, ?_, stop_grants machine, fun n limit => finalReport?_runClock⟩
  · intro ticks signals t run
    have valid := valid_of_run run
    exact ⟨valid.returns trivial fun r => reports_stopAfter,
      fun report returned => reports_stopAfter (valid.report returned)⟩
  · intro n stops signals t run
    have valid := valid_of_run run
    refine ⟨fun report returned => reports_wait stops (valid.report returned), fun le => ?_⟩
    exact valid.returns (driven_of_le stops le) fun r => reports_wait stops

/-- The relay stops after its third statement. It is stopped after two ticks, of which the worker
asks for the first before the second is granted, and is run by a clock. -/
theorem session_confluent_relay :
    (State.relay.runFor 4).1 ≠ .retired ∧
      (∃ t, Run (Threads.start State.relay (.stopAfter 2)) 0 t ∧
        Returns (State.relay.runFor 2).2.report.stopped t) ∧
      (∃ t, Run (Threads.start State.relay .wait) 4 t ∧
        Returns (State.relay.runFor 4).2.report t) ∧
      ((Session.start State.relay).runClock 5).finalReport? =
        some (State.relay.runFor 4).2.report := by
  have stops : (State.relay.runFor 4).1 ≠ .retired := by decide
  obtain ⟨stopped, clocked, -, settled⟩ := session_confluent State.relay
  refine ⟨stops, ?_, ?_, settled 4 5 stops (by decide)⟩
  · have asked := (Run.start.move (.tick State.relay {} .asking 1)).move (.request _ _ _)
    exact ⟨_, asked, (stopped 2 0 _ asked).1⟩
  · have signalled : Run (Threads.start State.relay .wait) 4 _ := Run.start.clock.clock.clock.clock
    exact ⟨_, signalled, (clocked 4 stops 4 _ signalled).2 (Nat.le_refl 4)⟩

end Threads

end Mips.Machine
