import Mips.Machine.Session
import Mips.Proofs.Machine.Gate
import Mips.Proofs.Machine.Run

/-!
The threads of a session, step by step. The worker asks the gate, parks, wakes, runs a cycle and
leaves; the owner grants ticks and stops the session, or waits while a clock grants them. The
threads may alternate in any order, and a parked worker may wake for no reason.

The invariant ties the ticks that were granted to those that are pending, in hand and executed.
It gives confluence: every order of moves ends in the report of a bounded run.
-/
namespace Mips.Machine

/-- Where a worker is. A parked worker wakes once it has been notified. -/
inductive WorkerPhase
  | asking
  | parked (notified : Bool)
  | admitted
  | leaving
  | finished
  deriving DecidableEq, Repr

namespace WorkerPhase

def notify : WorkerPhase → WorkerPhase
  | parked _ => parked true
  | w => w

/-- A signal to a closed gate notifies nobody. -/
def hear (w : WorkerPhase) (gate : TickGate) : WorkerPhase :=
  if gate.isClosed then w else w.notify

def afterRequest : Admission → WorkerPhase
  | .granted => admitted
  | .refused => leaving
  | .parked => parked false

def afterCycle : Outcome → WorkerPhase
  | .retired => asking
  | _ => leaving

def inHand : WorkerPhase → Nat
  | admitted => 1
  | _ => 0

def isAtWork : WorkerPhase → Bool
  | leaving | finished => false
  | _ => true

end WorkerPhase

inductive Plan
  | stopAfter (ticks : Nat)
  | wait
  deriving DecidableEq, Repr

/-- Where the owner is. Closing the gate and notifying those who are parked are two moves. -/
inductive OwnerPhase
  | granting (ticks : Nat)
  | notifying
  | joining
  | awaiting
  | returned (report : Report)
  deriving DecidableEq, Repr

namespace OwnerPhase

def hasClosed : OwnerPhase → Bool
  | granting _ | awaiting => false
  | notifying | joining | returned _ => true

end OwnerPhase

structure Threads where
  machine : State
  gate : TickGate
  worker : WorkerPhase
  owner : OwnerPhase

namespace Threads

def start (machine : State) (plan : Plan) : Threads where
  machine := machine
  gate := {}
  worker := .asking
  owner := match plan with
    | .stopAfter ticks => .granting ticks
    | .wait => .awaiting

/-- One move of the owner or of the worker. -/
inductive Moves : Threads → Threads → Prop
  | tick (m : State) (g : TickGate) (w : WorkerPhase) (ticks : Nat) :
      Moves ⟨m, g, w, .granting (ticks + 1)⟩ ⟨m, g.signal, w.hear g, .granting ticks⟩
  | close (m : State) (g : TickGate) (w : WorkerPhase) :
      Moves ⟨m, g, w, .granting 0⟩ ⟨m, g.close, w, .notifying⟩
  | notify (m : State) (g : TickGate) (w : WorkerPhase) :
      Moves ⟨m, g, w, .notifying⟩ ⟨m, g, w.notify, .joining⟩
  | stop (m : State) (g : TickGate) :
      Moves ⟨m, g, .finished, .joining⟩ ⟨m.stop, g, .finished, .returned m.stop.report⟩
  | wait (m : State) (g : TickGate) :
      Moves ⟨m, g, .finished, .awaiting⟩ ⟨m, g.close, .finished, .returned m.report⟩
  | request (m : State) (g : TickGate) (o : OwnerPhase) :
      Moves ⟨m, g, .asking, o⟩ ⟨m, g.request.2, .afterRequest g.request.1, o⟩
  | wake (m : State) (g : TickGate) (o : OwnerPhase) :
      Moves ⟨m, g, .parked true, o⟩ ⟨m, g.wake, .asking, o⟩
  | cycle (m : State) (g : TickGate) (o : OwnerPhase) :
      Moves ⟨m, g, .admitted, o⟩ ⟨m.step.2, g, .afterCycle m.step.1, o⟩
  | leave (m : State) (g : TickGate) (o : OwnerPhase) :
      Moves ⟨m, g, .leaving, o⟩ ⟨m, g.close, .finished, o⟩

/-- The threads that some order of moves leads to, with the signals of the clock counted. -/
inductive Run (origin : Threads) : Nat → Threads → Prop
  | start : Run origin 0 origin
  | move {signals : Nat} {t u : Threads} : Run origin signals t → Moves t u → Run origin signals u
  /- The worker wakes although nobody has notified it. -/
  | rouse {signals : Nat} {m : State} {g : TickGate} {o : OwnerPhase} :
      Run origin signals ⟨m, g, .parked false, o⟩ → Run origin signals ⟨m, g.wake, .asking, o⟩
  | clock {signals : Nat} {m : State} {g : TickGate} {w : WorkerPhase} :
      Run origin signals ⟨m, g, w, .awaiting⟩ →
        Run origin (signals + 1) ⟨m, g.signal, w.hear g, .awaiting⟩

/-- Whatever moves are made from here on, the owner returns, and with this report. -/
inductive Returns (report : Report) : Threads → Prop
  | here {t : Threads} : t.owner = .returned report → Returns report t
  | later {t : Threads} : (∃ u, Moves t u) → (∀ u, Moves t u → Returns report u) →
      Returns report t

/-- The ticks that have been put into the gate, as far as the owner knows. -/
def Accounts (plan : Plan) (signals : Nat) : OwnerPhase → Nat → Prop
  | .granting left, put => plan = .stopAfter (put + left)
  | .notifying, put | .joining, put => plan = .stopAfter put
  | .awaiting, put => plan = .wait ∧ put = signals
  | .returned _, _ => False

/-- The state in which a machine is left, by the plan of the owner. -/
def Ends (origin : State) : Plan → State → Prop
  | .stopAfter ticks, m => (origin.runFor ticks).2 = m
  | .wait, m => ∃ n, (origin.runFor n).1 ≠ .retired ∧ (origin.runFor n).2 = m

def Reports (origin : State) : Plan → Report → Prop
  | .stopAfter ticks, report => report = (origin.runFor ticks).2.stop.report
  | .wait, report => ∃ n, (origin.runFor n).1 ≠ .retired ∧ report = (origin.runFor n).2.report

def Follows : Plan → OwnerPhase → Prop
  | .stopAfter _, .granting _ | .stopAfter _, .notifying | .stopAfter _, .joining => True
  | .wait, .awaiting => True
  | _, _ => False

/-- The invariant of a session. -/
inductive Valid (origin : State) (plan : Plan) (signals : Nat) : Threads → Prop
  /- Ticks are executed, in hand or pending, and none is lost. A worker that has not been notified
  has no reason to wake. -/
  | working {m : State} {g : TickGate} {w : WorkerPhase} {o : OwnerPhase} (executed : Nat) :
      w.isAtWork = true → origin.runFor executed = (.retired, m) → g.isClosed = o.hasClosed →
      Accounts plan signals o (executed + w.inHand + g.pending) →
      (w = .parked false → g.pending = 0 ∧ (o.hasClosed = true → o = .notifying)) →
        Valid origin plan signals ⟨m, g, w, o⟩
  | ended {m : State} {g : TickGate} {w : WorkerPhase} {o : OwnerPhase} :
      w.isAtWork = false → Follows plan o → Ends origin plan m →
        Valid origin plan signals ⟨m, g, w, o⟩
  | returned {m : State} {g : TickGate} {w : WorkerPhase} {report : Report} :
      w = .finished → Reports origin plan report →
        Valid origin plan signals ⟨m, g, w, .returned report⟩

variable {origin : State} {plan : Plan} {signals : Nat}

theorem follows_of_accounts {o : OwnerPhase} {put : Nat} (h : Accounts plan signals o put) :
    Follows plan o := by
  cases o with
  | granting left | notifying | joining =>
      cases h
      trivial
  | awaiting =>
      cases h.1
      trivial
  | returned report => exact h.elim

/-- A run that stops by itself stops within the ticks of the plan. -/
theorem ends_of_stopped {o : OwnerPhase} {put executed : Nat}
    (h : Accounts plan signals o put) (le : executed ≤ put)
    (stopped : (origin.runFor executed).1 ≠ .retired) :
    Ends origin plan (origin.runFor executed).2 := by
  cases o with
  | granting left =>
      cases h
      exact congrArg Prod.snd (State.runFor_of_le_of_stopped (by omega) stopped)
  | notifying | joining =>
      cases h
      exact congrArg Prod.snd (State.runFor_of_le_of_stopped le stopped)
  | awaiting =>
      cases h.1
      exact ⟨executed, stopped, rfl⟩
  | returned report => exact h.elim

/-- A worker that is refused has executed every tick of the plan. -/
theorem ends_of_refused {o : OwnerPhase} {executed : Nat} (h : Accounts plan signals o executed)
    (closed : o.hasClosed = true) : Ends origin plan (origin.runFor executed).2 := by
  cases o with
  | granting left | awaiting => exact absurd closed Bool.false_ne_true
  | notifying | joining =>
      cases h
      rfl
  | returned report => exact h.elim

theorem valid_start (origin : State) (plan : Plan) : Valid origin plan 0 (start origin plan) := by
  cases plan with
  | stopAfter ticks => exact .working 0 rfl rfl rfl (by simp [Accounts, WorkerPhase.inHand]) nofun
  | wait => exact .working 0 rfl rfl rfl ⟨rfl, rfl⟩ nofun

theorem hear_isAtWork (w : WorkerPhase) (g : TickGate) : (w.hear g).isAtWork = w.isAtWork := by
  unfold WorkerPhase.hear
  split
  · rfl
  · cases w <;> rfl

theorem Valid.request {m : State} {g : TickGate} {o : OwnerPhase}
    (h : Valid origin plan signals ⟨m, g, .asking, o⟩) :
    Valid origin plan signals ⟨m, g.request.2, .afterRequest g.request.1, o⟩ := by
  cases h with
  | ended work _ _ => cases work
  | returned done _ => cases done
  | working executed _ run closed account _ =>
      simp only [WorkerPhase.inHand, Nat.add_zero] at account
      obtain ⟨pending, asked⟩ | ⟨none, shut, asked⟩ | ⟨none, opened, asked⟩ := g.request_cases
      · rw [show executed + g.pending = executed + 1 + (g.pending - 1) by omega] at account
        rw [asked]
        exact .working executed rfl run closed account nofun
      · rw [none, Nat.add_zero] at account
        have ends : Ends origin plan (origin.runFor executed).2 :=
          ends_of_refused account (closed ▸ shut)
        rw [run] at ends
        rw [asked]
        exact .ended rfl (follows_of_accounts account) ends
      · have unclosed : o.hasClosed = false := closed ▸ opened
        rw [asked]
        refine .working executed rfl run closed account fun _ => ⟨none, fun stop => ?_⟩
        exact absurd (unclosed ▸ stop) Bool.false_ne_true

theorem Valid.cycle {m : State} {g : TickGate} {o : OwnerPhase}
    (h : Valid origin plan signals ⟨m, g, .admitted, o⟩) :
    Valid origin plan signals ⟨m.step.2, g, .afterCycle m.step.1, o⟩ := by
  cases h with
  | ended work _ _ => cases work
  | returned done _ => cases done
  | working executed _ run closed account _ =>
      have next : origin.runFor (executed + 1) = m.step := by
        rw [State.runFor_succ_last (congrArg Prod.fst run), run]
      cases outcome : m.step.1 with
      | retired =>
          refine .working (executed + 1) rfl ?_ closed account nofun
          rw [next]
          exact Prod.ext outcome rfl
      | halted _ | faulted _ =>
          have stopped : (origin.runFor (executed + 1)).1 ≠ .retired := by
            rw [next, outcome]
            nofun
          have ends := ends_of_stopped account (by simp [WorkerPhase.inHand]) stopped
          rw [next] at ends
          exact .ended rfl (follows_of_accounts account) ends

theorem Valid.wake {m : State} {g : TickGate} {o : OwnerPhase} {notified : Bool}
    (h : Valid origin plan signals ⟨m, g, .parked notified, o⟩) :
    Valid origin plan signals ⟨m, g.wake, .asking, o⟩ := by
  cases h with
  | ended work _ _ => cases work
  | returned done _ => cases done
  | working executed _ run closed account _ => exact .working executed rfl run closed account nofun

theorem Valid.leave {m : State} {g : TickGate} {o : OwnerPhase}
    (h : Valid origin plan signals ⟨m, g, .leaving, o⟩) :
    Valid origin plan signals ⟨m, g.close, .finished, o⟩ := by
  cases h with
  | working _ work _ _ _ _ => cases work
  | ended _ follows ends => exact .ended rfl follows ends
  | returned done _ => cases done

theorem hear_eq_notify {w : WorkerPhase} {g : TickGate} (opened : g.isClosed = false) :
    w.hear g = w.notify := by
  simp [WorkerPhase.hear, opened]

theorem notify_ne_parked (w : WorkerPhase) : w.notify ≠ .parked false := by
  cases w <;> simp [WorkerPhase.notify]

theorem notify_inHand (w : WorkerPhase) : w.notify.inHand = w.inHand := by
  cases w <;> rfl

theorem notify_isAtWork (w : WorkerPhase) : w.notify.isAtWork = w.isAtWork := by
  cases w <;> rfl

/-- The signal of an owner in one phase that passes into another with one more tick put in. -/
theorem Valid.signal {m : State} {g : TickGate} {w : WorkerPhase} {o o' : OwnerPhase}
    {signals' : Nat} (h : Valid origin plan signals ⟨m, g, w, o⟩)
    (opened : o.hasClosed = false) (opened' : o'.hasClosed = false)
    (follows : Follows plan o → Follows plan o')
    (account : ∀ put, Accounts plan signals o put → Accounts plan signals' o' (put + 1)) :
    Valid origin plan signals' ⟨m, g.signal, w.hear g, o'⟩ := by
  cases h with
  | working executed work run closed put _ =>
      have unclosed : g.isClosed = false := closed.trans opened
      have count := account _ put
      rw [hear_eq_notify unclosed]
      simp only [TickGate.signal, unclosed, Bool.false_eq_true, ite_false]
      refine .working executed ?_ run opened'.symm ?_ fun alone => absurd alone (notify_ne_parked w)
      · rw [notify_isAtWork, work]
      · rwa [notify_inHand, ← Nat.add_assoc]
  | ended work plan ends => exact .ended (by rw [hear_isAtWork, work]) (follows plan) ends
  | returned _ _ => cases opened

theorem Valid.close {m : State} {g : TickGate} {w : WorkerPhase}
    (h : Valid origin plan signals ⟨m, g, w, .granting 0⟩) :
    Valid origin plan signals ⟨m, g.close, w, .notifying⟩ := by
  cases h with
  | working executed work run _ account alone =>
      exact .working executed work run rfl account fun parked => ⟨(alone parked).1, fun _ => rfl⟩
  | ended work follows ends =>
      refine .ended work ?_ ends
      cases plan <;> exact follows

theorem Valid.notify {m : State} {g : TickGate} {w : WorkerPhase}
    (h : Valid origin plan signals ⟨m, g, w, .notifying⟩) :
    Valid origin plan signals ⟨m, g, w.notify, .joining⟩ := by
  cases h with
  | working executed work run closed account _ =>
      refine .working executed ?_ run closed ?_ fun alone => absurd alone (notify_ne_parked w)
      · rw [notify_isAtWork, work]
      · rwa [notify_inHand]
  | ended work follows ends =>
      refine .ended (by rw [notify_isAtWork, work]) ?_ ends
      cases plan <;> exact follows

theorem Valid.stop {m : State} {g : TickGate}
    (h : Valid origin plan signals ⟨m, g, .finished, .joining⟩) :
    Valid origin plan signals ⟨m.stop, g, .finished, .returned m.stop.report⟩ := by
  cases h with
  | working _ work _ _ _ _ => cases work
  | ended _ follows ends =>
      refine .returned rfl ?_
      cases plan with
      | stopAfter ticks => exact congrArg (fun s => s.stop.report) ends.symm
      | wait => exact follows.elim

theorem Valid.wait {m : State} {g : TickGate}
    (h : Valid origin plan signals ⟨m, g, .finished, .awaiting⟩) :
    Valid origin plan signals ⟨m, g.close, .finished, .returned m.report⟩ := by
  cases h with
  | working _ work _ _ _ _ => cases work
  | ended _ follows ends =>
      refine .returned rfl ?_
      cases plan with
      | stopAfter ticks => exact follows.elim
      | wait =>
          obtain ⟨n, stopped, reached⟩ := ends
          exact ⟨n, stopped, congrArg State.report reached.symm⟩

theorem Valid.moves {t u : Threads} (h : Valid origin plan signals t) (move : Moves t u) :
    Valid origin plan signals u := by
  cases move with
  | tick m g w ticks =>
      refine h.signal rfl rfl ?_ ?_
      · cases plan <;> exact id
      · intro put account
        exact account.trans (congrArg Plan.stopAfter (by omega))
  | close m g w => exact h.close
  | notify m g w => exact h.notify
  | stop m g => exact h.stop
  | wait m g => exact h.wait
  | request m g o => exact h.request
  | wake m g o => exact h.wake
  | cycle m g o => exact h.cycle
  | leave m g o => exact h.leave

theorem valid_of_run {t : Threads} (h : Run (start origin plan) signals t) :
    Valid origin plan signals t := by
  induction h with
  | start => exact valid_start origin plan
  | move _ move ih => exact ih.moves move
  | rouse _ ih => exact ih.wake
  | clock _ ih =>
      refine ih.signal rfl rfl id ?_
      intro put account
      exact ⟨account.1, congrArg (· + 1) account.2⟩

/-- What is left to do for a worker, for an owner and in a session. Every move uses some of it
up; only a clock adds to it. -/
def workerEffort : WorkerPhase → Nat
  | .parked true | .admitted => 3
  | .asking => 2
  | .leaving => 1
  | .parked false | .finished => 0

def ownerEffort : OwnerPhase → Nat
  | .granting ticks => 7 * ticks + 6
  | .notifying => 5
  | .joining | .awaiting => 1
  | .returned _ => 0

def effort (t : Threads) : Nat :=
  3 * t.gate.pending + workerEffort t.worker + ownerEffort t.owner

theorem workerEffort_notify (w : WorkerPhase) :
    workerEffort w.notify ≤ workerEffort w + 3 := by
  cases w <;> simp [WorkerPhase.notify, workerEffort]

theorem workerEffort_hear (w : WorkerPhase) (g : TickGate) :
    workerEffort (w.hear g) ≤ workerEffort w + 3 := by
  unfold WorkerPhase.hear
  split
  · omega
  · exact workerEffort_notify w

theorem workerEffort_afterCycle (outcome : Outcome) :
    workerEffort (.afterCycle outcome) < workerEffort .admitted := by
  cases outcome <;> simp [WorkerPhase.afterCycle, workerEffort]

theorem pending_signal (g : TickGate) : g.signal.pending ≤ g.pending + 1 := by
  rw [g.pending_signal_add]
  split <;> omega

theorem effort_request (g : TickGate) :
    3 * g.request.2.pending + workerEffort (.afterRequest g.request.1) <
      3 * g.pending + workerEffort .asking := by
  obtain ⟨_, asked⟩ | ⟨_, _, asked⟩ | ⟨_, _, asked⟩ := g.request_cases
  all_goals
    simp only [asked, WorkerPhase.afterRequest, workerEffort]
    omega

theorem effort_lt_of_moves {t u : Threads} (move : Moves t u) : u.effort < t.effort := by
  cases move with
  | tick m g w ticks =>
      have signalled := pending_signal g
      have heard := workerEffort_hear w g
      simp only [effort, ownerEffort]
      omega
  | close m g w =>
      simp only [effort, ownerEffort, TickGate.close]
      omega
  | notify m g w =>
      have notified := workerEffort_notify w
      simp only [effort, ownerEffort]
      omega
  | request m g o =>
      have asked := effort_request g
      simp only [effort]
      omega
  | cycle m g o =>
      have stepped := workerEffort_afterCycle m.step.1
      simp only [effort]
      omega
  | stop m g | wait m g | wake m g o | leave m g o =>
      simp [effort, workerEffort, ownerEffort, TickGate.close, TickGate.wake]

theorem Moves.ofWorker {w : WorkerPhase} (m : State) (g : TickGate) (o : OwnerPhase)
    (parked : w ≠ .parked false) (finished : w ≠ .finished) : ∃ u, Moves ⟨m, g, w, o⟩ u := by
  cases w with
  | asking => exact ⟨_, .request m g o⟩
  | parked notified =>
      cases notified with
      | true => exact ⟨_, .wake m g o⟩
      | false => exact absurd rfl parked
  | admitted => exact ⟨_, .cycle m g o⟩
  | leaving => exact ⟨_, .leave m g o⟩
  | finished => exact absurd rfl finished

/-- The signals of a clock that are enough for a session to end without further ones. -/
def Driven (origin : State) (signals : Nat) : Plan → Prop
  | .stopAfter _ => True
  | .wait => (origin.runFor signals).1 ≠ .retired

/-- No session is stuck before its owner has returned. -/
theorem Valid.progress {t : Threads} (h : Valid origin plan signals t)
    (driven : Driven origin signals plan) :
    (∃ u, Moves t u) ∨ ∃ report, t.owner = .returned report ∧ Reports origin plan report := by
  cases h with
  | @returned m g w report _ reports => exact .inr ⟨report, rfl, reports⟩
  | @ended m g w o work follows _ =>
      refine .inl ?_
      by_cases finished : w = .finished
      · subst finished
        cases o with
        | granting ticks =>
            cases ticks with
            | zero => exact ⟨_, .close m g _⟩
            | succ ticks => exact ⟨_, .tick m g _ ticks⟩
        | notifying => exact ⟨_, .notify m g _⟩
        | joining => exact ⟨_, .stop m g⟩
        | awaiting => exact ⟨_, .wait m g⟩
        | returned report => cases plan <;> exact follows.elim
      · refine Moves.ofWorker m g o ?_ finished
        rintro rfl
        cases work
  | @working m g w o executed work run closed account alone =>
      refine .inl ?_
      have unfinished : w ≠ .finished := by
        rintro rfl
        cases work
      cases o with
      | granting ticks =>
          cases ticks with
          | zero => exact ⟨_, .close m g w⟩
          | succ ticks => exact ⟨_, .tick m g w ticks⟩
      | notifying => exact ⟨_, .notify m g w⟩
      | joining =>
          refine Moves.ofWorker m g _ ?_ unfinished
          intro parked
          cases (alone parked).2 rfl
      | awaiting =>
          refine Moves.ofWorker m g _ ?_ unfinished
          rintro rfl
          -- Every signal has been executed by a run that has not stopped.
          obtain ⟨rfl, put⟩ := account
          simp only [WorkerPhase.inHand, (alone rfl).1, Nat.add_zero] at put
          exact absurd (congrArg Prod.fst run) (put ▸ driven)
      | returned report => exact account.elim

theorem Valid.returns {t : Threads} (h : Valid origin plan signals t)
    (driven : Driven origin signals plan) {report : Report}
    (unique : ∀ r, Reports origin plan r → r = report) : Returns report t := by
  induction he : t.effort using Nat.strongRecOn generalizing t with
  | ind effort ih =>
      rcases h.progress driven with possible | ⟨r, returned, reports⟩
      · refine .later possible fun u move => ?_
        exact ih u.effort (he ▸ effort_lt_of_moves move) (h.moves move) rfl
      · exact .here (unique r reports ▸ returned)

theorem Valid.report {t : Threads} (h : Valid origin plan signals t) {report : Report}
    (returned : t.owner = .returned report) : Reports origin plan report := by
  cases h with
  | returned _ reports =>
      cases returned
      exact reports
  | working executed _ _ _ account _ =>
      subst returned
      exact account.elim
  | ended _ follows _ =>
      subst returned
      cases plan <;> exact follows.elim

end Threads

end Mips.Machine
