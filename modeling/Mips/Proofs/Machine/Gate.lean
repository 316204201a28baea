import Mips.Machine.TickGate
import Mathlib.Data.Finset.Card

/-!
The ticks of a gate that any number of threads share. What a thread does to the gate it does while
it holds the lock, so a run is a sequence of such sections: a signal, a close, a caller that comes
to the gate, and a parked caller that wakes and comes again. Threads take turns in any order, and a
parked one may wake at any time, whether it has been notified or not.

Every tick that is put into the gate is either pending or was taken by one caller. What is preserved
holds from any state on, so that the ticks before the first close need not be told from the others.
-/
namespace Mips.Machine

namespace TickGate

theorem signal_of_closed {g : TickGate} (closed : g.isClosed = true) : g.signal = g :=
  if_pos closed

theorem isClosed_signal (g : TickGate) : g.signal.isClosed = g.isClosed := by
  rw [signal]
  split <;> rfl

theorem pending_signal_add (g : TickGate) :
    g.signal.pending = g.pending + if g.isClosed then 0 else 1 := by
  rw [signal]
  split <;> rfl

theorem waiters_signal (g : TickGate) : g.signal.waiters = g.waiters := by
  rw [signal]
  split <;> rfl

@[simp] theorem pending_wake (g : TickGate) : g.wake.pending = g.pending := rfl

@[simp] theorem isClosed_wake (g : TickGate) : g.wake.isClosed = g.isClosed := rfl

/-- A caller takes a pending tick; without one it is sent away from a closed gate only. -/
theorem request_cases (g : TickGate) :
    (0 < g.pending ∧ g.request = (.granted, { g with pending := g.pending - 1 })) ∨
      (g.pending = 0 ∧ g.isClosed = true ∧ g.request = (.refused, g)) ∨
      (g.pending = 0 ∧ g.isClosed = false ∧
        g.request = (.parked, { g with waiters := g.waiters + 1 })) := by
  by_cases pending : 0 < g.pending
  · exact .inl ⟨pending, if_pos pending⟩
  · have none : g.pending = 0 := Nat.eq_zero_of_not_pos pending
    rw [request, if_neg pending]
    cases closed : g.isClosed with
    | true => exact .inr (.inl ⟨none, rfl, rfl⟩)
    | false => exact .inr (.inr ⟨none, rfl, rfl⟩)

theorem isClosed_request (g : TickGate) : g.request.2.isClosed = g.isClosed := by
  obtain ⟨_, asked⟩ | ⟨_, _, asked⟩ | ⟨_, _, asked⟩ := g.request_cases <;> rw [asked]

/-- A tick leaves the gate with the caller that is admitted, and with nobody else. -/
theorem pending_request (g : TickGate) :
    (if g.request.1 = .granted then 1 else 0) + g.request.2.pending = g.pending := by
  obtain ⟨pending, asked⟩ | ⟨_, _, asked⟩ | ⟨_, _, asked⟩ := g.request_cases
  · rw [asked, if_pos rfl]
    exact Nat.add_sub_cancel' pending
  · rw [asked, if_neg nofun, Nat.zero_add]
  · rw [asked, if_neg nofun, Nat.zero_add]

theorem request_of_refused {g : TickGate} (refused : g.request.1 = .refused) :
    g.isClosed = true ∧ g.pending = 0 ∧ g.request.2 = g := by
  obtain ⟨_, asked⟩ | ⟨none, closed, asked⟩ | ⟨_, _, asked⟩ := g.request_cases
  · rw [asked] at refused
    cases refused
  · exact ⟨closed, none, congrArg Prod.snd asked⟩
  · rw [asked] at refused
    cases refused

end TickGate

/-- A gate and the threads that are parked at it. -/
structure Crowd (Thread : Type) where
  gate : TickGate
  parked : Finset Thread

namespace Crowd

variable {Thread : Type}

/-- What one thread does while it holds the lock. A caller that comes to the gate, for the first
time or again, is answered. -/
inductive Event (Thread : Type)
  | signal (thread : Thread)
  | close (thread : Thread)
  | arrive (thread : Thread) (answer : Admission)
  | rouse (thread : Thread) (answer : Admission)
  deriving DecidableEq, Repr

namespace Event

def isSignal : Event Thread → Bool
  | signal _ => true
  | _ => false

def isClose : Event Thread → Bool
  | close _ => true
  | _ => false

def answer? : Event Thread → Option Admission
  | arrive _ answer | rouse _ answer => some answer
  | _ => none

end Event

/-- The calls that have returned with a tick. -/
def granted (trace : List (Event Thread)) : Nat :=
  trace.countP fun e => e.answer? = some .granted

def signals (trace : List (Event Thread)) : Nat :=
  trace.countP Event.isSignal

/-- The signals before the first close. -/
def issued (trace : List (Event Thread)) : Nat :=
  signals (trace.takeWhile fun e => !e.isClose)

theorem granted_cons (e : Event Thread) (trace : List (Event Thread)) :
    granted (e :: trace) = granted [e] + granted trace := by
  rw [← List.singleton_append]
  exact List.countP_append

theorem signals_cons (e : Event Thread) (trace : List (Event Thread)) :
    signals (e :: trace) = signals [e] + signals trace := by
  rw [← List.singleton_append]
  exact List.countP_append

theorem issued_cons (e : Event Thread) (trace : List (Event Thread)) :
    issued (e :: trace) = signals [e] + if e.isClose then 0 else issued trace := by
  cases e with
  | close _ => rfl
  | signal _ | arrive _ _ | rouse _ _ => exact signals_cons _ _

theorem issued_le (trace : List (Event Thread)) : issued trace ≤ signals trace :=
  (List.takeWhile_sublist _).countP_le

/-- Nobody has come to the gate yet. -/
def start (Thread : Type) : Crowd Thread :=
  ⟨{}, ∅⟩

variable [DecidableEq Thread]

/-- Who is parked once a thread has been answered. -/
def settle (parked : Finset Thread) (thread : Thread) : Admission → Finset Thread
  | .parked => insert thread parked
  | .granted | .refused => parked

/-- A parked thread does nothing but wake. It comes to the gate again before it lets go of the
lock. -/
inductive Moves : Crowd Thread → Event Thread → Crowd Thread → Prop
  | signal {g : TickGate} {parked : Finset Thread} {thread : Thread} : thread ∉ parked →
      Moves ⟨g, parked⟩ (.signal thread) ⟨g.signal, parked⟩
  | close {g : TickGate} {parked : Finset Thread} {thread : Thread} : thread ∉ parked →
      Moves ⟨g, parked⟩ (.close thread) ⟨g.close, parked⟩
  | arrive {g : TickGate} {parked : Finset Thread} {thread : Thread} : thread ∉ parked →
      Moves ⟨g, parked⟩ (.arrive thread g.request.1)
        ⟨g.request.2, settle parked thread g.request.1⟩
  | rouse {g : TickGate} {parked : Finset Thread} {thread : Thread} : thread ∈ parked →
      Moves ⟨g, parked⟩ (.rouse thread g.wake.request.1)
        ⟨g.wake.request.2, settle (parked.erase thread) thread g.wake.request.1⟩

/-- The threads take turns, and this is the trace of what they do. -/
inductive Run : Crowd Thread → List (Event Thread) → Crowd Thread → Prop
  | done {s : Crowd Thread} : Run s [] s
  | move {s t u : Crowd Thread} {e : Event Thread} {trace : List (Event Thread)} :
      Moves s e t → Run t trace u → Run s (e :: trace) u

section Step

variable {s t : Crowd Thread} {e : Event Thread}

theorem Moves.isClosed (h : Moves s e t) : t.gate.isClosed = (s.gate.isClosed || e.isClose) := by
  cases h with
  | signal _ => simp [TickGate.isClosed_signal, Event.isClose]
  | close _ => simp [TickGate.close, Event.isClose]
  | arrive _ => simp [TickGate.isClosed_request, Event.isClose]
  | rouse _ => simp [TickGate.isClosed_request, Event.isClose]

/-- A tick goes in with a signal to an open gate and comes out with a caller that is admitted. -/
theorem Moves.pending (h : Moves s e t) :
    granted [e] + t.gate.pending =
      s.gate.pending + if s.gate.isClosed then 0 else signals [e] := by
  cases h with
  | signal _ => simp [granted, signals, Event.answer?, Event.isSignal, TickGate.pending_signal_add]
  | close _ => simp [granted, signals, Event.answer?, Event.isSignal, TickGate.close]
  | @arrive g _ _ _ =>
      have taken := g.pending_request
      simpa [granted, signals, Event.answer?, Event.isSignal, List.countP_cons] using taken
  | @rouse g _ _ _ =>
      have taken := g.wake.pending_request
      simpa [granted, signals, Event.answer?, Event.isSignal, List.countP_cons] using taken

theorem waiters_settle {g : TickGate} {parked : Finset Thread} {thread : Thread}
    (free : thread ∉ parked) (counted : g.waiters = parked.card) :
    g.request.2.waiters = (settle parked thread g.request.1).card := by
  obtain ⟨_, asked⟩ | ⟨_, _, asked⟩ | ⟨_, _, asked⟩ := g.request_cases
  · rw [asked]
    exact counted
  · rw [asked]
    exact counted
  · rw [asked, settle, Finset.card_insert_of_notMem free, ← counted]

/-- The gate counts those who are parked. -/
theorem Moves.waiters (h : Moves s e t) (counted : s.gate.waiters = s.parked.card) :
    t.gate.waiters = t.parked.card := by
  cases h with
  | signal _ => rw [TickGate.waiters_signal, counted]
  | close _ => exact counted
  | arrive free => exact waiters_settle free counted
  | @rouse g parked thread asleep =>
      refine waiters_settle (Finset.notMem_erase thread parked) ?_
      rw [Finset.card_erase_of_mem asleep, ← counted]
      rfl

theorem Moves.refused (h : Moves s e t) (refused : e.answer? = some .refused) :
    s.gate.isClosed = true ∧ s.gate.pending = 0 := by
  cases h with
  | signal _ | close _ => cases refused
  | arrive _ =>
      have sent := TickGate.request_of_refused (Option.some.inj refused)
      exact ⟨sent.1, sent.2.1⟩
  | rouse _ =>
      have sent := TickGate.request_of_refused (Option.some.inj refused)
      exact ⟨sent.1, sent.2.1⟩

end Step

section Whole

variable {s t : Crowd Thread} {trace : List (Event Thread)}

theorem Run.isClosed (h : Run s trace t) :
    t.gate.isClosed = (s.gate.isClosed || trace.any Event.isClose) := by
  induction h with
  | done => simp
  | move first _ ih => rw [ih, first.isClosed, List.any_cons, Bool.or_assoc]

theorem Run.waiters (h : Run s trace t) (counted : s.gate.waiters = s.parked.card) :
    t.gate.waiters = t.parked.card := by
  induction h with
  | done => exact counted
  | move first _ ih => exact ih (first.waiters counted)

/-- What a run adds to the ticks that are taken or pending: the signals before its first close,
unless the gate has been closed before. -/
theorem Run.pending (h : Run s trace t) :
    granted trace + t.gate.pending =
      s.gate.pending + if s.gate.isClosed then 0 else issued trace := by
  induction h with
  | @done s => simp [granted, issued, signals]
  | @move s t u e trace first _ ih =>
      have step := first.pending
      rw [first.isClosed] at ih
      rw [granted_cons, issued_cons]
      cases closed : s.gate.isClosed with
      | true =>
          simp only [closed, Bool.true_or, ite_true] at ih step ⊢
          omega
      | false =>
          simp only [closed, Bool.false_or, Bool.false_eq_true, ite_false] at ih step ⊢
          omega

end Whole

/-- What is true of a gate at every moment, given the trace that has led to it. -/
structure Balanced (trace : List (Event Thread)) (s : Crowd Thread) : Prop where
  conserved : granted trace + s.gate.pending = issued trace
  /- A counter of 64 bits does not overflow. -/
  bounded : signals trace < 0x10000000000000000 → s.gate.pending < 0x10000000000000000
  closed : s.gate.isClosed = true ↔ ∃ e ∈ trace, e.isClose = true
  waiting : s.gate.hasWaiter = true ↔ s.parked.Nonempty
  /- Whoever is sent away next finds the gate closed and no tick pending. -/
  refused : ∀ e t, Moves s e t → e.answer? = some .refused →
    (∃ c ∈ trace, c.isClose = true) ∧ s.gate.pending = 0
  deaf : (∃ c ∈ trace, c.isClose = true) → ∀ thread t, Moves s (.signal thread) t → t = s
  shut : (∃ c ∈ trace, c.isClose = true) → ∀ more t, Run s more t → t.gate.isClosed = true

/-- Whatever the threads do, and in whichever order, no tick is lost and none is taken twice. -/
theorem balanced_of_run {trace : List (Event Thread)} {s : Crowd Thread}
    (h : Run (start Thread) trace s) : Balanced trace s := by
  have conserved : granted trace + s.gate.pending = issued trace := by
    simpa [start] using h.pending
  have closed : s.gate.isClosed = true ↔ ∃ e ∈ trace, e.isClose = true := by
    simp [h.isClosed, start]
  have counted : s.gate.waiters = s.parked.card := h.waiters rfl
  refine { conserved, closed, bounded := ?_, waiting := ?_, refused := ?_, deaf := ?_, shut := ?_ }
  · intro few
    have most := issued_le trace
    omega
  · rw [TickGate.hasWaiter, decide_eq_true_iff, counted, Finset.card_pos]
  · intro e t next away
    exact ⟨closed.mp (next.refused away).1, (next.refused away).2⟩
  · rintro before thread t ⟨_⟩
    rw [TickGate.signal_of_closed (closed.mpr before)]
  · intro before more t later
    rw [later.isClosed, closed.mpr before, Bool.true_or]

/-- Two callers park, one of them wakes for nothing, and a tick outlasts the close. -/
def drained : List (Event Nat) :=
  [.arrive 1 .parked, .arrive 2 .parked, .signal 0, .rouse 2 .granted, .rouse 1 .parked,
    .signal 0, .close 0, .signal 0, .rouse 1 .granted, .arrive 2 .refused]

theorem run_drained : Run (start Nat) drained ⟨{ isClosed := true }, ∅⟩ :=
  .move (.arrive (by decide)) <| .move (.arrive (by decide)) <| .move (.signal (by decide)) <|
    .move (.rouse (by decide)) <| .move (.rouse (by decide)) <| .move (.signal (by decide)) <|
      .move (.close (by decide)) <| .move (.signal (by decide)) <| .move (.rouse (by decide)) <|
        .move (.arrive (by decide)) .done

theorem balanced_drained : Run (start Nat) drained ⟨{ isClosed := true }, ∅⟩ ∧
    Balanced drained ⟨{ isClosed := true }, ∅⟩ ∧ granted drained = 2 ∧ issued drained = 2 :=
  ⟨run_drained, balanced_of_run run_drained, rfl, rfl⟩

end Crowd

end Mips.Machine
