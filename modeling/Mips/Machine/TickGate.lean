/-!
A gate that lets one caller pass for each tick. Ticks are counted, so none is lost while nobody
waits. A closed gate takes no more ticks, but those granted before can still be used.
-/
namespace Mips.Machine

structure TickGate where
  pending : Nat := 0
  isClosed : Bool := false
  waiters : Nat := 0
  deriving DecidableEq, Repr

/-- The answer to a caller at the gate. -/
inductive Admission
  | granted
  | refused
  | parked
  deriving DecidableEq, Repr

namespace TickGate

def hasWaiter (g : TickGate) : Bool :=
  0 < g.waiters

def signal (g : TickGate) : TickGate :=
  if g.isClosed then g else { g with pending := g.pending + 1 }

def close (g : TickGate) : TickGate :=
  { g with isClosed := true }

/-- A caller comes to the gate: it takes a tick, is sent away or parks. -/
def request (g : TickGate) : Admission × TickGate :=
  if 0 < g.pending then (.granted, { g with pending := g.pending - 1 })
  else if g.isClosed then (.refused, g)
  else (.parked, { g with waiters := g.waiters + 1 })

/-- A parked caller wakes; it has to come to the gate again. -/
def wake (g : TickGate) : TickGate :=
  { g with waiters := g.waiters - 1 }

end TickGate

end Mips.Machine
