/-!
Notifications of changes in the parts of a machine. A channel has a sending end, which the
machine may hold, and a receiving end, which an observer may hold. What is sent while nobody
receives is lost, and nothing in the machine depends on a channel.
-/
namespace Mips.Machine

inductive Component
  | registers
  | memory
  | instructionRegister
  | controlUnit
  | loadStoreUnit
  deriving DecidableEq, Repr

structure Event where
  component : Component
  cycle : Nat
  deriving DecidableEq, Repr

/-- `received` holds what the observer has not read yet, the newest event first. -/
structure Channel where
  isConnected : Bool := false
  received : Option (List Event) := none
  deriving DecidableEq, Repr

namespace Channel

/-- A new channel with both ends held. -/
def connected : Channel where
  isConnected := true
  received := some []

/-- The machine gives up the sending end. -/
def disconnect (c : Channel) : Channel :=
  { c with isConnected := false }

/-- The observer gives up the receiving end. -/
def hangUp (c : Channel) : Channel :=
  { c with received := none }

def emit (c : Channel) (event : Event) : Channel :=
  if c.isConnected then { c with received := c.received.map (event :: ·) } else c

/-- The events that have not been read, oldest first, if somebody receives. -/
def events? (c : Channel) : Option (List Event) :=
  c.received.map List.reverse

def drain (c : Channel) : Channel :=
  { c with received := c.received.map fun _ => [] }

end Channel

end Mips.Machine
