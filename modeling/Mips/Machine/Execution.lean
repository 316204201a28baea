import Mips.Machine.Behaviour
import Mips.Machine.State

/-!
The execution of one statement. A computation keeps the changes it has made when it faults, so
every statement does all that can fault before it writes its result.
-/
namespace Mips.Machine

/-- A computation on a machine, with a result or a fault. -/
def Exec (α : Type) : Type :=
  State → Except Fault α × State

namespace Exec

variable {α β : Type}

instance : Monad Exec where
  pure a := fun s => (.ok a, s)
  bind x f := fun s =>
    match x s with
    | (.ok a, s) => f a s
    | (.error fault, s) => (.error fault, s)

theorem pure_apply (a : α) (s : State) : (pure a : Exec α) s = (.ok a, s) := rfl

theorem bind_apply (x : Exec α) (f : α → Exec β) (s : State) :
    (x >>= f) s = match x s with
      | (.ok a, s) => f a s
      | (.error fault, s) => (.error fault, s) := rfl

def ofExcept (result : Except Fault α) : Exec α :=
  fun s => (result, s)

/-- The current state under a view. -/
def look (view : State → α) : Exec α :=
  fun s => (.ok (view s), s)

def change (f : State → State) : Exec Unit :=
  fun s => (.ok (), f s)

/-- Runs a transfer that may fault. -/
def transfer (f : Bus → Except Fault α × Bus) : Exec α :=
  fun s =>
    let (result, bus) := f s.bus
    (result, { s with bus })

def readRegister (r : Register) : Exec Word :=
  transfer fun b => let (value, b) := b.readRegister r; (.ok value, b)

def writeRegister (r : Register) (value : Word) : Exec Unit :=
  transfer fun b => (.ok (), b.writeRegister r value)

def readMemory (address : Word) (length : Nat) (signed : Bool) : Exec Word :=
  transfer fun b => b.readMemory address length signed

def writeMemory (address value : Word) (length : Nat) : Exec Unit :=
  transfer fun b => b.writeMemory address value length

def print (text : List Char) : Exec Unit :=
  change fun s => { s with console := s.console ++ String.ofList text }

end Exec

open Exec

/-- What is left to do with the program counter after a statement. -/
inductive Completion
  | advance
  | jumped
  | exit
  deriving DecidableEq, Repr

def malformed (s : Statement) : Fault :=
  .malformedStatement s.instruction.mnemonic

def registerAt (s : Statement) (index : Nat) : Except Fault Register :=
  match s.operands[index]? with
  | some (.register r) => .ok r
  | _ => .error (malformed s)

def addressAt (s : Statement) (index : Nat) : Except Fault Address :=
  match s.operands[index]? with
  | some (.address a) => .ok a
  | _ => .error (malformed s)

def immediateAt (s : Statement) (index : Nat) : Except Fault Word :=
  match s.operands[index]? with
  | some (.integer value) => .ok (Word.ofInt value)
  | _ => .error (malformed s)

/-- What a register holds, or an immediate. -/
def valueAt (s : Statement) (index : Nat) : Exec Word :=
  match s.operands[index]? with
  | some (.register r) => readRegister r
  | some (.integer value) => pure (Word.ofInt value)
  | _ => ofExcept (.error (malformed s))

/-- The address of the label in an address; without a label it is zero. -/
def labelAddress (l : Layout) (a : Address) : Except Fault Int :=
  match a.label with
  | none => .ok 0
  | some name =>
      match a.target.bind l.targetAddress? with
      | some word => .ok word.toNat
      | none => .error (.unresolvedLabel name)

/-- The sum of the parts of an address, cut to 32 bits. -/
def effectiveAddress (a : Address) : Exec Word := do
  let layout ← look State.layout
  let start ← ofExcept (labelAddress layout a)
  let displaced := start + a.offset.getD 0
  match a.base with
  | none => return Word.ofInt displaced
  | some r =>
      let base ← readRegister r
      return Word.ofInt (displaced + base.toInt)

/-- Announces a change that the machine itself has made. -/
def State.publish (s : State) (component : Component) : State :=
  s.mapChannel fun c => c.emit ⟨component, s.cycles⟩

def jumpTo (target : Word) : Exec Completion := do
  change fun s =>
    { s with control := { s.control with data := target }.jump }.publish .controlUnit
  return .jumped

/-- The bytes of memory from an address on. -/
def bytesLeft (m : Memory) (address : Word) : Nat :=
  m.base.toNat + m.size.toNat - address.toNat

/-- Prints the bytes from an address up to the first zero byte. After as many bytes as are left in
memory the next read faults. -/
def printFrom : Nat → Word → Exec Unit
  | 0, address => do
      let _ ← readMemory address 1 false
      return ()
  | left + 1, address => do
      let byte ← readMemory address 1 false
      if byte = 0 then return ()
      else
        print [Char.ofNat byte.toNat]
        printFrom left (address + 1)

/-- Service 1 prints an integer, 4 a string and 11 a character; 10 ends the run. -/
def syscall : Exec Completion := do
  let service ← readRegister .v0
  if service = 1 then
    let value ← readRegister .a0
    print (toString value.toInt).toList
    return .advance
  else if service = 4 then
    let address ← readRegister .a0
    let memory ← look fun s => s.bus.memory
    printFrom (bytesLeft memory address) address
    return .advance
  else if service = 10 then
    return .exit
  else if service = 11 then
    let value ← readRegister .a0
    print [Char.ofNat (value.toNat % 256)]
    return .advance
  else
    ofExcept (.error (.unsupportedSyscall service))

/-- With two operands the comparison is with zero. -/
def branchOperands (s : Statement) : Exec (Word × Address) :=
  if s.operands.length = 2 then do
    let address ← ofExcept (addressAt s 1)
    return (0, address)
  else do
    let value ← valueAt s 1
    let address ← ofExcept (addressAt s 2)
    return (value, address)

def execute (s : Statement) : Exec Completion :=
  match behaviour s.instruction with
  | .nothing => return .advance
  | .service => syscall
  | .arithmetic result => do
      let target ← ofExcept (registerAt s 0)
      let source ← ofExcept (registerAt s 1)
      let a ← readRegister source
      let b ← valueAt s 2
      match result a b with
      | none => ofExcept (.error .arithmeticOverflow)
      | some value =>
          writeRegister target value
          return .advance
  | .immediate result => do
      let value ← ofExcept (immediateAt s 1)
      let target ← ofExcept (registerAt s 0)
      writeRegister target (result value)
      return .advance
  | .loadAddress => do
      let place ← ofExcept (addressAt s 1)
      let address ← effectiveAddress place
      let target ← ofExcept (registerAt s 0)
      writeRegister target address
      return .advance
  | .copy => do
      let source ← ofExcept (registerAt s 1)
      let value ← readRegister source
      let target ← ofExcept (registerAt s 0)
      writeRegister target value
      return .advance
  | .load width signed => do
      let target ← ofExcept (registerAt s 0)
      let place ← ofExcept (addressAt s 1)
      let address ← effectiveAddress place
      let value ← readMemory address width signed
      writeRegister target value
      return .advance
  | .store width => do
      let source ← ofExcept (registerAt s 0)
      let value ← readRegister source
      let place ← ofExcept (addressAt s 1)
      let address ← effectiveAddress place
      writeMemory address value width
      return .advance
  | .branch taken => do
      let source ← ofExcept (registerAt s 0)
      let a ← readRegister source
      let (b, place) ← branchOperands s
      if taken a b then
        let target ← effectiveAddress place
        jumpTo target
      else return .advance
  | .jump links => do
      let place ← ofExcept (addressAt s 0)
      let target ← effectiveAddress place
      if links then
        let next ← look fun s => s.control.pc + 4
        writeRegister .ra next
        jumpTo target
      else jumpTo target
  | .jumpRegister => do
      let source ← ofExcept (registerAt s 0)
      let _ ← readRegister source
      change fun s =>
        let (control, bus) := s.bus.sendControl s.control
        { s with control := control.jump, bus }
      return .jumped

end Mips.Machine
