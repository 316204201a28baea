import Mips.Instruction

/-!
A program in two segments, the text of statements and the data of variables. A label names an
entry of one segment; a name that is already bound in either segment keeps its entry.
-/
namespace Mips

structure Statement where
  instruction : Instruction
  operands : List Operand := []
  line : Option Nat := none
  deriving DecidableEq, Repr

inductive VariableKind
  | byte
  | half
  | word
  | ascii
  | asciiz
  | space
  deriving DecidableEq, Repr

namespace VariableKind

def all : List VariableKind :=
  [byte, half, word, ascii, asciiz, space]

def name : VariableKind → String
  | byte => "byte"
  | half => "half"
  | word => "word"
  | ascii => "ascii"
  | asciiz => "asciiz"
  | space => "space"

def alignment : VariableKind → Nat
  | half => 2
  | word => 4
  | byte | ascii | asciiz | space => 1

end VariableKind

structure Variable where
  kind : VariableKind
  size : Nat
  initial : Option Operand := none
  line : Option Nat := none
  deriving DecidableEq, Repr

/-- Entries in order, and the labels bound to their positions. -/
structure Segment (Entry : Type) where
  entries : Array Entry := #[]
  labels : List (String × Nat) := []
  deriving DecidableEq, Repr

namespace Segment

variable {Entry : Type}

def size (s : Segment Entry) : Nat :=
  s.entries.size

def get? (s : Segment Entry) (index : Nat) : Option Entry :=
  s.entries[index]?

def labelIndex? (s : Segment Entry) (name : String) : Option Nat :=
  s.labels.lookup name

def hasLabel (s : Segment Entry) (name : String) : Bool :=
  (s.labelIndex? name).isSome

/-- The labels by name. -/
def sortedLabels (s : Segment Entry) : List (String × Nat) :=
  s.labels.mergeSort fun a b => a.1 ≤ b.1

def labelsAt (s : Segment Entry) (index : Nat) : List String :=
  (s.sortedLabels.filter fun label => label.2 = index).map Prod.fst

/-- Adds an entry under labels that must be new. -/
def push (s : Segment Entry) (entry : Entry) (names : List String) : Segment Entry where
  entries := s.entries.push entry
  labels := s.labels ++ names.map fun name => (name, s.size)

/-- Binds a label to a position, whatever the label or the position was before. -/
def rebind (s : Segment Entry) (name : String) (index : Nat) : Segment Entry :=
  { s with labels := s.labels.filter (fun label => label.1 ≠ name) ++ [(name, index)] }

/-- A label whose position holds no entry. -/
def danglingLabel? (s : Segment Entry) : Option (String × Nat) :=
  s.labels.find? fun label => s.size ≤ label.2

end Segment

inductive ProgramError
  | indexOutOfRange (name : String) (index length : Nat)
  | alreadyBound (name : String)
  deriving DecidableEq, Repr

def ProgramError.message : ProgramError → String
  | indexOutOfRange name index length =>
      s!"label '{name}' bound to index {index} but the segment has {length} entries"
  | alreadyBound name => s!"label '{name}' is bound in both segments"

inductive Entry
  | statement (value : Statement)
  | variable (value : Variable)
  deriving DecidableEq, Repr

structure Program where
  text : Segment Statement := {}
  data : Segment Variable := {}
  deriving DecidableEq, Repr

namespace Program

def hasLabel (p : Program) (name : String) : Bool :=
  p.text.hasLabel name || p.data.hasLabel name

def resolveLabel? (p : Program) (name : String) : Option Target :=
  ((p.text.labelIndex? name).map .text).or ((p.data.labelIndex? name).map .data)

/-- Of some names those that are bound nowhere, each once. -/
def freshNames (p : Program) (names : List String) : List String :=
  names.eraseDups.filter fun name => !p.hasLabel name

def pushStatement (p : Program) (s : Statement) (names : List String) : Program :=
  { p with text := p.text.push s (p.freshNames names) }

def pushVariable (p : Program) (v : Variable) (names : List String) : Program :=
  { p with data := p.data.push v (p.freshNames names) }

def push (p : Program) (entry : Entry) (names : List String) : Program :=
  match entry with
  | .statement s => p.pushStatement s names
  | .variable v => p.pushVariable v names

/-- Every label must name an entry, and no name may be bound in both segments. -/
def validate (p : Program) : Except ProgramError Unit :=
  match p.text.danglingLabel?, p.data.danglingLabel? with
  | some (name, index), _ => .error (.indexOutOfRange name index p.text.size)
  | none, some (name, index) => .error (.indexOutOfRange name index p.data.size)
  | none, none =>
      match p.text.labels.find? fun label => p.data.hasLabel label.1 with
      | some (name, _) => .error (.alreadyBound name)
      | none => .ok ()

end Program

end Mips
