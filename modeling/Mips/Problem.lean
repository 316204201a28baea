/-!
Problems found in a program, and where. A problem that belongs to no place in the source has
neither a line nor a range; outside the library both are then shown as -1.
-/
namespace Mips

/-- A construct's place: its line, counted from one, and the offsets of its first and last byte
in the whole source. -/
structure Span where
  line : Nat
  first : Nat
  last : Nat
  deriving DecidableEq, Repr

inductive Severity
  | nonCritical
  | critical
  deriving DecidableEq, Repr

namespace Severity

def default : Severity := .critical

def name : Severity → String
  | nonCritical => "NonCritical"
  | critical => "Critical"

/-- The word that opens a line of a report. -/
def heading : Severity → String
  | nonCritical => "warning"
  | critical => "error"

end Severity

structure Problem where
  message : String
  severity : Severity := .default
  line : Option Nat := none
  range : Option (Nat × Nat) := none
  deriving DecidableEq, Repr

namespace Problem

def unlocated (message : String) : Problem :=
  { message }

def atLine (message : String) (line : Option Nat) : Problem :=
  { message, line }

def spanning (message : String) (span : Option Span) : Problem :=
  { message, line := span.map Span.line, range := span.map fun s => (s.first, s.last) }

def isCritical (p : Problem) : Bool :=
  p.severity = .critical

def isPositionFree (p : Problem) : Bool :=
  p.line.isNone && p.range.isNone

/-- Shown in place of a line that is not known. -/
def noLine : Int := -1

/-- Shown in place of either end of a range that is not known. -/
def noRange : Int := -1

/-- Positions are shown as signed numbers of 64 bits. -/
def shown (position : Nat) : Int :=
  Int.bmod position 0x10000000000000000

def shownLine (p : Problem) : Int :=
  p.line.elim noLine shown

def shownRange (p : Problem) : Int × Int :=
  p.range.elim (noRange, noRange) fun range => (shown range.1, shown range.2)

def text (p : Problem) : String :=
  match p.line with
  | none => p.message
  | some line => s!"line {line}: {p.message}"

end Problem

/-- Problems in the order in which they were found. -/
abbrev Problems := List Problem

namespace Problems

def hasCritical (problems : Problems) : Bool :=
  problems.any Problem.isCritical

def text (problems : Problems) : String :=
  "\n".intercalate (problems.map Problem.text)

/-- One line per problem, each headed by its severity. -/
def report (problems : Problems) : String :=
  "\n".intercalate (problems.map fun p => s!"{p.severity.heading}: {p.text}")

end Problems

end Mips
