import Mips.Assembly.Reading
import Mips.Program.Link

/-!
A program while it is being assembled. Labels wait until the next entry, in whichever segment it
comes, and are then bound to it.
-/
namespace Mips.Assembly

open Source

/-- An assembled program with all problems that were found, in the order of their finding. -/
structure Result where
  program : Program := {}
  problems : Problems := []
  deriving DecidableEq, Repr

namespace Result

/-- Only a program without critical problems is meant to run. -/
def isRunnable (r : Result) : Bool :=
  !r.problems.hasCritical

/-- Places all labels; the undefined ones become problems. -/
def link (r : Result) : Result where
  program := r.program.link
  problems := r.problems ++ r.program.undefinedLabels.map fun label =>
    Problem.atLine (Issue.undefinedLabel label.name).message label.line

end Result

structure Draft where
  segment : Option SegmentName := none
  program : Program := {}
  findings : List Finding := []
  outstanding : List String := []
  deriving DecidableEq, Repr

namespace Draft

def report (d : Draft) (findings : List Finding) : Draft :=
  { d with findings := d.findings ++ findings }

/-- What is wrong with a declaration of a name at this point. -/
def labelIssue? (d : Draft) (name : String) : Option Issue :=
  if d.program.hasLabel name || d.outstanding.contains name then some (.labelTaken name)
  else if name = entryLabel ∧ d.segment ≠ some .text then some .entryOutsideText
  else none

/-- A label waits for its entry even if its name is taken. -/
def declare (d : Draft) (node : LabelNode) : Draft :=
  match node.error with
  | some reason => d.report [⟨.syntactic .label reason, node.span⟩]
  | none =>
      let found := (d.labelIssue? node.name).toList.map fun issue => ⟨issue, node.span⟩
      { d.report found with outstanding := d.outstanding ++ [node.name] }

/-- The entry takes all labels that wait. -/
def push (d : Draft) (entry : Entry) : Draft :=
  { d with program := d.program.push entry d.outstanding, outstanding := [] }

/-- The segment that is open after an item. -/
def segmentAfter (segment : Option SegmentName) : Item → Option SegmentName
  | .marker node => some node.segment
  | _ => segment

def enter (d : Draft) (item : Item) : Draft :=
  match item with
  | .label node => d.declare node
  | item =>
      let reading := Reading.ofItem d.segment item
      reading.entries.foldl push
        { d.report reading.findings with segment := segmentAfter d.segment item }

/-- What is wrong at the end of the source. -/
def closingIssues (d : Draft) : List Issue :=
  (if d.program.text.hasLabel entryLabel then [] else [.missingEntry]) ++
    (if d.outstanding.isEmpty then [] else [.unboundLabels d.outstanding])

def close (d : Draft) : Draft :=
  { d.report (d.closingIssues.map fun issue => ⟨issue, none⟩) with outstanding := [] }

def result (d : Draft) : Result where
  program := d.program
  problems := d.findings.map Finding.problem

end Draft

/-- The program of some items, before its labels are placed. -/
def extract (items : List Item) : Result :=
  (items.foldl Draft.enter {}).close.result

/-- Assembles a source. -/
def assemble (source : String) : Result :=
  (extract (items source)).link

end Mips.Assembly
