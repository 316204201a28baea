import Mips.Assembly.Draft

/-!
Assembling the contents of a file, which may be absent and need not be text.
-/
namespace Mips.Assembly

inductive FileError
  | absent (name : String)
  | notText (name : String)
  deriving DecidableEq, Repr

def FileError.message : FileError → String
  | absent name => s!"cannot read {name}: No such file or directory (os error 2)"
  | notText name => s!"{name} is not valid UTF-8"

/-- Assembles a file with the given contents, if there is one. -/
def assembleFile (name : String) (contents : Option ByteArray) : Except FileError Result :=
  match contents with
  | none => .error (.absent name)
  | some bytes =>
      match String.fromUTF8? bytes with
      | none => .error (.notText name)
      | some source => .ok (assemble source)

end Mips.Assembly
