import Mips.Register
import Mips.Word

/-!
The values of the registers. What is written to `$zero` is lost, so it keeps the zero it starts
with.
-/
namespace Mips.Machine

structure RegisterFile where
  values : Vector Word 32 := Vector.replicate 32 0
  deriving DecidableEq, Repr

namespace RegisterFile

def get (file : RegisterFile) (r : Register) : Word :=
  file.values.get r.number

def set (file : RegisterFile) (r : Register) (value : Word) : RegisterFile :=
  if r = .zero then file else { values := file.values.set r.number value r.number.isLt }

theorem get_eq_getElem (file : RegisterFile) (r : Register) :
    file.get r = file.values[r.number.val] := rfl

theorem get_set (file : RegisterFile) (r s : Register) (value : Word) :
    (file.set r value).get s = if r ≠ .zero ∧ r = s then value else file.get s := by
  by_cases zero : r = .zero
  · simp [set, zero]
  · by_cases same : r = s
    · subst same
      simp [set, zero, get_eq_getElem]
    · have apart : r.number.val ≠ s.number.val := fun e =>
        same (congrArg Register.mk (Fin.ext e))
      simp [set, zero, same, get_eq_getElem, apart]

end RegisterFile

end Mips.Machine
