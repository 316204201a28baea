/-!
Comparison of names that takes an ASCII letter and its other case for the same.
-/
namespace Mips.Text

def lower (text : List Char) : List Char :=
  text.map Char.toLower

def sameName (a b : String) : Bool :=
  lower a.toList == lower b.toList

end Mips.Text
