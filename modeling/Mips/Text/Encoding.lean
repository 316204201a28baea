import Mips.Word

/-!
The UTF-8 form of a text, as a list of bytes and as a length in bytes.
-/
namespace Mips.Text

def utf8Length : List Char → Nat
  | [] => 0
  | c :: rest => c.utf8Size + utf8Length rest

def utf8Bytes (text : List Char) : List Byte :=
  text.flatMap fun c => (String.utf8EncodeChar c).map UInt8.toBitVec

theorem utf8Bytes_length (text : List Char) : (utf8Bytes text).length = utf8Length text := by
  induction text with
  | nil => rfl
  | cons c rest ih =>
      simp only [utf8Bytes, utf8Length, List.flatMap_cons, List.length_append, List.length_map,
        String.length_utf8EncodeChar] at ih ⊢
      omega

theorem utf8Length_append (a b : List Char) :
    utf8Length (a ++ b) = utf8Length a + utf8Length b := by
  induction a with
  | nil => simp [utf8Length]
  | cons c rest ih => simp only [List.cons_append, utf8Length, ih, Nat.add_assoc]

end Mips.Text
