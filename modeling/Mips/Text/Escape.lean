/-!
Backslash escapes in string and character literals.
-/
namespace Mips.Text

inductive EscapeError
  | unknown (escape : Char)
  | dangling
  deriving DecidableEq, Repr

def EscapeError.message : EscapeError → String
  | .unknown escape => s!"unknown escape sequence \"\\{escape}\""
  | .dangling => "dangling '\\' at end of literal"

/-- The character that a letter after a backslash stands for. -/
def escaped? : Char → Option Char
  | 'n' => some '\n'
  | 't' => some '\t'
  | 'r' => some '\r'
  | '0' => some '\x00'
  | '\\' => some '\\'
  | '"' => some '"'
  | '\'' => some '\''
  | _ => none

/-- The text a literal stands for; of several bad escapes the first is reported. -/
def unescape : List Char → Except EscapeError (List Char)
  | [] => .ok []
  | ['\\'] => .error .dangling
  | '\\' :: c :: rest =>
      match escaped? c with
      | none => .error (.unknown c)
      | some value => (unescape rest).map (value :: ·)
  | c :: rest => (unescape rest).map (c :: ·)

end Mips.Text
