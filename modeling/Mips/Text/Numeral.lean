import Mips.Text.Blank
import Mips.Text.Escape

/-!
Integer literals: a character between single quotes, or a number with an optional sign and radix.
A literal must fit in 32 bits, read as signed or as unsigned.
-/
namespace Mips.Text

def integerMin : Int := -0x80000000

def integerMax : Int := 0xFFFFFFFF

inductive IntegerError
  | malformed
  | tooLarge
  | characterCount
  | escape (error : EscapeError)
  deriving DecidableEq, Repr

/-- The problem with a literal, given as it stands in the source. -/
def IntegerError.message (text : String) : IntegerError → String
  | malformed => s!"invalid integer literal \"{text}\""
  | tooLarge => s!"integer literal \"{text}\" does not fit in 32 bits"
  | characterCount => s!"character literal {text} must hold exactly one character"
  | escape error => error.message

/-- The value of a digit in bases up to sixteen. -/
def digit? (c : Char) : Option Nat :=
  if c.isDigit then some (c.toNat - '0'.toNat)
  else if 'a' ≤ c ∧ c ≤ 'f' then some (c.toNat - 'a'.toNat + 10)
  else if 'A' ≤ c ∧ c ≤ 'F' then some (c.toNat - 'A'.toNat + 10)
  else none

/-- The value of one or more digits of a base. -/
def natural? (base : Nat) (digits : List Char) : Option Nat :=
  if digits.isEmpty then none
  else (digits.mapM fun c => (digit? c).filter (· < base)).map
    (·.foldl (fun value digit => base * value + digit) 0)

/-- Takes the sign off a number; true stands for minus. -/
def splitSign : List Char → Bool × List Char
  | '-' :: rest => (true, rest)
  | '+' :: rest => (false, rest)
  | text => (false, text)

/-- Takes the mark of its base off a number. -/
def splitBase : List Char → Nat × List Char
  | '0' :: 'x' :: rest | '0' :: 'X' :: rest => (16, rest)
  | '0' :: 'b' :: rest | '0' :: 'B' :: rest => (2, rest)
  | text => (10, text)

/-- The code point of a character literal, given what follows the opening quote. -/
def character (text : List Char) : Except IntegerError Int :=
  if text.getLast? = some '\'' then
    match unescape text.dropLast with
    | .ok [c] => .ok c.toNat
    | .ok _ => .error .characterCount
    | .error e => .error (.escape e)
  else .error .malformed

def number (text : List Char) : Except IntegerError Int :=
  let (negative, unsigned) := splitSign text
  let (base, digits) := splitBase unsigned
  match natural? base digits with
  | none => .error .malformed
  | some magnitude =>
      let value : Int := if negative then -magnitude else magnitude
      if integerMin ≤ value ∧ value ≤ integerMax then .ok value else .error .tooLarge

/-- The value of an integer literal; blanks around it do not matter. -/
def integer (text : List Char) : Except IntegerError Int :=
  match trim text with
  | '\'' :: rest => character rest
  | text => number text

end Mips.Text
