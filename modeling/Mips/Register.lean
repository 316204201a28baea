import Mips.Text.Case

/-!
The 32 general-purpose registers. A register is its number; its conventional name is read from
a table.
-/
namespace Mips

structure Register where
  number : Fin 32
  deriving DecidableEq, Repr

namespace Register

def count : Nat := 32

def names : Vector String 32 :=
  #v["zero", "at", "v0", "v1", "a0", "a1", "a2", "a3", "t0", "t1", "t2", "t3", "t4", "t5", "t6",
    "t7", "s0", "s1", "s2", "s3", "s4", "s5", "s6", "s7", "t8", "t9", "k0", "k1", "gp", "sp",
    "fp", "ra"]

def zero : Register := ⟨0⟩
def v0 : Register := ⟨2⟩
def a0 : Register := ⟨4⟩
def gp : Register := ⟨28⟩
def sp : Register := ⟨29⟩
def fp : Register := ⟨30⟩
def ra : Register := ⟨31⟩

def all : List Register :=
  (List.finRange 32).map Register.mk

def name (r : Register) : String :=
  names.get r.number

/-- The name as it is written in a program. -/
def text (r : Register) : String :=
  "$" ++ r.name

def ofNumber? (n : Nat) : Option Register :=
  if h : n < 32 then some ⟨⟨n, h⟩⟩ else none

/-- The value of a plain decimal number; one plus sign may stand before it. -/
def decimal? (text : List Char) : Option Nat :=
  let digits := match text with
    | '+' :: rest => rest
    | rest => rest
  if digits ≠ [] ∧ digits.all Char.isDigit then
    some (digits.foldl (fun n c => 10 * n + (c.toNat - '0'.toNat)) 0)
  else none

/-- Reads a name or a number, with or without the dollar sign; `s8` is another name of `fp`. -/
def ofName? (text : String) : Option Register :=
  let name := match text.toList with
    | '$' :: rest => rest
    | rest => rest
  match decimal? name with
  | some n => ofNumber? n
  | none =>
      let lowered := String.ofList (Text.lower name)
      if lowered = "s8" then some fp
      else all.find? fun r => r.name = lowered

end Register

end Mips
