import Mips.Problem
import Mips.Text.Blank
import Mips.Text.Encoding

/-!
A fragment is a piece of one source line that knows where it stands. Cutting a fragment moves
its start by the bytes that are cut off, so the place of every construct follows from its text.
-/
namespace Mips

structure Fragment where
  line : Nat
  start : Nat
  text : List Char
  deriving DecidableEq, Repr

namespace Fragment

def string (f : Fragment) : String :=
  String.ofList f.text

/-- The offset just after the last byte. -/
def stop (f : Fragment) : Nat :=
  f.start + Text.utf8Length f.text

/-- An empty fragment covers no place. -/
def span (f : Fragment) : Option Span :=
  if f.text.isEmpty then none else some ⟨f.line, f.start, f.stop - 1⟩

def takeWhile (p : Char → Bool) (f : Fragment) : Fragment :=
  { f with text := f.text.takeWhile p }

def dropWhile (p : Char → Bool) (f : Fragment) : Fragment :=
  { f with
    start := f.start + Text.utf8Length (f.text.takeWhile p)
    text := f.text.dropWhile p }

def take (count : Nat) (f : Fragment) : Fragment :=
  { f with text := f.text.take count }

def drop (count : Nat) (f : Fragment) : Fragment :=
  { f with
    start := f.start + Text.utf8Length (f.text.take count)
    text := f.text.drop count }

def trimStart (f : Fragment) : Fragment :=
  f.dropWhile Text.isBlank

def trimEnd (f : Fragment) : Fragment :=
  { f with text := Text.trimEnd f.text }

def trim (f : Fragment) : Fragment :=
  f.trimStart.trimEnd

/-- Fragments of one line that follow each other from an offset on, one byte apart. -/
def spread (line : Nat) : Nat → List (List Char) → List Fragment
  | _, [] => []
  | start, text :: more =>
      ⟨line, start, text⟩ :: spread line (start + Text.utf8Length text + 1) more

theorem takeWhile_append_dropWhile (p : Char → Bool) (f : Fragment) :
    (f.takeWhile p).text ++ (f.dropWhile p).text = f.text :=
  List.takeWhile_append_dropWhile

end Fragment

end Mips
