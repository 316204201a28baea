import Mips.Fragment
import Mips.Text.Quotation
import Mathlib.Data.List.Basic

/-!
Places in a source. A fragment that follows some text of a source starts after the bytes of that
text, on the line after its newlines; cutting the fragment keeps this. The bytes at the span of such
a fragment are those of its text.
-/
namespace Mips

namespace Text

theorem utf8Length_pos {text : List Char} (h : text ≠ []) : 0 < utf8Length text := by
  cases text with
  | nil => exact absurd rfl h
  | cons c rest => exact Nat.add_pos_left c.utf8Size_pos _

theorem utf8Length_toList (text : String) : utf8Length text.toList = text.utf8ByteSize := by
  have ofList (cs : List Char) : utf8Length cs = (String.ofList cs).utf8ByteSize := by
    induction cs with
    | nil => rfl
    | cons c rest ih =>
        rw [String.ofList_cons, String.utf8ByteSize_append, String.utf8ByteSize_singleton, ← ih]
        rfl
  rw [ofList, String.ofList_toList]

theorem utf8Bytes_append (a b : List Char) : utf8Bytes (a ++ b) = utf8Bytes a ++ utf8Bytes b :=
  List.flatMap_append

/-- What stands on the last line of a text. -/
def lastLine (text : List Char) : List Char :=
  (text.reverse.takeWhile (· ≠ '\n')).reverse

theorem lastLine_nil : lastLine [] = [] :=
  rfl

theorem lastLine_append (a : List Char) {b : List Char} (h : '\n' ∉ b) :
    lastLine (a ++ b) = lastLine a ++ b := by
  have whole : ∀ c ∈ b.reverse, decide (c ≠ '\n') = true := by
    intro c member
    have other : c ≠ '\n' := fun same => h (same ▸ List.mem_reverse.mp member)
    simpa using other
  rw [lastLine, List.reverse_append, List.takeWhile_append_of_pos whole, List.reverse_append,
    List.reverse_reverse]
  rfl

theorem lastLine_newline (a : List Char) : lastLine (a ++ ['\n']) = [] := by
  simp [lastLine]

/-- A text that neither begins nor ends with a blank and stays on one line. -/
structure Solid (text : List Char) : Prop where
  nonempty : text ≠ []
  oneLine : '\n' ∉ text
  first : ∀ c ∈ text.head?, isBlank c = false
  last : ∀ c ∈ text.getLast?, isBlank c = false

end Text

/-- The bytes of a source from the first to the last of a span. -/
def Span.bytes (source : List Char) (span : Span) : List Byte :=
  ((Text.utf8Bytes source).drop span.first).take (span.last + 1 - span.first)

namespace Fragment

open Text

/-- The fragment of a source that follows some text. -/
def after (before text : List Char) : Fragment :=
  ⟨before.count '\n' + 1, utf8Length before, text⟩

section Cuts

variable (before : List Char) {text : List Char}

theorem after_append {a : List Char} (h : '\n' ∉ a) (text : List Char) :
    after (before ++ a) text =
      ⟨before.count '\n' + 1, utf8Length before + utf8Length a, text⟩ := by
  rw [after, List.count_append, List.count_eq_zero_of_not_mem h, utf8Length_append, Nat.add_zero]

theorem dropWhile_after (h : '\n' ∉ text) (p : Char → Bool) :
    (after before text).dropWhile p =
      after (before ++ text.takeWhile p) (text.dropWhile p) := by
  rw [after_append before fun member => h ((List.takeWhile_sublist p).subset member)]
  rfl

theorem drop_after (h : '\n' ∉ text) (count : Nat) :
    (after before text).drop count = after (before ++ text.take count) (text.drop count) := by
  rw [after_append before fun member => h (List.mem_of_mem_take member)]
  rfl

theorem span_after (h : text ≠ []) :
    (after before text).span = some
      ⟨before.count '\n' + 1, utf8Length before, utf8Length before + utf8Length text - 1⟩ := by
  rw [span, if_neg (by simpa [after] using h)]
  rfl

end Cuts

/-- A fragment that stands in a source at a span: on the line after the newlines before it, and with
just the bytes of the span. -/
structure IsAt (source : List Char) (span : Span) (f : Fragment) : Prop where
  span_eq : f.span = some span
  solid : Solid f.text
  place : ∃ before after, source = before ++ f.text ++ after ∧
    span.line = before.count '\n' + 1 ∧ span.first = utf8Length before
  bytes : span.bytes source = utf8Bytes f.text

theorem isAt_after {source before text rest : List Char} (split : source = before ++ text ++ rest)
    (solid : Solid text) :
    IsAt source ⟨before.count '\n' + 1, utf8Length before,
      utf8Length before + utf8Length text - 1⟩ (after before text) := by
  have positive := utf8Length_pos solid.nonempty
  refine ⟨span_after before solid.nonempty, solid, ⟨before, rest, split, rfl, rfl⟩, ?_⟩
  rw [Span.bytes, split, utf8Bytes_append, utf8Bytes_append, List.append_assoc,
    List.drop_left' (utf8Bytes_length before), List.take_left']
  · rfl
  · rw [utf8Bytes_length]
    simp only
    omega

end Fragment

end Mips
