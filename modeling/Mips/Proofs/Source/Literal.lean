import Mips.Proofs.Text.Scan
import Mips.Source.Value
import Mathlib.Data.List.Basic

/-!
String literals. A text is written between double quotes with its backslashes, double quotes and
newlines escaped. Comments, the cutting of operands, the end of the literal and its escapes are read
by four scans, and each of them reads such a literal as a whole.
-/
namespace Mips

namespace Text

/-- A character as it is written between double quotes. -/
def escapeChar (c : Char) : List Char :=
  if c = '\\' then ['\\', '\\']
  else if c = '"' then ['\\', '"']
  else if c = '\n' then ['\\', 'n']
  else [c]

/-- A text as it is written between double quotes. -/
def escape (text : List Char) : List Char :=
  text.flatMap escapeChar

/-- A text and a way to write it between double quotes: each character stands for itself or is
escaped. -/
inductive WrittenAs : List Char → List Char → Prop
  | nil : WrittenAs [] []
  | plain {c : Char} {rest written : List Char} (unescaped : c ∉ ['\\', '"', '\n'])
      (later : WrittenAs rest written) : WrittenAs (c :: rest) (c :: written)
  | escaped {c letter : Char} {rest written : List Char} (reads : escaped? letter = some c)
      (later : WrittenAs rest written) : WrittenAs (c :: rest) ('\\' :: letter :: written)

theorem writtenAs_escape (text : List Char) : WrittenAs text (escape text) := by
  induction text with
  | nil => exact .nil
  | cons c rest ih =>
      rw [escape, List.flatMap_cons, ← escape, escapeChar]
      by_cases slash : c = '\\'
      · subst slash
        exact .escaped rfl ih
      by_cases quote : c = '"'
      · subst quote
        exact .escaped rfl ih
      by_cases newline : c = '\n'
      · subst newline
        exact .escaped rfl ih
      rw [if_neg slash, if_neg quote, if_neg newline]
      exact .plain (by simp [slash, quote, newline]) ih

theorem unescape_cons {c : Char} (h : c ≠ '\\') (rest : List Char) :
    unescape (c :: rest) = (unescape rest).map (c :: ·) := by
  rw [unescape.eq_def]
  split
  · next empty => cases empty
  · next same => exact absurd (List.cons.inj same).1 h
  · next same => exact absurd (List.cons.inj same).1 h
  · next same =>
      obtain ⟨rfl, rfl⟩ := List.cons.inj same
      rfl

/-- The number of backslashes at the end of a text. -/
def slashes (text : List Char) : Nat :=
  (text.reverse.takeWhile (· = '\\')).length

theorem slashes_slash (text : List Char) : slashes (text ++ ['\\']) = slashes text + 1 := by
  simp [slashes]

theorem slashes_other (text : List Char) {c : Char} (h : c ≠ '\\') : slashes (text ++ [c]) = 0 := by
  simp [slashes, h]

/-- A backslash after which a literal goes on is escaped by another one. -/
theorem slash_before_slash {q : Quotation} {c delimiter : Char}
    (h : (q.next c).next '\\' = .inside delimiter) : c = '\\' := by
  cases q with
  | outside => by_cases quote : c = '"' ∨ c = '\'' <;> simp [Quotation.next, quote] at h
  | inside d =>
      by_contra other
      rw [Quotation.next, if_neg other] at h
      by_cases ends : c = d <;> simp [Quotation.next, ends] at h
  | escaped d => simp [Quotation.next] at h

theorem slashes_ne_one {text : List Char} (h : (Quotation.inside '"').after text = .inside '"') :
    slashes text ≠ 1 := by
  obtain rfl | ⟨front, c, rfl⟩ := text.eq_nil_or_concat'
  · decide
  by_cases slash : c = '\\'
  · subst slash
    obtain rfl | ⟨front, d, rfl⟩ := front.eq_nil_or_concat'
    · cases h
    · rw [Quotation.after_append, Quotation.after_append] at h
      obtain rfl := slash_before_slash h
      rw [slashes_slash, slashes_slash]
      simp
  · rw [slashes_other front slash]
    decide

end Text

namespace Source

open Text

/-- The end of an operand decides whether it is a string: a single backslash before the last quote
is taken to escape it. -/
theorem stringBody?_literal (body : List Char) :
    stringBody? (body ++ ['"']) = if slashes body = 1 then none else some body := by
  have back : (body ++ ['"']).reverse = '"' :: body.reverse := by simp
  rw [stringBody?, back, slashes, List.dropLast_concat]
  cases body.reverse with
  | nil => rfl
  | cons c rest =>
      by_cases slash : c = '\\'
      · cases rest with
        | nil => simp [slash]
        | cons d more => by_cases another : d = '\\' <;> simp [slash, another]
      · simp [slash]

end Source

namespace Text

namespace WrittenAs

variable {text written : List Char} (h : WrittenAs text written)
include h

/-- Escapes are undone when the literal is read. -/
theorem unescape : Text.unescape written = .ok text := by
  induction h with
  | nil => rfl
  | plain unescaped _ ih =>
      rw [unescape_cons fun slash => unescaped (by simp [slash]), ih]
      rfl
  | escaped reads _ ih =>
      rw [Text.unescape, reads, ih]
      rfl

theorem oneLine : '\n' ∉ written := by
  induction h with
  | nil => nofun
  | plain unescaped _ ih =>
      rintro (_ | ⟨_, member⟩)
      · exact unescaped (by decide)
      · exact ih member
  | escaped reads _ ih =>
      rintro (_ | ⟨_, _ | ⟨_, member⟩⟩)
      · cases reads
      · exact ih member

/-- Between the quotes there is no comment, and the closing quote is not escaped. -/
theorem quotation : (Quotation.inside '"').uncommented written = written ∧
    (Quotation.inside '"').after written = .inside '"' := by
  induction h with
  | nil => exact ⟨rfl, rfl⟩
  | @plain c _ _ unescaped _ ih =>
      have stays : (Quotation.inside '"').next c = .inside '"' := by
        simp only [List.mem_cons, List.not_mem_nil, or_false, not_or] at unescaped
        simp [Quotation.next, unescaped]
      rw [Quotation.uncommented, if_neg (by simp), Quotation.after, List.foldl_cons, stays, ih.1]
      exact ⟨rfl, ih.2⟩
  | escaped reads _ ih =>
      refine ⟨?_, ih.2⟩
      rw [Quotation.uncommented, if_neg (by simp), Quotation.uncommented,
        if_neg (by simp [Quotation.next])]
      exact congrArg (fun rest => '\\' :: _ :: rest) ih.1

/-- The scan of operands neither cuts inside a literal nor counts its parentheses. -/
theorem uncut (depth : Nat) :
    Uncut OperandScan.separates OperandScan.next ⟨.inside '"', depth⟩ written ∧
      written.foldl OperandScan.next ⟨.inside '"', depth⟩ = ⟨.inside '"', depth⟩ := by
  induction h with
  | nil => exact ⟨trivial, rfl⟩
  | @plain c _ _ unescaped _ ih =>
      have stays : OperandScan.next ⟨.inside '"', depth⟩ c = ⟨.inside '"', depth⟩ := by
        simp only [List.mem_cons, List.not_mem_nil, or_false, not_or] at unescaped
        simp [OperandScan.next, Quotation.next, unescaped]
      refine ⟨⟨by simp [OperandScan.separates], ?_⟩, ?_⟩
      · rw [stays]
        exact ih.1
      · rw [List.foldl_cons, stays]
        exact ih.2
  | escaped reads _ ih =>
      exact ⟨⟨by simp [OperandScan.separates], by simp [OperandScan.separates, OperandScan.next,
        Quotation.next], ih.1⟩, ih.2⟩

/-- The closing quote ends the literal. -/
theorem stringBody? : Source.stringBody? (written ++ ['"']) = some written := by
  rw [Source.stringBody?_literal, if_neg (slashes_ne_one h.quotation.2)]

end WrittenAs

end Text

namespace Source

open Text

/-- A literal with what is written between its quotes. -/
def literal (written : List Char) : List Char :=
  '"' :: (written ++ ['"'])

variable {text written : List Char} (h : WrittenAs text written)
include h

theorem uncommented_literal :
    Quotation.outside.uncommented (literal written) = literal written := by
  have start : Quotation.outside.next '"' = .inside '"' := rfl
  rw [literal, Quotation.uncommented, if_neg (by simp), start,
    Quotation.uncommented_append h.quotation.1, h.quotation.2]
  rfl

theorem operandPieces_literal : operandPieces (literal written) = [literal written] := by
  obtain ⟨uncut, scanned⟩ := h.uncut 0
  have start : OperandScan.next {} '"' = ⟨.inside '"', 0⟩ := rfl
  refine pieces_of_uncut ⟨rfl, ?_⟩
  rw [start]
  refine uncut_append uncut ?_
  rw [scanned]
  exact ⟨rfl, trivial⟩

omit h in
theorem trim_literal (written : List Char) : trim (literal written) = literal written := by
  refine trim_of_ends ?_ ?_
  · rintro c ⟨⟩
    rfl
  · rw [literal, ← List.cons_append, List.getLast?_append_of_ne_nil _ (by simp)]
    rintro c ⟨⟩
    rfl

theorem value_literal {piece : Fragment} (whole : piece.text = literal written) :
    (OperandNode.ofPiece piece).value = .ok (.string (String.ofList text)) := by
  have trimmed : piece.trim.text = literal written := by
    rw [← trim_literal written, ← whole]
    rfl
  have shape : Form.ofText (literal written) = .ok (.string (String.ofList written)) := by
    rw [literal, Form.ofText, h.stringBody?]
  rw [OperandNode.ofPiece, trimmed, shape]
  simp only [OperandNode.value, Form.value, stringValue, String.toList_ofList, h.unescape]
  rfl

/-- A literal alone is read as one operand. -/
theorem values_literal (line start : Nat) :
    ((Fragment.spread line start (operandPieces (literal written))).map OperandNode.ofPiece).map
      OperandNode.value = [.ok (.string (String.ofList text))] := by
  rw [operandPieces_literal h, Fragment.spread, Fragment.spread, List.map_singleton,
    List.map_singleton, value_literal h rfl]

end Source

end Mips
