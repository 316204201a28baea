import Mips.Proofs.Source.Literal
import Mips.Proofs.Source.Tiling
import Mathlib.Algebra.Group.Nat.Even
import Mathlib.Data.List.Induction

/-!
Operands that begin with a double quote. The literal that the quote opens ends at the first quote
with an even number of backslashes before it, and a literal that ends where its operand ends is read
as the string between its quotes. The operand alone is judged by its last characters, however: it is
a string if it ends with another quote and not with a single backslash before it. So a string may
also hold a quote that ends the literal too early, or end with three backslashes or more of which
the last one escapes the closing quote.
-/
namespace Mips

namespace Text

/-- Every double quote in a text is escaped. -/
def Guarded (text : List Char) : Prop :=
  ∀ a b, text = a ++ '"' :: b → ¬Even (slashes a)

theorem Guarded.left {a b : List Char} (h : Guarded (a ++ b)) : Guarded a := by
  rintro x y rfl
  exact h x (y ++ b) (by simp)

namespace Quotation

/-- A quote at the start of a text opens a literal that ends where the text ends and not before. -/
structure Closes (text : List Char) : Prop where
  ends : outside.after text = outside
  first : ∀ a b, text = a ++ b → a ≠ [] → b ≠ [] → outside.after a ≠ outside

/-- While all quotes are escaped the literal goes on, and it is open whether the next character is
escaped. -/
theorem after_guarded {text : List Char} (h : Guarded text) :
    (inside '"').after text = if Even (slashes text) then inside '"' else escaped '"' := by
  induction text using List.reverseRecOn with
  | nil => rfl
  | append_singleton front c ih =>
      rw [after_append, ih h.left, after, List.foldl_cons, List.foldl_nil]
      by_cases slash : c = '\\'
      · subst slash
        by_cases even : Even (slashes front) <;>
          simp [slashes_slash, Nat.even_add_one, even, next]
      · rw [slashes_other front slash]
        by_cases even : Even (slashes front)
        · have other : c ≠ '"' := by
            rintro rfl
            exact h front [] rfl even
          simp [even, next, slash, other]
        · simp [even, next]

theorem guarded_of_inside {text : List Char}
    (h : ∀ a b, text = a ++ b → (inside '"').after a ≠ outside) : Guarded text := by
  induction text using List.reverseRecOn with
  | nil =>
      intro a b split
      simp at split
  | append_singleton front c ih =>
      have guarded : Guarded front := by
        refine ih ?_
        rintro a b rfl
        exact h a (b ++ [c]) (by simp)
      intro a b split even
      obtain ⟨a', rfl, last⟩ | ⟨b', rfl, -⟩ := Source.cut_cases split
      · obtain ⟨rfl, rfl, -⟩ : a' = [] ∧ '"' = c ∧ b = [] := by
          simpa [List.singleton_eq_append_iff] using last
        rw [List.append_nil] at even
        refine h (front ++ ['"']) [] (by simp) ?_
        rw [after_append, after_guarded guarded, if_pos even]
        rfl
      · exact guarded a b' rfl even

/-- A literal fills a text if all quotes in it are escaped but the first and the last. -/
theorem closes_iff (rest : List Char) :
    Closes ('"' :: rest) ↔ ∃ body, rest = body ++ ['"'] ∧ Guarded body ∧ Even (slashes body) := by
  have start (text : List Char) : outside.after ('"' :: text) = (inside '"').after text := rfl
  constructor
  · rintro ⟨ends, first⟩
    obtain rfl | ⟨body, c, rfl⟩ := rest.eq_nil_or_concat'
    · cases ends
    · have guarded : Guarded body := by
        refine guarded_of_inside ?_
        rintro a b rfl
        exact first ('"' :: a) (b ++ [c]) (by simp) (by simp) (by simp)
      rw [start, after_append, after_guarded guarded] at ends
      by_cases even : Even (slashes body)
      · obtain rfl : c = '"' := by
          by_contra other
          by_cases slash : c = '\\' <;> simp [even, after, next, slash, other] at ends
        exact ⟨body, rfl, guarded, even⟩
      · simp [even, after, next] at ends
  · rintro ⟨body, rfl, guarded, even⟩
    refine ⟨?_, ?_⟩
    · rw [start, after_append, after_guarded guarded, if_pos even]
      rfl
    · intro a b split some more
      obtain ⟨c, a, rfl⟩ := List.exists_cons_of_ne_nil some
      obtain ⟨b, d, rfl⟩ := b.eq_nil_or_concat'.resolve_left more
      obtain ⟨rfl, tail⟩ : '"' = c ∧ body ++ ['"'] = a ++ (b ++ [d]) := List.cons.inj split
      rw [← List.append_assoc] at tail
      obtain ⟨rfl, -⟩ := List.append_inj' tail rfl
      rw [start, after_guarded guarded.left]
      split <;> simp

end Quotation

end Text

namespace Source

open Text

theorem stringBody?_eq_some_iff (rest body : List Char) :
    stringBody? rest = some body ↔ rest = body ++ ['"'] ∧ slashes body ≠ 1 := by
  obtain rfl | ⟨front, c, rfl⟩ := rest.eq_nil_or_concat'
  · simp [stringBody?]
  · by_cases quote : c = '"'
    · subst quote
      rw [stringBody?_literal, List.append_cancel_right_eq]
      by_cases single : slashes front = 1 <;> grind
    · simp [stringBody?, quote]

theorem closes_literal_iff (body : List Char) :
    Quotation.Closes (literal body) ↔ Guarded body ∧ Even (slashes body) := by
  rw [literal, Quotation.closes_iff]
  simp

/-- An operand that is a string although the literal it begins with is not closed at its end: there is
a quote too early, or the last quote is escaped after other backslashes. -/
def Misread (body : List Char) : Prop :=
  slashes body ≠ 1 ∧ (¬Guarded body ∨ ¬Even (slashes body))

theorem closes_or_misread_iff (body : List Char) :
    Quotation.Closes (literal body) ∨ Misread body ↔ slashes body ≠ 1 := by
  have odd : ¬Even 1 := by decide
  rw [closes_literal_iff, Misread]
  constructor
  · rintro (⟨-, even⟩ | ⟨several, -⟩)
    · rintro single
      exact odd (single ▸ even)
    · exact several
  · intro several
    by_cases guarded : Guarded body <;> by_cases even : Even (slashes body) <;>
      simp [guarded, even, several]

/-- How an operand is read that begins with a double quote. -/
structure ReadsQuoted (text : List Char) (node : OperandNode) : Prop where
  string : ∀ body, node.form = .string (String.ofList body) ∧ node.error = none ↔
    text = literal body ∧ (Quotation.Closes text ∨ Misread body)
  closed : Quotation.Closes text ↔
    ∃ body, text = literal body ∧ Guarded body ∧ Even (slashes body)
  other : (∃ body, node.form = .string body ∧ node.error = none) ∨
    node.form = .unrecognised ∧ node.error = some FormError.unterminatedString.message

theorem readsQuoted {piece : Fragment} (h : piece.trim.text.head? = some '"') :
    ReadsQuoted piece.trim.text (.ofPiece piece) := by
  obtain ⟨rest, text⟩ := List.head?_eq_some_iff.mp h
  rw [OperandNode.ofPiece, text, Form.ofText]
  have closed : Quotation.Closes ('"' :: rest) ↔
      ∃ body, '"' :: rest = literal body ∧ Guarded body ∧ Even (slashes body) := by
    rw [Quotation.closes_iff]
    simp [literal]
  cases read : stringBody? rest with
  | none =>
      refine ⟨fun body => iff_of_false ?_ ?_, closed, .inr ⟨rfl, rfl⟩⟩
      · rintro ⟨form, -⟩
        cases form
      · rintro ⟨whole, reads⟩
        obtain rfl := List.tail_eq_of_cons_eq whole
        rw [whole, closes_or_misread_iff] at reads
        rw [(stringBody?_eq_some_iff _ body).mpr ⟨rfl, reads⟩] at read
        cases read
  | some body =>
      obtain ⟨rfl, several⟩ := (stringBody?_eq_some_iff rest body).mp read
      refine ⟨fun other => ⟨?_, ?_⟩, closed, .inl ⟨_, rfl, rfl⟩⟩
      · rintro ⟨form, -⟩
        obtain rfl : body = other := String.ofList_injective (Form.string.inj form)
        exact ⟨rfl, (closes_or_misread_iff body).mpr several⟩
      · rintro ⟨whole, -⟩
        obtain rfl : body = other := by simpa [literal] using whole
        exact ⟨rfl, rfl⟩

/-- An escaped quote and an escaped backslash do not end the literal of an operand. -/
theorem readsQuoted_escapes :
    (Fragment.mk 1 8 " \"\\\"\\\\\" ".toList).trim.text.head? = some '"' ∧
      ReadsQuoted "\"\\\"\\\\\"".toList (.ofPiece ⟨1, 8, " \"\\\"\\\\\" ".toList⟩) := by
  have quoted : (Fragment.mk 1 8 " \"\\\"\\\\\" ".toList).trim.text.head? = some '"' := by decide
  have trimmed : (Fragment.mk 1 8 " \"\\\"\\\\\" ".toList).trim.text = "\"\\\"\\\\\"".toList := by
    decide
  have reads := readsQuoted quoted
  rw [trimmed] at reads
  exact ⟨quoted, reads⟩

/-- Two operands that are strings although their literals are not closed at the end: one ends at an
inner quote, and the last quote of the other is escaped by the third of three backslashes. -/
theorem misread_strings :
    (OperandNode.ofPiece ⟨1, 8, "\"a\"b\"".toList⟩).form = .string "a\"b" ∧
      ¬Quotation.Closes "\"a\"b\"".toList ∧
      (OperandNode.ofPiece ⟨1, 8, "\"\\\\\\\"".toList⟩).form = .string "\\\\\\" ∧
      ¬Quotation.Closes "\"\\\\\\\"".toList := by
  refine ⟨by decide, ?_, by decide, ?_⟩
  · intro closes
    exact closes.first "\"a\"".toList "b\"".toList (by decide) (by decide) (by decide) (by decide)
  · intro closes
    exact absurd closes.ends (by decide)

end Source

end Mips
