import Mips.Text.Quotation

/-!
How a list of operands is cut. A comma separates two operands if it stands in no literal and in no
parentheses, which is said of the text before it: a scan of quotes ends outside of literals there,
and from no place on do more parentheses open than close. The pieces of a list are what stands
between these commas, so nothing of the list is lost, and a comma in a piece separates nothing.
-/
namespace Mips.Source

open Text

/-- How often a character stands in a text outside of literals, if the text is scanned from a state
on. -/
def bare (c : Char) : Quotation → List Char → Nat
  | _, [] => 0
  | q, d :: rest => bare c (q.next d) rest + if q = .outside ∧ d = c then 1 else 0

/-- A comma behind a text separates operands if it is in no literal and all parentheses have been
closed: nowhere in the text do more of them open from there on than close. -/
def Separates (before : List Char) : Prop :=
  Quotation.outside.after before = .outside ∧
    ∀ a b, before = a ++ b →
      bare '(' (Quotation.outside.after a) b ≤ bare ')' (Quotation.outside.after a) b

/-- No comma in a piece of a text separates operands. -/
def Whole (before piece : List Char) : Prop :=
  ∀ a b, piece = a ++ ',' :: b → ¬Separates (before ++ a)

/-- How a text behind other text is cut: at the commas that separate operands, and nowhere else. -/
inductive Cut : List Char → List Char → List (List Char) → Prop
  | last {before piece : List Char} (whole : Whole before piece) : Cut before piece [piece]
  | comma {before piece rest : List Char} {pieces : List (List Char)} (whole : Whole before piece)
      (apart : Separates (before ++ piece)) (more : Cut (before ++ piece ++ [',']) rest pieces) :
      Cut before (piece ++ ',' :: rest) (piece :: pieces)

theorem quotation_foldl (s : OperandScan) (text : List Char) :
    (text.foldl OperandScan.next s).quotation = s.quotation.after text := by
  induction text generalizing s with
  | nil => rfl
  | cons c rest ih => exact ih (s.next c)

/-- A parenthesis counts by one, or by nothing if it closes where none is open. -/
theorem depth_next_le_iff (s : OperandScan) (c : Char) {opened closed : Nat}
    (settled : opened ≤ closed) : (s.next c).depth + opened ≤ closed ↔
      s.depth + (opened + if s.quotation = .outside ∧ c = '(' then 1 else 0) ≤
        closed + if s.quotation = .outside ∧ c = ')' then 1 else 0 := by
  by_cases out : s.quotation = .outside
  · by_cases opens : c = '('
    · simp [OperandScan.next, out, opens]
      omega
    · by_cases closes : c = ')'
      · simp [OperandScan.next, out, closes]
        omega
      · simp [OperandScan.next, out, opens, closes]
  · simp [OperandScan.next, out]

/-- After a text no parenthesis is open just if all that were open before it have been closed, and
from no place in the text on more of them open than close. -/
theorem depth_foldl_eq_zero_iff (s : OperandScan) (text : List Char) :
    (text.foldl OperandScan.next s).depth = 0 ↔
      s.depth + bare '(' s.quotation text ≤ bare ')' s.quotation text ∧
        ∀ a b, text = a ++ b →
          bare '(' (s.quotation.after a) b ≤ bare ')' (s.quotation.after a) b := by
  -- A suffix is the text itself, which the first condition is about, or a suffix of the rest.
  induction text generalizing s with
  | nil => simp [bare]
  | cons c rest ih =>
      have state : (s.next c).quotation = s.quotation.next c := rfl
      rw [List.foldl_cons, ih, state, bare, bare]
      constructor
      · rintro ⟨whole, suffixes⟩
        have settled := suffixes [] rest rfl
        have counted := (depth_next_le_iff s c settled).mp whole
        refine ⟨counted, fun a b split => ?_⟩
        obtain ⟨rfl, rfl⟩ | ⟨a, rfl, later⟩ := List.cons_eq_append_iff.mp split
        · exact Nat.le_trans (Nat.le_add_left _ _) counted
        · exact suffixes a b later
      · rintro ⟨counted, suffixes⟩
        have later : ∀ a b, rest = a ++ b → bare '(' ((s.quotation.next c).after a) b ≤
            bare ')' ((s.quotation.next c).after a) b :=
          fun a b split => suffixes (c :: a) b (congrArg (c :: ·) split)
        exact ⟨(depth_next_le_iff s c (later [] rest rfl)).mpr counted, later⟩

/-- A scan that has read a text separates at a comma behind it exactly if that comma does. -/
theorem separates_foldl_iff (before : List Char) (c : Char) :
    (before.foldl OperandScan.next {}).separates c = true ↔ c = ',' ∧ Separates before := by
  have closed := depth_foldl_eq_zero_iff {} before
  rw [OperandScan.separates, decide_eq_true_iff, quotation_foldl, closed, Separates]
  constructor
  · rintro ⟨out, ⟨-, suffixes⟩, comma⟩
    exact ⟨comma, out, suffixes⟩
  · rintro ⟨comma, out, suffixes⟩
    have whole := suffixes [] before rfl
    exact ⟨out, ⟨Nat.le_trans (Nat.le_of_eq (Nat.zero_add _)) whole, suffixes⟩, comma⟩

/-- A character that separates nothing belongs to the first piece. -/
theorem Cut.cons {before rest piece : List Char} {more : List (List Char)} {c : Char}
    (kept : ¬(c = ',' ∧ Separates before)) (cut : Cut (before ++ [c]) rest (piece :: more)) :
    Cut before (c :: rest) ((c :: piece) :: more) := by
  have whole (short : Whole (before ++ [c]) piece) : Whole before (c :: piece) := by
    intro a b split separates
    obtain ⟨rfl, same⟩ | ⟨a, rfl, later⟩ := List.cons_eq_append_iff.mp split
    · rw [List.append_nil] at separates
      exact kept ⟨(List.cons.inj same).1.symm, separates⟩
    · rw [List.append_cons] at separates
      exact short a b later separates
  cases cut with
  | last short => exact .last (whole short)
  | @comma _ _ rest _ short apart later =>
      rw [← List.append_cons] at apart later
      exact .comma (whole short) apart later

theorem cut_pieces (before text : List Char) :
    Cut before text
      (pieces OperandScan.separates OperandScan.next (before.foldl OperandScan.next {}) text) := by
  induction text generalizing before with
  | nil => exact .last (by simp [Whole])
  | cons c rest ih =>
      have later := ih (before ++ [c])
      rw [List.foldl_append, List.foldl_cons, List.foldl_nil] at later
      obtain ⟨piece, more, split⟩ := List.exists_cons_of_ne_nil
        (pieces_ne_nil OperandScan.separates OperandScan.next _ rest)
      rw [split] at later
      rw [pieces, split]
      by_cases cut : (before.foldl OperandScan.next {}).separates c = true
      · obtain ⟨rfl, apart⟩ := (separates_foldl_iff before c).mp cut
        simp only [cut, if_true]
        have none : Whole before [] := by simp [Whole]
        exact .comma none (by rwa [List.append_nil]) (by rwa [List.append_nil])
      · simp only [cut]
        exact .cons (mt (separates_foldl_iff before c).mpr cut) later

theorem intercalate_operandPieces (text : List Char) :
    [','].intercalate (operandPieces text) = text := by
  refine intercalate_pieces ?_ _ _
  intro s c cut
  simp only [OperandScan.separates, decide_eq_true_eq] at cut
  exact cut.2.2

end Mips.Source
