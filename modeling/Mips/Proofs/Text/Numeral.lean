import Mips.Operand
import Mips.Proofs.Text.Scan
import Mips.Text.Numeral
import Mathlib.Data.List.Forall2
import Mathlib.Data.Nat.Digits.Defs

/-!
Numbers. Their grammar stands apart from the functions that read them: a sign, the mark of a base,
and digits of this base, as many as there are. A text is taken apart in one way only, since no
digit is a sign and no decimal digit stands in a mark after the zero. So the grammar gives every
number one exact value, and the range is checked on this value alone.

The decimal form of an integer, with or without a sign before a nonnegative one, is a number of the
grammar, and a literal for the integer as long as it fits.
-/
namespace Mips.Text

/-- The integers for which there are literals. -/
def Fits (n : Int) : Prop :=
  integerMin ≤ n ∧ n ≤ integerMax

/-- The digits of a base and what they count; letters may be of either case. -/
def IsDigit (base : Nat) (c : Char) (d : Nat) : Prop :=
  d < base ∧ ("0123456789abcdef".toList[d]? = some c ∨ "0123456789ABCDEF".toList[d]? = some c)

/-- The ways to write a sign; true stands for minus. -/
inductive Sign : Bool → List Char → Prop
  | absent : Sign false []
  | plus : Sign false ['+']
  | minus : Sign true ['-']

/-- The ways to mark a base. -/
inductive Mark : Nat → List Char → Prop
  | absent : Mark 10 []
  | hex : Mark 16 ['0', 'x']
  | hexUpper : Mark 16 ['0', 'X']
  | binary : Mark 2 ['0', 'b']
  | binaryUpper : Mark 2 ['0', 'B']

/-- One or more digits, the highest first, and the number that they make. -/
def Digits (base : Nat) (text : List Char) (n : Nat) : Prop :=
  text ≠ [] ∧ ∃ values, List.Forall₂ (IsDigit base) text values ∧
    Nat.ofDigits base values.reverse = n

/-- The numbers of the grammar, with their exact values. -/
inductive Numeral : List Char → Int → Prop
  | written {negative : Bool} {base n : Nat} {sign mark digits : List Char} :
      Sign negative sign → Mark base mark → Digits base digits n →
        Numeral (sign ++ mark ++ digits) (if negative then -n else n)

section Digits

theorem mapM_eq_some_iff {α β : Type} {f : α → Option β} {list : List α} {values : List β} :
    list.mapM f = some values ↔ List.Forall₂ (fun a b => f a = some b) list values := by
  induction list generalizing values with
  | nil => simp [List.forall₂_nil_left_iff, eq_comm]
  | cons a rest ih =>
      simp only [List.mapM_cons, List.forall₂_cons_left_iff, ← ih]
      cases f a with
      | none => simp
      | some b => cases rest.mapM f <;> simp [eq_comm]

theorem digit?_eq_some_iff {c : Char} {d : Nat} : digit? c = some d ↔
    "0123456789abcdef".toList[d]? = some c ∨ "0123456789ABCDEF".toList[d]? = some c := by
  constructor
  · intro read
    have ascii : c.toNat < 128 := by
      rw [digit?] at read
      split at read
      · next decimal =>
          have bounds : 48 ≤ c.toNat ∧ c.toNat ≤ 57 := Char.isDigit_iff_toNat.mp decimal
          omega
      · next decimal =>
          split at read
          · next letter => exact Nat.lt_of_le_of_lt letter.2 (by decide)
          · next small =>
              split at read
              · next letter => exact Nat.lt_of_le_of_lt letter.2 (by decide)
              · next large => cases read
    have table : ∀ n < 128, ∀ d ∈ digit? (Char.ofNat n),
        "0123456789abcdef".toList[d]? = some (Char.ofNat n) ∨
          "0123456789ABCDEF".toList[d]? = some (Char.ofNat n) := by
      decide
    have found := table c.toNat ascii d
    rw [Char.ofNat_toNat] at found
    exact found read
  · have lower : ∀ d < 16, "0123456789abcdef".toList[d]?.bind digit? = some d := by decide
    have upper : ∀ d < 16, "0123456789ABCDEF".toList[d]?.bind digit? = some d := by decide
    rintro (listed | listed)
    · have read := lower d (List.getElem?_eq_some_iff.mp listed).1
      rwa [listed] at read
    · have read := upper d (List.getElem?_eq_some_iff.mp listed).1
      rwa [listed] at read

theorem digit_of_base_iff {base d : Nat} {c : Char} :
    (digit? c).filter (· < base) = some d ↔ IsDigit base c d := by
  rw [Option.filter_eq_some_iff, digit?_eq_some_iff, decide_eq_true_iff, IsDigit, and_comm]

theorem natural?_eq_some_iff {base n : Nat} {digits : List Char} :
    natural? base digits = some n ↔ Digits base digits n := by
  have fold (values : List Nat) : values.foldl (fun value digit => base * value + digit) 0 =
      Nat.ofDigits base values.reverse := by
    rw [Nat.ofDigits_eq_foldr, List.foldr_reverse]
    simp [add_comm]
  have read (values : List Nat) :
      (digits.mapM fun c => (digit? c).filter (· < base)) = some values ↔
        List.Forall₂ (IsDigit base) digits values := by
    simp only [mapM_eq_some_iff, digit_of_base_iff]
  by_cases empty : digits = []
  · simp [natural?, Digits, empty]
  · simp only [natural?, Digits, ne_eq, empty, List.isEmpty_iff, ite_false, not_false_iff, true_and,
      Option.map_eq_some_iff, read, fold]

end Digits

section Splits

variable {negative : Bool} {base n : Nat} {sign mark digits text : List Char}

theorem IsDigit.isDigit {c : Char} {d : Nat} (h : IsDigit 10 c d) : c.isDigit = true := by
  have lower : ∀ d < 10, "0123456789abcdef".toList[d]?.all Char.isDigit = true := by decide
  have upper : ∀ d < 10, "0123456789ABCDEF".toList[d]?.all Char.isDigit = true := by decide
  obtain ⟨small, listed | listed⟩ := h
  · have decimal := lower d small
    rwa [listed] at decimal
  · have decimal := upper d small
    rwa [listed] at decimal

theorem Digits.isDigit (made : Digits 10 digits n) : ∀ c ∈ digits, c.isDigit = true := by
  obtain ⟨-, values, each, -⟩ := made
  induction each with
  | nil => nofun
  | cons here _ ih => exact List.forall_mem_cons.mpr ⟨here.isDigit, ih⟩

/-- No decimal digit is a sign. -/
theorem splitSign_of_isDigit {digits : List Char} (all : ∀ c ∈ digits, c.isDigit = true) :
    splitSign digits = (false, digits) := by
  have first {c : Char} {rest : List Char} (sign : c.isDigit = false) : digits ≠ c :: rest := by
    rintro rfl
    exact absurd (all c List.mem_cons_self) (by simp [sign])
  rw [splitSign.eq_def]
  split
  · exact absurd rfl (first rfl)
  · exact absurd rfl (first rfl)
  · rfl

/-- The marks of a base have a letter that is no decimal digit. -/
theorem splitBase_of_isDigit {digits : List Char} (all : ∀ c ∈ digits, c.isDigit = true) :
    splitBase digits = (10, digits) := by
  have second {c : Char} {rest : List Char} (letter : c.isDigit = false) :
      digits ≠ '0' :: c :: rest := by
    rintro rfl
    exact absurd (all c (List.mem_cons_of_mem _ List.mem_cons_self)) (by simp [letter])
  rw [splitBase.eq_def]
  split
  · exact absurd rfl (second rfl)
  · exact absurd rfl (second rfl)
  · exact absurd rfl (second rfl)
  · exact absurd rfl (second rfl)
  · rfl

/-- No digit is a sign, and nor is the zero before the mark of a base. -/
theorem splitSign_written (written : Sign negative sign) (marked : Mark base mark)
    (made : Digits base digits n) :
    splitSign (sign ++ mark ++ digits) = (negative, mark ++ digits) := by
  cases written with
  | plus | minus => rfl
  | absent =>
      cases marked with
      | hex | hexUpper | binary | binaryUpper => rfl
      | absent => exact splitSign_of_isDigit made.isDigit

theorem splitBase_written (marked : Mark base mark) (made : Digits base digits n) :
    splitBase (mark ++ digits) = (base, digits) := by
  cases marked with
  | hex | hexUpper | binary | binaryUpper => rfl
  | absent => exact splitBase_of_isDigit made.isDigit

theorem sign_of_splitSign (text : List Char) :
    ∃ sign, Sign (splitSign text).1 sign ∧ text = sign ++ (splitSign text).2 := by
  rw [splitSign.eq_def]
  split
  · exact ⟨_, .minus, rfl⟩
  · exact ⟨_, .plus, rfl⟩
  · exact ⟨_, .absent, rfl⟩

theorem mark_of_splitBase (text : List Char) :
    ∃ mark, Mark (splitBase text).1 mark ∧ text = mark ++ (splitBase text).2 := by
  rw [splitBase.eq_def]
  split
  · exact ⟨_, .hex, rfl⟩
  · exact ⟨_, .hexUpper, rfl⟩
  · exact ⟨_, .binary, rfl⟩
  · exact ⟨_, .binaryUpper, rfl⟩
  · exact ⟨_, .absent, rfl⟩

end Splits

section Reading

variable {text : List Char} {v : Int}

theorem Numeral.number (h : Numeral text v) :
    number text = if integerMin ≤ v ∧ v ≤ integerMax then .ok v else .error .tooLarge := by
  obtain ⟨signed, marked, made⟩ := h
  simp only [Text.number, splitSign_written signed marked made, splitBase_written marked made,
    natural?_eq_some_iff.mpr made]

theorem number_of_not_numeral (h : ∀ v, ¬Numeral text v) : number text = .error .malformed := by
  obtain ⟨sign, signed, cutSign⟩ := sign_of_splitSign text
  obtain ⟨mark, marked, cutMark⟩ := mark_of_splitBase (splitSign text).2
  cases read : natural? (splitBase (splitSign text).2).1 (splitBase (splitSign text).2).2 with
  | none => simp only [number, read]
  | some n =>
      have whole : text = sign ++ mark ++ (splitBase (splitSign text).2).2 := by
        rw [List.append_assoc, ← cutMark, ← cutSign]
      have numeral := Numeral.written signed marked (natural?_eq_some_iff.mp read)
      rw [← whole] at numeral
      exact absurd numeral (h _)

/-- No number of the grammar begins with a quote. -/
theorem Numeral.first (h : Numeral text v) (rest : List Char) : text ≠ '\'' :: rest := by
  rintro rfl
  have refused : Text.number ('\'' :: rest) = .error .malformed := by
    simp [Text.number, splitSign, splitBase, natural?, digit?]
  have read := h.number
  rw [refused] at read
  split at read <;> cases read

theorem integer_of_numeral (h : Numeral (trim text) v) :
    integer text = if integerMin ≤ v ∧ v ≤ integerMax then .ok v else .error .tooLarge := by
  rw [← h.number, integer]
  split
  · next rest quote => exact absurd quote (h.first rest)
  · rfl

end Reading

theorem natural?_decimal {digits : List Char} (nonempty : digits ≠ [])
    (all : ∀ c ∈ digits, c.isDigit = true) :
    natural? 10 digits = some (Nat.ofDigitChars 10 digits 0) := by
  have each : (digits.mapM fun c => (digit? c).filter (· < 10)) =
      some (digits.map fun c => c.toNat - '0'.toNat) := by
    clear nonempty
    induction digits with
    | nil => rfl
    | cons c rest ih =>
        obtain ⟨here, later⟩ := List.forall_mem_cons.mp all
        have bounds : 48 ≤ c.toNat ∧ c.toNat ≤ 57 := Char.isDigit_iff_toNat.mp here
        have small : c.toNat - '0'.toNat < 10 := by
          have zero : '0'.toNat = 48 := rfl
          omega
        rw [List.mapM_cons, ih later, digit?, if_pos here, Option.filter_some,
          if_pos (decide_eq_true small)]
        rfl
  rw [natural?, if_neg (by simpa using nonempty), each, Option.map_some, List.foldl_map]
  rfl

theorem isDigit_of_mem_toDigits {n : Nat} : ∀ c ∈ Nat.toDigits 10 n, c.isDigit = true :=
  fun _ member => Nat.isDigit_of_mem_toDigits (by decide) (by decide) member

theorem toDigits_eq_cons (n : Nat) :
    ∃ first rest, Nat.toDigits 10 n = first :: rest ∧ first.isDigit = true := by
  obtain ⟨first, rest, front⟩ := List.exists_cons_of_ne_nil (Nat.toDigits_ne_nil (n := n) (b := 10))
  exact ⟨first, rest, front, isDigit_of_mem_toDigits (n := n) first (by simp [front])⟩

theorem natural?_toDigits (n : Nat) : natural? 10 (Nat.toDigits 10 n) = some n := by
  rw [natural?_decimal Nat.toDigits_ne_nil isDigit_of_mem_toDigits,
    Nat.ofDigitChars_toDigits (by decide) (by decide)]

theorem isBlank_of_isDigit {c : Char} (h : c.isDigit = true) : isBlank c = false := by
  have bounds : 48 ≤ c.toNat ∧ c.toNat ≤ 57 := Char.isDigit_iff_toNat.mp h
  simp [isBlank, blankRanges]
  omega

/-- The ways to write an integer in decimal without leading zeros. -/
inductive Decimal : Int → List Char → Prop
  | plain (n : Nat) : Decimal n (Nat.toDigits 10 n)
  | plus (n : Nat) : Decimal n ('+' :: Nat.toDigits 10 n)
  | minus (n : Nat) : Decimal (-n) ('-' :: Nat.toDigits 10 n)

theorem toList_ofNat (n : Nat) : (toString (Int.ofNat n)).toList = Nat.toDigits 10 n :=
  Nat.toList_repr

theorem toList_negSucc (n : Nat) :
    (toString (Int.negSucc n)).toList = '-' :: Nat.toDigits 10 (n + 1) := by
  rw [show toString (Int.negSucc n) = "-" ++ (n + 1).repr from rfl, String.toList_append,
    Nat.toList_repr]
  rfl

theorem decimal_toString (n : Int) : Decimal n (toString n).toList := by
  cases n with
  | ofNat n =>
      rw [toList_ofNat]
      exact .plain n
  | negSucc n =>
      rw [toList_negSucc]
      exact .minus (n + 1)

theorem toList_signed (n : Int) : (Address.signed n).toList =
    (if 0 ≤ n then '+' else '-') :: Nat.toDigits 10 n.natAbs := by
  rw [Address.signed]
  cases n with
  | ofNat n =>
      have positive : 0 ≤ Int.ofNat n := Int.natCast_nonneg n
      rw [if_pos positive, if_pos positive, String.toList_append, toList_ofNat]
      rfl
  | negSucc n =>
      have negative : ¬0 ≤ Int.negSucc n := Int.not_le.mpr (Int.negSucc_lt_zero n)
      rw [if_neg negative, if_neg negative, toList_negSucc]
      rfl

theorem decimal_signed (n : Int) : Decimal n (Address.signed n).toList := by
  rw [toList_signed]
  split
  · next positive =>
      obtain ⟨m, rfl⟩ := Int.eq_ofNat_of_zero_le positive
      exact .plus m
  · next negative =>
      obtain ⟨m, rfl⟩ := Int.exists_eq_neg_ofNat (Int.le_of_lt (Int.not_le.mp negative))
      rw [Int.natAbs_neg, Int.natAbs_natCast]
      exact .minus m

namespace Decimal

variable {n : Int} {text : List Char}

theorem mem (h : Decimal n text) : ∀ c ∈ text, c.isDigit = true ∨ c = '+' ∨ c = '-' := by
  cases h with
  | plain m => exact fun c member => .inl (isDigit_of_mem_toDigits c member)
  | plus m =>
      rintro c (_ | ⟨_, member⟩)
      · exact .inr (.inl rfl)
      · exact .inl (isDigit_of_mem_toDigits c member)
  | minus m =>
      rintro c (_ | ⟨_, member⟩)
      · exact .inr (.inr rfl)
      · exact .inl (isDigit_of_mem_toDigits c member)

theorem ne_nil (h : Decimal n text) : text ≠ [] := by
  cases h with
  | plain m => exact Nat.toDigits_ne_nil
  | plus m | minus m => exact List.cons_ne_nil _ _

theorem ink (h : Decimal n text) : ∀ c ∈ text, isBlank c = false := by
  intro c member
  obtain digit | rfl | rfl := h.mem c member
  · exact isBlank_of_isDigit digit
  · rfl
  · rfl

theorem numeral (h : Decimal n text) : Numeral text n := by
  cases h with
  | plain m => exact .written .absent .absent (natural?_eq_some_iff.mp (natural?_toDigits m))
  | plus m => exact .written .plus .absent (natural?_eq_some_iff.mp (natural?_toDigits m))
  | minus m => exact .written .minus .absent (natural?_eq_some_iff.mp (natural?_toDigits m))

theorem integer (h : Decimal n text) (fits : Fits n) : Text.integer text = .ok n := by
  have alone : trim text = text := trim_of_ink h.ink
  rw [integer_of_numeral (alone.symm ▸ h.numeral)]
  exact if_pos fits

end Decimal

end Mips.Text
