import Mips.Directive
import Mips.Instruction
import Mips.Proofs.Source.Written
import Mips.Proofs.Text.Numeral
import Mips.Source.Value
import Mathlib.Data.List.Nodup

/-!
Names. An instruction, a directive or a register is found by its name in letters of either case, and
since no two names of one kind are equal, each name stands for one of them.

A register is also named by its number in decimal digits, and the frame pointer by another name, and
a dollar sign may stand before each of them. Whatever is named is read, and the only other texts
that are read have a plus sign before the digits. No name is also a number, so it does not matter
that numbers are tried first.
-/
namespace Mips

/-- In a list whose keys are distinct, a search by key finds the one element with this key. -/
theorem find?_key_eq_some_iff {α β : Type} [BEq β] [LawfulBEq β] {key : α → β} {all : List α}
    (distinct : (all.map key).Nodup) (wanted : β) (found : α) :
    (all.find? fun a => key a == wanted) = some found ↔ found ∈ all ∧ key found = wanted := by
  constructor
  · intro h
    exact ⟨List.mem_of_find?_eq_some h, by simpa using List.find?_some h⟩
  · intro ⟨member, same⟩
    cases search : all.find? fun a => key a == wanted with
    | none => simpa [same] using List.find?_eq_none.mp search found member
    | some other =>
        have equal : key other = wanted := by simpa using List.find?_some search
        have unique := List.inj_on_of_nodup_map distinct (List.mem_of_find?_eq_some search) member
        rw [unique (equal.trans same.symm)]

/-- A mnemonic stands for the instruction that is written so in some case. -/
theorem Instruction.ofMnemonic?_eq_some_iff (name : String) (i : Instruction) :
    ofMnemonic? name = some i ↔ Text.sameName i.mnemonic name = true := by
  have distinct : (all.map fun i => Text.lower i.mnemonic.toList).Nodup := by decide +kernel
  have every : i ∈ all := by cases i <;> simp [all]
  have found := find?_key_eq_some_iff distinct (Text.lower name.toList) i
  simpa [every, Text.sameName, ofMnemonic?] using found

theorem Directive.ofName?_eq_some_iff (name : String) (d : Directive) :
    ofName? name = some d ↔ Text.sameName d.name name = true := by
  have distinct : (all.map fun d => Text.lower d.name.toList).Nodup := by decide +kernel
  have every : d ∈ all := by cases d <;> simp [all]
  have found := find?_key_eq_some_iff distinct (Text.lower name.toList) d
  simpa [every, Text.sameName, ofName?] using found

open Text

namespace Register

/-- A name without the dollar sign that may stand before it. -/
def undollared : List Char → List Char
  | '$' :: name => name
  | name => name

/-- The names of registers: a conventional name or the other name of the frame pointer, in letters
of either case, and a number in decimal digits. -/
inductive Named (name : List Char) : Register → Prop
  | conventional {r : Register} (same : lower name = lower r.name.toList) : Named name r
  | framePointer (same : lower name = "s8".toList) : Named name .fp
  | number {r : Register} (digits : Digits 10 name r.number) : Named name r

section Numbers

variable {text : List Char} {n : Nat}

theorem natural?_plain (digits : List Char) : (if digits ≠ [] ∧ digits.all Char.isDigit then
      some (digits.foldl (fun n c => 10 * n + (c.toNat - '0'.toNat)) 0) else none) =
    natural? 10 digits := by
  split
  · next plain => exact (natural?_decimal plain.1 (List.all_eq_true.mp plain.2)).symm
  · next other =>
      cases read : natural? 10 digits with
      | none => rfl
      | some n =>
          have made := natural?_eq_some_iff.mp read
          exact absurd ⟨made.1, List.all_eq_true.mpr made.isDigit⟩ other

theorem not_digits_plus (digits : List Char) (n : Nat) : ¬Digits 10 ('+' :: digits) n :=
  fun made => absurd (made.isDigit '+' List.mem_cons_self) (by decide)

/-- A decimal number has nothing but digits, or one plus sign before them. -/
theorem decimal?_eq_some_iff : decimal? text = some n ↔
    Digits 10 text n ∨ ∃ digits, text = '+' :: digits ∧ Digits 10 digits n := by
  rw [decimal?.eq_def]
  split
  · next digits =>
      rw [natural?_plain, natural?_eq_some_iff]
      simp [not_digits_plus]
  · next unsigned =>
      rw [natural?_plain, natural?_eq_some_iff]
      refine ⟨.inl, fun made => made.resolve_right ?_⟩
      rintro ⟨digits, plus, -⟩
      exact unsigned digits plus

theorem isAlpha_toLower_of_isDigit {c : Char} (digit : c.isDigit = true) :
    c.toLower.isAlpha = false := by
  have bounds : 48 ≤ c.toNat ∧ c.toNat ≤ 57 := Char.isDigit_iff_toNat.mp digit
  exact ascii_forall (P := fun c => c.isDigit = true → c.toLower.isAlpha = false) (by decide)
    (by omega) digit

/-- No number begins with a letter. -/
theorem decimal?_of_letter (letter : (lower text).head?.any Char.isAlpha = true) :
    decimal? text = none := by
  cases read : decimal? text with
  | none => rfl
  | some n =>
      obtain made | ⟨digits, rfl, -⟩ := decimal?_eq_some_iff.mp read
      · obtain ⟨d, rest, rfl⟩ := List.exists_cons_of_ne_nil made.1
        have first : d.toLower.isAlpha = true := letter
        rw [isAlpha_toLower_of_isDigit (made.isDigit d List.mem_cons_self)] at first
        cases first
      · cases letter

end Numbers

theorem ofNumber?_eq_some_iff {n : Nat} {r : Register} : ofNumber? n = some r ↔ r.number = n := by
  obtain ⟨number⟩ := r
  simp only [ofNumber?, Option.dite_none_right_eq_some, Option.some.injEq, mk.injEq, Fin.ext_iff]
  constructor
  · rintro ⟨_, same⟩
    exact same.symm
  · intro same
    exact ⟨same ▸ number.isLt, same.symm⟩

/-- The conventional names are different from each other, and written in small letters. -/
theorem find?_name_eq_some_iff (name : List Char) (r : Register) :
    (all.find? fun r => r.name = String.ofList (lower name)) = some r ↔
      lower name = lower r.name.toList := by
  have distinct : (all.map Register.name).Nodup := by decide +kernel
  have every : r ∈ all := by simp [all]
  have small : lower r.name.toList = r.name.toList := by
    obtain ⟨n⟩ := r
    revert n
    decide +kernel
  have same : r.name = String.ofList (lower name) ↔ lower name = r.name.toList :=
    ⟨fun h => by rw [h, String.toList_ofList], fun h => by rw [h, String.ofList_toList]⟩
  have found := find?_key_eq_some_iff distinct (String.ofList (lower name)) r
  rw [small, ← same]
  simpa [every, beq_eq_decide] using found

/-- Each conventional name begins with a letter and is not the other name of the frame pointer. -/
theorem lower_name (r : Register) : (lower r.name.toList).head?.any Char.isAlpha = true ∧
    lower r.name.toList ≠ "s8".toList := by
  obtain ⟨n⟩ := r
  revert n
  decide +kernel

theorem decimal?_of_name {name : List Char} {r : Register}
    (same : lower name = lower r.name.toList) : decimal? name = none :=
  decimal?_of_letter (by rw [same]; exact (lower_name r).1)

theorem decimal?_of_framePointer {name : List Char} (same : lower name = "s8".toList) :
    decimal? name = none :=
  decimal?_of_letter (by rw [same]; rfl)

theorem named_or_plus_iff {name : List Char} {r : Register} :
    (Named name r ∨ ∃ digits, name = '+' :: digits ∧ Digits 10 digits r.number) ↔
      decimal? name = some r.number.val ∨ lower name = lower r.name.toList ∨
        lower name = "s8".toList ∧ r = fp := by
  rw [decimal?_eq_some_iff]
  constructor
  · rintro ((same | same | digits) | plus)
    · exact .inr (.inl same)
    · exact .inr (.inr ⟨same, rfl⟩)
    · exact .inl (.inl digits)
    · exact .inl (.inr plus)
  · rintro ((digits | plus) | same | ⟨same, rfl⟩)
    · exact .inl (.number digits)
    · exact .inr plus
    · exact .inl (.conventional same)
    · exact .inl (.framePointer same)

/-- A plus sign begins no name. -/
theorem not_named_plus (digits : List Char) (r : Register) : ¬Named ('+' :: digits) r := by
  intro named
  cases named with
  | conventional same =>
      have letter := (lower_name r).1
      rw [← same] at letter
      cases letter
  | framePointer same => cases same
  | number made => exact not_digits_plus digits _ made

section Reading

variable {text : String}

theorem ofName?_of_number {n : Nat} (read : decimal? (undollared text.toList) = some n) :
    ofName? text = ofNumber? n := by
  rw [ofName?]
  split
  · next other => exact congrArg ofNumber? (Option.some.inj (other.symm.trans read))
  · next other => cases read.symm.trans other

theorem ofName?_of_letters (read : decimal? (undollared text.toList) = none) :
    ofName? text =
      if lower (undollared text.toList) = "s8".toList then some fp
      else all.find? fun r => r.name = String.ofList (lower (undollared text.toList)) := by
  have called : String.ofList (lower (undollared text.toList)) = "s8" ↔
      lower (undollared text.toList) = "s8".toList :=
    ⟨fun h => by rw [← h, String.toList_ofList], fun h => by rw [h]; rfl⟩
  rw [ofName?]
  split
  · next other => cases other.symm.trans read
  · exact if_congr called rfl rfl

theorem ofName?_eq_some_iff (text : String) (r : Register) :
    ofName? text = some r ↔ Named (undollared text.toList) r ∨
      ∃ digits, undollared text.toList = '+' :: digits ∧ Digits 10 digits r.number := by
  rw [named_or_plus_iff]
  cases read : decimal? (undollared text.toList) with
  | some n =>
      rw [ofName?_of_number read, ofNumber?_eq_some_iff, Option.some.injEq, eq_comm, or_iff_left]
      rintro (same | ⟨same, -⟩)
      · cases (decimal?_of_name same).symm.trans read
      · cases (decimal?_of_framePointer same).symm.trans read
  | none =>
      rw [ofName?_of_letters read, or_iff_right (by simp)]
      split
      · next same =>
          rw [same, Option.some.injEq, or_iff_right (Ne.symm (lower_name r).2), and_iff_right rfl,
            eq_comm]
      · next other =>
          rw [or_iff_left fun same => other same.1]
          exact find?_name_eq_some_iff _ r

end Reading

/-- The texts of an operand that is a register: behind a dollar sign it is named, or has its number
behind a plus sign. -/
def IsWritten (r : Register) (text : String) : Prop :=
  ∃ name, text.toList = '$' :: name ∧
    (Named name r ∨ ∃ digits, name = '+' :: digits ∧ Digits 10 digits r.number)

theorem registerValue_eq_ok_iff {text : String} {r : Register} :
    Source.registerValue text = .ok r ↔ r.IsWritten text := by
  have read : Source.registerValue text = .ok r ↔
      text.toList.head? = some '$' ∧ ofName? text = some r := by
    rw [Source.registerValue]
    split
    · next dollar => cases read : ofName? text <;> simp [dollar]
    · next other => simp [other]
  rw [read, ofName?_eq_some_iff, IsWritten]
  cases chars : text.toList with
  | nil => simp
  | cons c name =>
      by_cases dollar : c = '$'
      · subst dollar
        simp [undollared]
      · simp [dollar]

/-- A register is read off a text exactly if the text names it, with or without a dollar sign, or
has a plus sign before its number; in the second case the text does not name it, so that names and
what is read agree on all other texts. An operand of a program is read alike, but its dollar sign
has to be there. -/
theorem ofName?_reads_exactly (text : String) (r : Register) :
    (ofName? text = some r ↔ Named (undollared text.toList) r ∨
      ∃ digits, undollared text.toList = '+' :: digits ∧ Digits 10 digits r.number) ∧
    ((ofName? text = some r ↔ Named (undollared text.toList) r) ↔
      ¬∃ digits, undollared text.toList = '+' :: digits ∧ Digits 10 digits r.number) ∧
    (Source.registerValue text = .ok r ↔ ∃ name, text.toList = '$' :: name ∧
      (Named name r ∨ ∃ digits, name = '+' :: digits ∧ Digits 10 digits r.number)) := by
  refine ⟨ofName?_eq_some_iff text r, ?_, registerValue_eq_ok_iff⟩
  rw [ofName?_eq_some_iff]
  constructor
  · rintro agree ⟨digits, plus, made⟩
    have named := agree.mp (.inr ⟨digits, plus, made⟩)
    rw [plus] at named
    exact not_named_plus digits r named
  · exact fun other => or_iff_left other

/-- A text that is read as `$t0` and names no register. -/
theorem plusEight_unnamed : (ofName? "$+8").map text = some "$t0" ∧
    ∀ r, ¬Named (undollared "$+8".toList) r :=
  ⟨by decide +kernel, fun r => not_named_plus ['8'] r⟩

end Register

end Mips
