import Mips.Proofs.Source.Literal
import Mips.Proofs.Text.Numeral

/-!
Which texts are integer literals, for which integers, and what is said of the others. A literal is a
number of the grammar, or a text between single quotes that stands for one character. The two never
meet, since no number begins with a quote, and a text that is neither a number nor quoted is
malformed.

What stands between quotes, single or double, is read character by character: a backslash and the
letter after it stand for one character, and any other character stands for itself.
-/
namespace Mips

namespace Text

/-- A text between single quotes. -/
def Quoted (text body : List Char) : Prop :=
  text = '\'' :: (body ++ ['\''])

/-- The letters that may stand behind a backslash, and the characters that they stand for there. -/
def escapes : List (Char × Char) :=
  [('n', '\n'), ('t', '\t'), ('r', '\r'), ('0', '\x00'), ('\\', '\\'), ('"', '"'), ('\'', '\'')]

/-- A character as it stands between quotes. -/
inductive Stands : Char → List Char → Prop
  | plain {c : Char} : c ≠ '\\' → Stands c [c]
  | escaped {c letter : Char} : (letter, c) ∈ escapes → Stands c ['\\', letter]

/-- What stands between quotes, and the text that it stands for. -/
inductive Unescapes : List Char → List Char → Prop
  | nil : Unescapes [] []
  | cons {c : Char} {piece body text : List Char} : Stands c piece → Unescapes body text →
      Unescapes (piece ++ body) (c :: text)

/-- The literals for an integer; blanks around them do not matter. -/
def IntegerLiteral (text : List Char) (v : Int) : Prop :=
  (∃ body c, Quoted (trim text) body ∧ Stands c body ∧ v = c.toNat) ∨
    Numeral (trim text) v ∧ Fits v

/-- What is made of a text without blanks around it. -/
inductive Reads (text : List Char) : Except IntegerError Int → Prop
  | character {body : List Char} {c : Char} : Quoted text body → Stands c body →
      Reads text (.ok c.toNat)
  | number {v : Int} : Numeral text v → Fits v → Reads text (.ok v)
  | tooLarge {v : Int} : Numeral text v → ¬Fits v → Reads text (.error .tooLarge)
  | refused {body : List Char} {e : IntegerError} : Quoted text body → e ≠ .malformed →
      e ≠ .tooLarge → Reads text (.error e)
  | malformed : (∀ body, ¬Quoted text body) → (∀ v, ¬Numeral text v) →
      Reads text (.error .malformed)

section Characters

theorem escaped?_eq_some_iff {letter c : Char} :
    escaped? letter = some c ↔ (letter, c) ∈ escapes := by
  constructor
  · intro known
    rw [escaped?.eq_def] at known
    split at known <;> cases known <;> decide
  · have table : ∀ pair ∈ escapes, escaped? pair.1 = some pair.2 := by decide
    exact table (letter, c)

theorem unescape_slash {letter : Char} {rest text : List Char} :
    unescape ('\\' :: letter :: rest) = .ok text ↔
      ∃ c later, (letter, c) ∈ escapes ∧ unescape rest = .ok later ∧ c :: later = text := by
  simp only [← escaped?_eq_some_iff]
  rw [unescape]
  cases escaped? letter with
  | none => simp
  | some c => cases unescape rest <;> simp [Except.map]

theorem unescape_plain {c : Char} {rest text : List Char} (plain : c ≠ '\\') :
    unescape (c :: rest) = .ok text ↔ ∃ later, unescape rest = .ok later ∧ c :: later = text := by
  rw [unescape_cons plain]
  cases unescape rest <;> simp [Except.map]

theorem unescape_eq_nil_iff {body : List Char} : unescape body = .ok [] ↔ body = [] := by
  cases body with
  | nil => simp [unescape]
  | cons c rest =>
      by_cases slash : c = '\\'
      · subst slash
        cases rest with
        | nil => simp [unescape]
        | cons letter rest => simp [unescape_slash]
      · simp [unescape_plain slash]

/-- The first character of a text is read off what stands first for it. -/
theorem unescape_eq_cons_iff {body text : List Char} {c : Char} : unescape body = .ok (c :: text) ↔
    ∃ piece rest, body = piece ++ rest ∧ Stands c piece ∧ unescape rest = .ok text := by
  constructor
  · intro held
    cases body with
    | nil => simp [unescape] at held
    | cons d rest =>
        by_cases slash : d = '\\'
        · subst slash
          cases rest with
          | nil => simp [unescape] at held
          | cons letter rest =>
              obtain ⟨e, later, known, others, same⟩ := unescape_slash.mp held
              obtain ⟨rfl, rfl⟩ := List.cons.inj same
              exact ⟨['\\', letter], rest, rfl, .escaped known, others⟩
        · obtain ⟨later, others, same⟩ := (unescape_plain slash).mp held
          obtain ⟨rfl, rfl⟩ := List.cons.inj same
          exact ⟨[d], rest, rfl, .plain slash, others⟩
  · rintro ⟨piece, rest, rfl, stands, others⟩
    cases stands with
    | plain slash => exact (unescape_plain slash).mpr ⟨text, others, rfl⟩
    | escaped known => exact unescape_slash.mpr ⟨c, text, known, others, rfl⟩

/-- The bodies that unescape to exactly one character. -/
theorem unescape_eq_singleton_iff {body : List Char} {c : Char} :
    unescape body = .ok [c] ↔ Stands c body := by
  simp [unescape_eq_cons_iff, unescape_eq_nil_iff]

theorem unescape_eq_ok_iff {body text : List Char} :
    unescape body = .ok text ↔ Unescapes body text := by
  induction text generalizing body with
  | nil =>
      rw [unescape_eq_nil_iff]
      constructor
      · rintro rfl
        exact .nil
      · intro unescapes
        cases unescapes
        rfl
  | cons c text ih =>
      simp only [unescape_eq_cons_iff, ih]
      constructor
      · rintro ⟨piece, rest, rfl, stands, later⟩
        exact .cons stands later
      · intro unescapes
        cases unescapes with
        | cons stands later => exact ⟨_, _, rfl, stands, later⟩

end Characters

section Reading

variable {text : List Char} {v : Int}

theorem integer_of_quoted {body : List Char} (h : Quoted (trim text) body) :
    integer text = character (body ++ ['\'']) := by
  rw [integer, h]
  rfl

theorem character_of_stands {body : List Char} {c : Char} (stands : Stands c body) :
    character (body ++ ['\'']) = .ok c.toNat := by
  have closed : (body ++ ['\'']).getLast? = some '\'' := by simp
  rw [character, if_pos closed, List.dropLast_concat, unescape_eq_singleton_iff.mpr stands]

theorem reads_character {body : List Char} (quoted : Quoted text body) :
    Reads text (character (body ++ ['\''])) := by
  have closed : (body ++ ['\'']).getLast? = some '\'' := by simp
  rw [character, if_pos closed, List.dropLast_concat]
  split
  · next c held => exact .character quoted (unescape_eq_singleton_iff.mp held)
  · exact .refused quoted nofun nofun
  · exact .refused quoted nofun nofun

theorem integer_of_neither (unquoted : ∀ body, ¬Quoted (trim text) body)
    (unnumbered : ∀ v, ¬Numeral (trim text) v) : integer text = .error .malformed := by
  rw [integer]
  split
  · next rest quote =>
      have unclosed : rest.getLast? ≠ some '\'' := by
        intro last
        obtain ⟨body, rfl⟩ := List.getLast?_eq_some_iff.mp last
        exact unquoted body quote
      rw [character, if_neg unclosed]
  · exact number_of_not_numeral unnumbered

theorem reads_integer (text : List Char) : Reads (trim text) (integer text) := by
  by_cases quoted : ∃ body, Quoted (trim text) body
  · obtain ⟨body, quoted⟩ := quoted
    rw [integer_of_quoted quoted]
    exact reads_character quoted
  by_cases numbered : ∃ v, Numeral (trim text) v
  · obtain ⟨v, numeral⟩ := numbered
    rw [integer_of_numeral numeral]
    split
    · next fits => exact .number numeral fits
    · next unfit => exact .tooLarge numeral unfit
  · have unquoted := not_exists.mp quoted
    have unnumbered := not_exists.mp numbered
    rw [integer_of_neither unquoted unnumbered]
    exact .malformed unquoted unnumbered

theorem integer_eq_ok_iff : integer text = .ok v ↔ IntegerLiteral text v := by
  constructor
  · intro ok
    have reads := reads_integer text
    rw [ok] at reads
    cases reads with
    | character quoted stands => exact .inl ⟨_, _, quoted, stands, rfl⟩
    | number numeral fits => exact .inr ⟨numeral, fits⟩
  · rintro (⟨body, c, quoted, stands, rfl⟩ | ⟨numeral, fits⟩)
    · rw [integer_of_quoted quoted, character_of_stands stands]
    · rw [integer_of_numeral numeral]
      exact if_pos fits

theorem integer_eq_tooLarge_iff : integer text = .error .tooLarge ↔
    ∃ v, Numeral (trim text) v ∧ ¬Fits v := by
  constructor
  · intro error
    have reads := reads_integer text
    rw [error] at reads
    cases reads with
    | tooLarge numeral unfit => exact ⟨_, numeral, unfit⟩
    | refused _ _ other => exact absurd rfl other
  · rintro ⟨v, numeral, unfit⟩
    rw [integer_of_numeral numeral]
    exact if_neg unfit

theorem integer_eq_malformed_iff : integer text = .error .malformed ↔
    (∀ body, ¬Quoted (trim text) body) ∧ ∀ v, ¬Numeral (trim text) v := by
  constructor
  · intro error
    have reads := reads_integer text
    rw [error] at reads
    cases reads with
    | refused _ other _ => exact absurd rfl other
    | malformed unquoted unnumbered => exact ⟨unquoted, unnumbered⟩
  · rintro ⟨unquoted, unnumbered⟩
    exact integer_of_neither unquoted unnumbered

end Reading

section Wording

theorem EscapeError.third_message (error : EscapeError) :
    error.message.toList[2]?.any ['v', 't'].contains = false := by
  cases error with
  | unknown escape =>
      unfold message
      simp only [String.toList_append]
      rfl
  | dangling => decide

/-- The third letter tells the problems of literals apart. -/
theorem IntegerError.third_message (text : String) (error : IntegerError) :
    match error with
    | malformed => (error.message text).toList[2]? = some 'v'
    | tooLarge => (error.message text).toList[2]? = some 't'
    | _ => (error.message text).toList[2]?.any ['v', 't'].contains = false := by
  cases error with
  | malformed | tooLarge | characterCount =>
      unfold message
      simp only [String.toList_append]
      rfl
  | escape error => exact error.third_message

theorem IntegerError.message_eq_tooLarge_iff {text : String} {error : IntegerError} :
    error.message text = message text tooLarge ↔ error = tooLarge := by
  refine ⟨fun same => ?_, fun same => same ▸ rfl⟩
  have own := third_message text tooLarge
  have third := third_message text error
  rw [same] at third
  cases error with
  | tooLarge => rfl
  | malformed | characterCount | escape _ => simp [own] at third

theorem IntegerError.message_eq_malformed_iff {text : String} {error : IntegerError} :
    error.message text = message text malformed ↔ error = malformed := by
  refine ⟨fun same => ?_, fun same => same ▸ rfl⟩
  have own := third_message text malformed
  have third := third_message text error
  rw [same] at third
  cases error with
  | malformed => rfl
  | tooLarge | characterCount | escape _ => simp [own] at third

end Wording

end Text

namespace Source

open Text

variable {text : String}

theorem integerValue_eq_ok_iff {v : Int} :
    integerValue text = .ok v ↔ IntegerLiteral text.toList v := by
  rw [← integer_eq_ok_iff, integerValue]
  cases Text.integer text.toList <;> simp [Except.mapError]

theorem problem_integerValue_iff {problem : String} :
    (integerValue text).mapError OperandError.message = .error problem ↔
      ∃ e, Text.integer text.toList = .error e ∧ e.message text = problem := by
  have problem_of (e : IntegerError) :
      (OperandError.integer text e).message = e.message text := rfl
  rw [integerValue]
  cases Text.integer text.toList with
  | ok v => simp [Except.mapError]
  | error e => simp [Except.mapError, problem_of]

/-- The integer literals and their values, and what is said of the other texts. The digits of a
number may be as many as they like: only its exact value decides whether it fits. -/
theorem integerValue_classified (text : String) :
    (∀ v, integerValue text = .ok v ↔
      (∃ body c, Quoted (trim text.toList) body ∧ Stands c body ∧ v = c.toNat) ∨
        Numeral (trim text.toList) v ∧ -0x80000000 ≤ v ∧ v ≤ 0xFFFFFFFF) ∧
      ((integerValue text).mapError OperandError.message =
          .error s!"integer literal \"{text}\" does not fit in 32 bits" ↔
        ∃ v, Numeral (trim text.toList) v ∧ ¬(-0x80000000 ≤ v ∧ v ≤ 0xFFFFFFFF)) ∧
      ((integerValue text).mapError OperandError.message =
          .error s!"invalid integer literal \"{text}\"" ↔
        (∀ body, ¬Quoted (trim text.toList) body) ∧ ∀ v, ¬Numeral (trim text.toList) v) := by
  have range (v : Int) : (-0x80000000 ≤ v ∧ v ≤ 0xFFFFFFFF) ↔ Fits v := Iff.rfl
  have tooLarge (e : IntegerError) :
      e.message text = s!"integer literal \"{text}\" does not fit in 32 bits" ↔ e = .tooLarge :=
    IntegerError.message_eq_tooLarge_iff
  have malformed (e : IntegerError) :
      e.message text = s!"invalid integer literal \"{text}\"" ↔ e = .malformed :=
    IntegerError.message_eq_malformed_iff
  simp only [range]
  refine ⟨fun v => ?_, ?_, ?_⟩
  · rw [integerValue_eq_ok_iff, IntegerLiteral]
  · simp only [problem_integerValue_iff, tooLarge, exists_eq_right]
    exact integer_eq_tooLarge_iff
  · simp only [problem_integerValue_iff, malformed, exists_eq_right]
    exact integer_eq_malformed_iff

example : integerValue " +0000000000000000000000000000000000000b1\t" =
    .error (.integer " +0000000000000000000000000000000000000b1\t" .malformed) := by
  decide

example : integerValue " -0X00000000000000000000000000000080000000\t" = .ok (-0x80000000) := by
  decide

end Source

end Mips
