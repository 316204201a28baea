import Mips.Directive
import Mips.Proofs.Text.Scan
import Mips.Source.Item
import Mathlib.Data.List.Basic

/-!
Lines that are written label by label and word by word. A label before a line is read as such
whatever follows it, and a line that begins with a word is one item with the operands after the
word.
-/
namespace Mips

namespace Text

/-- The ASCII characters can be checked one by one. -/
theorem ascii_forall {P : Char → Prop} (h : ∀ n < 128, P (Char.ofNat n)) {c : Char}
    (small : c.toNat < 128) : P c := by
  have here := h c.toNat small
  rwa [Char.ofNat_toNat] at here

theorem toNat_lt_of_isAlphanum {c : Char} (h : c.isAlphanum = true) : c.toNat < 128 := by
  have ranges : c.isAlphanum = (decide (c.val ≥ 'A'.val ∧ c.val ≤ 'Z'.val) ||
      decide (c.val ≥ 'a'.val) && decide (c.val ≤ 'z'.val) ||
      decide (c.val ≥ '0'.val) && decide (c.val ≤ '9'.val)) := rfl
  simp only [ranges, Bool.or_eq_true, Bool.and_eq_true, decide_eq_true_eq, UInt32.le_iff_toNat_le,
    ge_iff_le] at h
  change ((65 ≤ c.toNat ∧ c.toNat ≤ 90) ∨ (97 ≤ c.toNat ∧ c.toNat ≤ 122)) ∨
    (48 ≤ c.toNat ∧ c.toNat ≤ 57) at h
  omega

end Text

theorem Fragment.line_span {f : Fragment} (h : f.text ≠ []) :
    f.span.map Span.line = some f.line := by
  rw [span, if_neg (by simpa using h)]
  rfl

namespace Source

open Text

section Letters

variable {c : Char} {name : List Char}

/-- A character that can stand inside the name of a label. -/
def isLetter (c : Char) : Bool :=
  c.isAlphanum || c = '_' || c = '.'

theorem toNat_lt_of_isLetter (h : isLetter c = true) : c.toNat < 128 := by
  simp only [isLetter, Bool.or_eq_true, decide_eq_true_eq] at h
  obtain (word | rfl) | rfl := h
  · exact toNat_lt_of_isAlphanum word
  · decide
  · decide

theorem plain_of_isLetter (h : isLetter c = true) :
    endsLabel c = false ∧ c ≠ '#' ∧ isSign c = false :=
  ascii_forall (P := fun c => isLetter c = true → endsLabel c = false ∧ c ≠ '#' ∧ isSign c = false)
    (by decide +kernel) (toNat_lt_of_isLetter h) h

theorem isLetter_of_isLabel (h : isLabel name = true) : ∀ c ∈ name, isLetter c = true := by
  cases name with
  | nil => cases h
  | cons first rest =>
      simp only [isLabel, Bool.and_eq_true, Bool.or_eq_true, List.all_eq_true] at h
      rintro c (_ | ⟨_, member⟩)
      · obtain letter | underscore := h.1
        · simp [isLetter, Char.isAlphanum, letter]
        · simp [isLetter, of_decide_eq_true underscore]
      · simpa [isLetter] using h.2 c member

/-- The start of a label decides that it is no number, directive, register or literal. -/
theorem first_of_isLabel (h : isLabel name = true) :
    ∃ first rest, name = first :: rest ∧ first.isDigit = false ∧
      first ∉ ['.', '$', '"', '\'', '(', '+', '-'] := by
  cases name with
  | nil => cases h
  | cons first rest =>
      refine ⟨first, rest, rfl, ?_⟩
      have small : first.toNat < 128 :=
        toNat_lt_of_isLetter (isLetter_of_isLabel h first List.mem_cons_self)
      have begins : (first.isAlpha || first = '_') = true := by
        simp only [isLabel, Bool.and_eq_true] at h
        exact h.1
      exact ascii_forall (P := fun c => (c.isAlpha || c = '_') = true → c.isDigit = false ∧
        c ∉ ['.', '$', '"', '\'', '(', '+', '-']) (by decide +kernel) small begins

theorem isBlank_of_endsLabel (h : endsLabel c = false) : isBlank c = false := by
  rw [endsLabel, Bool.or_eq_false_iff] at h
  exact h.1

end Letters

/-- A word: what is written in one go at the start of a line, before a colon or a blank. -/
structure Word (text : List Char) : Prop where
  nonempty : text ≠ []
  plain : ∀ c ∈ text, endsLabel c = false ∧ c ≠ '#'

namespace Word

variable {word : List Char} (h : Word word)
include h

theorem ink : ∀ c ∈ word, isBlank c = false :=
  fun c member => isBlank_of_endsLabel (h.plain c member).1

theorem free : ∀ c ∈ word, (!endsLabel c) = true := by
  intro c member
  rw [(h.plain c member).1]
  rfl

theorem unquoted : Unquoted word :=
  unquoted_of_class (p := fun c => !endsLabel c) (by decide) (by decide) h.free

theorem uncommented_append (rest : List Char) : Quotation.outside.uncommented (word ++ rest) =
    word ++ Quotation.outside.uncommented rest := by
  have whole : Quotation.outside.uncommented word = word :=
    Quotation.uncommented_of_not_mem fun member => (h.plain '#' member).2 rfl
  rw [Quotation.uncommented_append whole, Quotation.after_unquoted h.unquoted]

theorem first (rest : List Char) : ∀ c ∈ (word ++ rest).head?, isBlank c = false := by
  intro c member
  rw [List.head?_append_of_ne_nil word h.nonempty] at member
  exact h.ink c (List.mem_of_mem_head? member)

theorem takeWhile_isBlank (rest : List Char) : (word ++ rest).takeWhile isBlank = [] := by
  obtain ⟨c, more, rfl⟩ := List.exists_cons_of_ne_nil h.nonempty
  exact List.takeWhile_cons_of_neg (by simp [h.ink c List.mem_cons_self])

theorem last : ∀ c ∈ word.getLast?, isBlank c = false :=
  fun c member => h.ink c (List.mem_of_mem_getLast? member)

end Word

theorem Word.of_all {text : List Char} (nonempty : text ≠ [])
    (plain : (text.all fun c => !endsLabel c && c != '#') = true) : Word text where
  nonempty := nonempty
  plain := by simpa using plain

theorem word_of_isLabel {name : List Char} (h : isLabel name = true) : Word name where
  nonempty := by
    rintro rfl
    cases h
  plain := fun c member => by
    have letter := plain_of_isLetter (isLetter_of_isLabel h c member)
    exact ⟨letter.1, letter.2.1⟩

section Labels

variable {line start : Nat} {name rest : List Char}

theorem labels_of_none {f : Fragment} (h : LabelNode.ofFragment? f = none) :
    labels f = ([], f) := by
  rw [labels]
  split
  · rfl
  · next found => rw [h] at found; cases found

theorem labels_of_some {f rest : Fragment} {label : LabelNode}
    (h : LabelNode.ofFragment? f = some (label, rest)) :
    labels f = (label :: (labels rest).1, (labels rest).2) := by
  rw [labels]
  split
  · next found => rw [h] at found; cases found
  · next found =>
      obtain ⟨rfl, rfl⟩ := Prod.mk.inj (Option.some.inj (h.symm.trans found))
      rfl

theorem takeWhile_endsLabel (word : Word name) (rest : List Char)
    (ends : ∀ c ∈ rest.head?, endsLabel c = true) :
    ((name ++ rest).takeWhile fun c => !endsLabel c) = name ∧
      ((name ++ rest).dropWhile fun c => !endsLabel c) = rest := by
  rw [List.takeWhile_append_of_pos word.free, List.dropWhile_append_of_pos word.free]
  cases rest with
  | nil => simp
  | cons c rest =>
      have stop : (!endsLabel c) = false := by rw [ends c rfl]; rfl
      rw [List.takeWhile_cons_of_neg (by simp [stop]), List.dropWhile_cons_of_neg (by simp [stop]),
        List.append_nil]
      exact ⟨rfl, rfl⟩

/-- Nothing at all is read of an empty text. -/
theorem labels_nil : labels ⟨line, start, []⟩ = ([], ⟨line, start, []⟩) :=
  labels_of_none rfl

theorem LabelNode.ofFragment?_colon (valid : isLabel name = true) (rest : List Char) :
    LabelNode.ofFragment? ⟨line, start, name ++ ':' :: rest⟩ =
      some ({ name := String.ofList name, span := some ⟨line, start, start + utf8Length name⟩ },
        ⟨line, start + utf8Length name + 1 + utf8Length (rest.takeWhile isBlank),
          rest.dropWhile isBlank⟩) := by
  have word := word_of_isLabel valid
  obtain ⟨first, more, rfl⟩ := List.exists_cons_of_ne_nil word.nonempty
  obtain ⟨taken, dropped⟩ := takeWhile_endsLabel word (':' :: rest)
    (by rintro c ⟨⟩; rfl)
  have length : (first :: more ++ [':']).length = (first :: more).length + 1 := by simp
  have whole : first :: more ++ ':' :: rest = (first :: more ++ [':']) ++ rest := by simp
  have colon : utf8Length (first :: more ++ [':']) = utf8Length (first :: more) + 1 :=
    utf8Length_append _ _
  simp only [LabelNode.ofFragment?, Fragment.takeWhile, Fragment.dropWhile, taken, dropped]
  rw [if_pos valid, Fragment.drop, Fragment.take, whole, List.take_left' length,
    List.drop_left' length, Fragment.span, Fragment.stop, if_neg (by simp), colon]
  rfl

theorem LabelNode.ofFragment?_word (word : Word name) (ends : ∀ c ∈ rest.head?, isBlank c = true) :
    LabelNode.ofFragment? ⟨line, start, name ++ rest⟩ = none := by
  have stops : ∀ c ∈ rest.head?, endsLabel c = true := fun c member => by
    rw [endsLabel, ends c member]
    rfl
  simp only [LabelNode.ofFragment?, Fragment.takeWhile, Fragment.dropWhile,
    takeWhile_endsLabel word rest stops]
  split
  · exact absurd (ends ':' rfl) (by decide)
  · rfl

end Labels

namespace Item

variable {line start : Nat} {name word rest operands : List Char}

/-- The items of a text that is trimmed and has no comment. -/
def ofCode (f : Fragment) : List Item :=
  (labels f).1.map .label ++ (ofBody? (labels f).2).toList

theorem ofLine_eq (line start : Nat) (text : List Char) :
    ofLine ⟨line, start, text⟩ =
      ofCode ⟨line, start + utf8Length ((Quotation.outside.uncommented text).takeWhile isBlank),
        trim (Quotation.outside.uncommented text)⟩ :=
  rfl

theorem ofCode_nil (line start : Nat) : ofCode ⟨line, start, []⟩ = [] := by
  rw [ofCode, labels_nil]
  rfl

/-- What follows the colon of a label is read like a line of its own. -/
theorem ofCode_label (valid : Source.isLabel name = true) (text : List Char) :
    ofCode ⟨line, start, name ++ ':' :: trimEnd text⟩ =
      .label { name := String.ofList name, span := some ⟨line, start, start + utf8Length name⟩ } ::
        ofCode ⟨line, start + utf8Length name + 1 + utf8Length (text.takeWhile isBlank),
          trim text⟩ := by
  rw [ofCode, labels_of_some (LabelNode.ofFragment?_colon valid (trimEnd text))]
  by_cases blank : trim text = []
  · rw [blank, ofCode_nil, trim_eq_nil_iff.mp blank, List.takeWhile_nil, List.dropWhile_nil,
      labels_nil]
    rfl
  · obtain ⟨lead, left⟩ := takeWhile_trimEnd blank
    rw [lead, left]
    rfl

/-- A label before a line is read off, whatever follows it. -/
theorem ofLine_label (valid : Source.isLabel name = true) (rest : List Char) :
    ofLine ⟨line, start, name ++ ':' :: rest⟩ =
      .label { name := String.ofList name, span := some ⟨line, start, start + utf8Length name⟩ } ::
        ofLine ⟨line, start + utf8Length name + 1, rest⟩ := by
  have word := word_of_isLabel valid
  have front : Quotation.outside.uncommented (name ++ ':' :: rest) =
      name ++ ':' :: Quotation.outside.uncommented rest := word.uncommented_append _
  rw [ofLine_eq, ofLine_eq, front, ← ofCode_label valid]
  generalize Quotation.outside.uncommented rest = code
  have trimmed : trim (name ++ ':' :: code) = name ++ ':' :: trimEnd code := by
    have last : ∀ c ∈ (name ++ [':']).getLast?, isBlank c = false := by
      rw [List.getLast?_append_of_ne_nil name (by simp)]
      rintro c ⟨⟩
      rfl
    have cut := trimEnd_append_of_last last code
    rw [List.append_assoc, List.append_assoc] at cut
    rw [trim, trimStart_of_first (word.first _)]
    exact cut
  rw [trimmed, word.takeWhile_isBlank]
  rfl

/-- A word with blanks after it is no label, so it begins an item. -/
theorem ofLine_word (head : Word word) (starts : ∀ c ∈ rest.head?, isBlank c = true) :
    ofLine ⟨line, start, word ++ rest⟩ =
      (ofBody? ⟨line, start, word ++ trimEnd (Quotation.outside.uncommented rest)⟩).toList := by
  have ends : ∀ c ∈ (trimEnd (Quotation.outside.uncommented rest)).head?, isBlank c = true :=
    fun c member => starts c (Quotation.head?_uncommented _ _ c (head?_trimEnd c member))
  rw [ofLine_eq, head.uncommented_append, head.takeWhile_isBlank, trim,
    trimStart_of_first (head.first _), trimEnd_append_of_last head.last, ofCode,
    labels_of_none (LabelNode.ofFragment?_word head ends)]
  rfl

/-- The head of an item is all that stands before the first blank. -/
theorem takeWhile_word (head : Word word) (starts : ∀ c ∈ rest.head?, isBlank c = true) :
    ((word ++ rest).takeWhile fun c => !isBlank c) = word ∧
      ((word ++ rest).dropWhile fun c => !isBlank c) = rest := by
  have ink : ∀ c ∈ word, (!isBlank c) = true := by
    intro c member
    rw [head.ink c member]
    rfl
  rw [List.takeWhile_append_of_pos ink, List.dropWhile_append_of_pos ink]
  cases rest with
  | nil => simp
  | cons c rest => simp [starts c rfl]

section Body

variable (head : Word word) (starts : ∀ c ∈ rest.head?, isBlank c = true)
include head starts

theorem ofBody?_directive (dot : word.head? = some '.') :
    ofBody? ⟨line, start, word ++ rest⟩ =
      some (ofDirective ⟨line, start, word ++ rest⟩ ⟨line, start, word⟩
        (OperandList.ofFragment? ⟨line,
          start + utf8Length word + utf8Length (rest.takeWhile isBlank),
          rest.dropWhile isBlank⟩)) := by
  obtain ⟨taken, dropped⟩ := takeWhile_word head starts
  have some : word ++ rest ≠ [] := by simp [head.nonempty]
  simp only [ofBody?, Fragment.takeWhile, Fragment.dropWhile, Fragment.trimStart, taken, dropped]
  rw [if_neg (by simpa using some), if_pos dot]

theorem ofBody?_statement (valid : Source.isLabel word = true) :
    ofBody? ⟨line, start, word ++ rest⟩ = some (.statement {
      mnemonic := String.ofList word
      mnemonicSpan := (⟨line, start, word⟩ : Fragment).span
      span := (⟨line, start, word ++ rest⟩ : Fragment).span
      operands := OperandList.ofFragment? ⟨line,
        start + utf8Length word + utf8Length (rest.takeWhile isBlank),
        rest.dropWhile isBlank⟩ }) := by
  obtain ⟨taken, dropped⟩ := takeWhile_word head starts
  have some : word ++ rest ≠ [] := by simp [head.nonempty]
  have undotted : word.head? ≠ Option.some '.' := by
    obtain ⟨first, more, rfl, -, other⟩ := first_of_isLabel valid
    rintro ⟨⟩
    exact other (by decide)
  simp only [ofBody?, Fragment.takeWhile, Fragment.dropWhile, Fragment.trimStart, taken, dropped]
  rw [if_neg (by simpa using some), if_neg undotted, if_pos valid]
  rfl

end Body

/-- A statement without operands. -/
theorem ofLine_mnemonic (valid : Source.isLabel word = true) {gap : List Char}
    (blank : ∀ c ∈ gap, isBlank c = true) :
    ofLine ⟨line, start, word ++ gap⟩ = [.statement {
      mnemonic := String.ofList word
      mnemonicSpan := (⟨line, start, word⟩ : Fragment).span
      span := (⟨line, start, word⟩ : Fragment).span }] := by
  have head := word_of_isLabel valid
  have free : Quotation.outside.uncommented gap = gap := Quotation.uncommented_blank blank
  have nothing : ∀ c ∈ ([] : List Char).head?, isBlank c = true := nofun
  rw [ofLine_word head fun c member => blank c (List.mem_of_mem_head? member), free,
    trimEnd_eq_nil_iff.mpr blank, ofBody?_statement head nothing valid, List.append_nil]
  rfl

/-- A statement with operands behind one blank. -/
theorem ofLine_statement (valid : Source.isLabel word = true) (nonempty : operands ≠ [])
    (first : ∀ c ∈ operands.head?, isBlank c = false)
    (last : ∀ c ∈ operands.getLast?, isBlank c = false)
    (free : Quotation.outside.uncommented operands = operands) :
    ofLine ⟨line, start, word ++ ' ' :: operands⟩ = [.statement {
      mnemonic := String.ofList word
      mnemonicSpan := (⟨line, start, word⟩ : Fragment).span
      span := (⟨line, start, word ++ ' ' :: operands⟩ : Fragment).span
      operands := OperandList.ofFragment? ⟨line, start + utf8Length word + 1, operands⟩ }] := by
  have head := word_of_isLabel valid
  have blank : ∀ c ∈ (' ' :: operands).head?, isBlank c = true := by rintro c ⟨⟩; rfl
  have code : Quotation.outside.uncommented (' ' :: operands) = ' ' :: operands :=
    congrArg (' ' :: ·) free
  have whole : trimEnd (' ' :: operands) = ' ' :: operands := by
    refine trimEnd_of_last ?_
    rwa [List.getLast?_cons_of_ne_nil nonempty]
  have gap : (' ' :: operands).takeWhile isBlank = [' '] ∧
      (' ' :: operands).dropWhile isBlank = operands := by
    obtain ⟨c, more, rfl⟩ := List.exists_cons_of_ne_nil nonempty
    have ink := first c rfl
    rw [List.takeWhile_cons_of_pos rfl, List.dropWhile_cons_of_pos rfl]
    simp [ink]
  rw [ofLine_word head blank, code, whole, ofBody?_statement head blank valid, gap.1, gap.2]
  rfl

/-- A blank at the start of a line only moves what follows it. -/
theorem ofLine_blank (rest : List Char) :
    ofLine ⟨line, start, ' ' :: rest⟩ = ofLine ⟨line, start + 1, rest⟩ := by
  have front : Quotation.outside.uncommented (' ' :: rest) =
      ' ' :: Quotation.outside.uncommented rest := rfl
  rw [ofLine_eq, ofLine_eq, front, List.takeWhile_cons_of_pos rfl, utf8Length, ← Nat.add_assoc]
  rfl

theorem ofDirective_marker (segment : SegmentName) (f : Fragment) (operands : Option OperandList) :
    ofDirective f ⟨line, start, segment.marker.toList⟩ operands =
      .marker { segment, text := segment.marker, span := f.span, operands } := by
  have found : ([SegmentName.data, .text].find? fun s => sameName s.marker segment.marker) =
      some segment := by cases segment <;> decide
  have named : segment.marker.toList.length ≠ 1 := by cases segment <;> decide
  simp only [ofDirective, Fragment.string, String.ofList_toList, found, if_neg named]

theorem word_marker (segment : SegmentName) : Word segment.marker.toList := by
  cases segment <;> exact .of_all (by decide) (by decide)

/-- A segment marker alone on its line. -/
theorem ofLine_marker (line start : Nat) (segment : SegmentName) :
    ofLine ⟨line, start, segment.marker.toList⟩ =
      [.marker {
        segment
        text := segment.marker
        span := (⟨line, start, segment.marker.toList⟩ : Fragment).span }] := by
  have nothing : ∀ c ∈ ([] : List Char).head?, isBlank c = true := nofun
  have dot : segment.marker.toList.head? = some '.' := by cases segment <;> rfl
  have word := word_marker segment
  have read : ofLine ⟨line, start, segment.marker.toList ++ []⟩ = _ := ofLine_word word nothing
  rw [show trimEnd (Quotation.outside.uncommented []) = [] from rfl,
    ofBody?_directive word nothing dot, ofDirective_marker, List.append_nil] at read
  exact read

theorem word_directive (directive : Directive) : Word directive.name.toList := by
  cases directive <;> exact .of_all (by decide) (by decide)

theorem ofDirective_directive (directive : Directive) (f : Fragment)
    (operands : Option OperandList) :
    ofDirective f ⟨line, start, directive.name.toList⟩ operands =
      .directive { name := directive.name, span := f.span, operands } := by
  have other : ([SegmentName.data, .text].find? fun s => sameName s.marker directive.name) =
      none := by cases directive <;> decide
  have named : directive.name.toList.length ≠ 1 := by cases directive <;> decide
  simp only [ofDirective, Fragment.string, String.ofList_toList, other, if_neg named]

/-- A directive takes all that stands before the comment for its operands. -/
theorem ofLine_directive (line start : Nat) (directive : Directive) (rest : List Char) :
    ∃ node place, ofLine ⟨line, start, directive.name.toList ++ ' ' :: rest⟩ = [.directive node] ∧
      node.name = directive.name ∧ node.error = none ∧ node.span.map Span.line = some line ∧
      node.operands = OperandList.ofFragment?
        ⟨line, place, trim (Quotation.outside.uncommented rest)⟩ := by
  have word := word_directive directive
  have dot : directive.name.toList.head? = some '.' := by cases directive <;> rfl
  have blank : ∀ c ∈ (' ' :: rest).head?, isBlank c = true := by rintro c ⟨⟩; rfl
  have code : Quotation.outside.uncommented (' ' :: rest) =
      ' ' :: Quotation.outside.uncommented rest := rfl
  have starts : ∀ c ∈ (trimEnd (' ' :: Quotation.outside.uncommented rest)).head?,
      isBlank c = true := by
    intro c first
    obtain rfl := Option.some.inj (head?_trimEnd c first)
    rfl
  have read : ofLine ⟨line, start, directive.name.toList ++ ' ' :: rest⟩ = _ :=
    ofLine_word word blank
  rw [code, ofBody?_directive word starts dot, ofDirective_directive, dropWhile_trimEnd] at read
  exact ⟨_, _, read, rfl, rfl, Fragment.line_span (by simp [word.nonempty]), rfl⟩

end Item

section Lines

variable {line rest : List Char}

theorem withoutReturn_of_last (h : line.getLast? ≠ some '\r') : withoutReturn line = line :=
  if_neg h

theorem withoutReturn_append (h : line.getLast? ≠ some '\r') (rest : List Char) :
    withoutReturn (line ++ rest) = line ++ withoutReturn rest := by
  by_cases empty : rest = []
  · subst empty
    rw [List.append_nil, withoutReturn_of_last h]
    exact (List.append_nil line).symm
  · rw [withoutReturn, withoutReturn, List.getLast?_append_of_ne_nil line empty]
    split
    · exact List.dropLast_append_of_ne_nil empty
    · rfl

theorem itemsFrom_append (number start : Nat) (texts more : List (List Char)) :
    ∃ place, itemsFrom number start (texts ++ more) =
      itemsFrom number start texts ++ itemsFrom (number + texts.length) place more := by
  induction texts generalizing number start with
  | nil => exact ⟨start, rfl⟩
  | cons text rest ih =>
      obtain ⟨place, items⟩ := ih (number + 1) (start + utf8Length text + 1)
      refine ⟨place, ?_⟩
      rw [List.cons_append, itemsFrom, items, itemsFrom, List.append_assoc, List.length_cons,
        Nat.add_comm rest.length, ← Nat.add_assoc]

theorem items_of_lines {source : String} {texts : List (List Char)}
    (written : source.toList = ['\n'].intercalate texts) (nonempty : texts ≠ [])
    (oneLine : ∀ text ∈ texts, '\n' ∉ text) : items source = itemsFrom 1 0 texts := by
  rw [items, written, lines_intercalate nonempty oneLine]

end Lines

end Source

end Mips
