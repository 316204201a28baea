import Mips.Proofs.Source.Written
import Mips.Proofs.Text.Numeral
import Mips.Source.Value
import Mathlib.Data.List.Forall2

/-!
Operands are read back from the form in which they are printed. Such a form has no blank, quote,
comma or hash in it and closes its parentheses, so the operands of a printed list are cut apart just
at the commas between them.
-/
namespace Mips

/-- An address that can be written in a source: it has a label or a base register, and what it has
is well-formed. -/
structure Address.Printable (a : Address) : Prop where
  label : ∀ l ∈ a.label, Source.isLabel l.toList = true
  offset : ∀ n ∈ a.offset, Text.Fits n
  anchored : a.label.isSome = true ∨ a.base.isSome = true
  unplaced : a.target = none

namespace Operand

/-- What an operand has to meet to be read back from its text. Strings are left out. -/
inductive Printable : Operand → Prop
  | integer {n : Int} (fits : Text.Fits n) : Printable (.integer n)
  | address {a : Address} (printable : a.Printable) : Printable (.address a)
  | register (r : Register) : Printable (.register r)

end Operand

namespace Source

open Text

section Values

theorem integerValue_of_decimal {n : Int} {text : String} (decimal : Decimal n text.toList)
    (fits : Fits n) : integerValue text = .ok n := by
  rw [integerValue, decimal.integer fits]
  rfl

theorem registerValue_text (r : Register) : registerValue r.text = .ok r := by
  obtain ⟨n⟩ := r
  revert n
  decide +kernel

theorem valueIfPresent_map {α : Type} {value : String → Except OperandError α} {text : α → String}
    {present : Option α} (h : ∀ a ∈ present, value (text a) = .ok a) :
    valueIfPresent value (present.map text) = .ok present := by
  cases present with
  | none => rfl
  | some a =>
      rw [Option.map_some, valueIfPresent, h a rfl]
      rfl

end Values

/-- The sign of an offset is left out when nothing stands before it. -/
def offsetText (label : Option String) : Int → String :=
  if label.isSome then Address.signed else toString

/-- The shape in which an address is printed. -/
def addressForm (a : Address) : Form :=
  .address a.label (a.offset.map (offsetText a.label)) (a.base.map Register.text)

theorem decimal_offsetText (label : Option String) (n : Int) :
    Decimal n (offsetText label n).toList := by
  rw [offsetText]
  split
  · exact decimal_signed n
  · exact decimal_toString n

theorem value_addressForm {a : Address} (h : a.Printable) (whole : String) :
    (addressForm a).value whole = .ok (.address a) := by
  have offset : valueIfPresent integerValue (a.offset.map (offsetText a.label)) = .ok a.offset :=
    valueIfPresent_map fun n member =>
      integerValue_of_decimal (decimal_offsetText a.label n) (h.offset n member)
  have base : valueIfPresent registerValue (a.base.map Register.text) = .ok a.base :=
    valueIfPresent_map fun r _ => registerValue_text r
  obtain ⟨label, number, register, target⟩ := a
  obtain rfl := h.unplaced
  rw [addressForm, Form.value, offset, base]
  rfl

section Shapes

variable {name text before inner : List Char}

theorem unsigned_of_isLabel (valid : isLabel name = true) : ∀ c ∈ name, (!isSign c) = true :=
  fun c member => by simp [(plain_of_isLetter (isLetter_of_isLabel valid c member)).2.2]

theorem splitOffset_label (valid : isLabel name = true) : splitOffset name = (name, none) := by
  have nothing : (name.dropWhile fun c => !isSign c) = [] :=
    List.dropWhile_eq_nil_iff.mpr (unsigned_of_isLabel valid)
  rw [splitOffset, nothing]

theorem splitOffset_signed (valid : isLabel name = true) (n : Int) :
    splitOffset (name ++ (Address.signed n).toList) = (name, some (Address.signed n).toList) := by
  have unsigned := unsigned_of_isLabel valid
  have ink := (decimal_signed n).ink
  obtain ⟨sign, digits, signed, stop⟩ : ∃ sign digits,
      (Address.signed n).toList = sign :: digits ∧ (!isSign sign) = false := by
    refine ⟨_, _, toList_signed n, ?_⟩
    split <;> rfl
  rw [signed] at ink ⊢
  have taken : ((name ++ sign :: digits).takeWhile fun c => !isSign c) = name := by
    rw [List.takeWhile_append_of_pos unsigned, List.takeWhile_cons_of_neg (by simp [stop]),
      List.append_nil]
  have dropped : ((name ++ sign :: digits).dropWhile fun c => !isSign c) = sign :: digits := by
    rw [List.dropWhile_append_of_pos unsigned, List.dropWhile_cons_of_neg (by simp [stop])]
  rw [splitOffset, dropped]
  simp only
  rw [taken, trim_of_ink ink, trimEnd_of_last (word_of_isLabel valid).last]

/-- A label is recognised with the offset that is printed after it. -/
theorem labelForm?_displaced {label : String} (valid : isLabel label.toList = true)
    (offset : Option Int) (base : Option String) :
    labelForm? (label.toList ++ (offset.elim "" Address.signed).toList) base =
      .ok (.address (some label) (offset.map Address.signed) base) := by
  cases offset with
  | none =>
      simp only [labelForm?, Option.elim_none, String.toList_empty, List.append_nil,
        splitOffset_label valid, valid]
      simp
  | some n =>
      simp only [labelForm?, Option.elim_some, splitOffset_signed valid, valid]
      simp

theorem startsNumeric_label (valid : isLabel name = true) (rest : List Char) :
    startsNumeric (name ++ rest) = false := by
  obtain ⟨first, more, rfl, letter, other⟩ := first_of_isLabel valid
  have unsigned := unsigned_of_isLabel valid first List.mem_cons_self
  rw [Bool.not_eq_true'] at unsigned
  simp [startsNumeric, unsigned, letter]

theorem startsNumeric_decimal {n : Int} (h : Decimal n text) : startsNumeric text = true := by
  have digits (m : Nat) : ((Nat.toDigits 10 m).head?).any Char.isDigit = true := by
    obtain ⟨first, rest, front, digit⟩ := toDigits_eq_cons m
    rw [front]
    exact digit
  cases h with
  | plain m =>
      obtain ⟨first, rest, front, digit⟩ := toDigits_eq_cons m
      have unsigned : isSign first = false := by
        by_contra sign
        simp only [isSign, Bool.not_eq_false, Bool.or_eq_true, decide_eq_true_eq] at sign
        obtain rfl | rfl := sign <;> cases digit
      simp [front, startsNumeric, unsigned, digit]
  | plus m => exact digits m
  | minus m => exact digits m

theorem ofText_unquoted (nonempty : text ≠ []) (first : ∀ c ∈ text.head?, c ∉ ['"', '\'', '$']) :
    Form.ofText text = match text.dropWhile fun c => c ≠ '(' with
      | _ :: after => basedForm (text.takeWhile fun c => c ≠ '(') after
      | [] =>
          if startsNumeric text then .ok (.integer (String.ofList text))
          else match labelForm? text none with
            | .ok form => .ok form
            | .error _ => .error (.unrecognised (String.ofList text)) := by
  rw [Form.ofText.eq_def]
  split
  · exact absurd rfl nonempty
  · exact absurd (by decide) (first _ rfl)
  · exact absurd (by decide) (first _ rfl)
  · exact absurd (by decide) (first _ rfl)
  · rfl

theorem ofText_based (free : '(' ∉ before) (first : ∀ c ∈ before.head?, c ∉ ['"', '\'', '$']) :
    Form.ofText (before ++ '(' :: inner) = basedForm before inner := by
  have open_ : ∀ c ∈ before, decide (c ≠ '(') = true := by
    intro c member
    simpa using ne_of_mem_of_not_mem member free
  have begins : ∀ c ∈ (before ++ '(' :: inner).head?, c ∉ ['"', '\'', '$'] := by
    cases before with
    | nil => rintro c ⟨⟩; decide
    | cons c more => exact first
  rw [ofText_unquoted (by simp) begins, List.dropWhile_append_of_pos open_,
    List.takeWhile_append_of_pos open_, List.dropWhile_cons_of_neg (by simp),
    List.takeWhile_cons_of_neg (by simp), List.append_nil]

theorem basedForm_closed {base : List Char} (tight : trim base = base)
    (ink : trim before = before) :
    basedForm before (base ++ [')']) =
      if before.isEmpty then .ok (.address none none (some (String.ofList base)))
      else if startsNumeric before then
        .ok (.address none (some (String.ofList before)) (some (String.ofList base)))
      else labelForm? before (some (String.ofList base)) := by
  rw [basedForm, List.reverse_append]
  simp only [List.reverse_singleton, List.singleton_append, List.reverse_reverse, tight, ink]

end Shapes

/-- A character of a printed operand, parentheses aside. -/
def isFlat (c : Char) : Bool :=
  isLetter c || isSign c || c = '$'

theorem plain_of_isFlat {c : Char} (h : isFlat c = true) :
    isBlank c = false ∧ c ∉ ['"', '\'', '#', ',', '(', ')'] := by
  have small : c.toNat < 128 := by
    simp only [isFlat, isSign, Bool.or_eq_true, decide_eq_true_eq] at h
    obtain (letter | rfl | rfl) | rfl := h
    · exact toNat_lt_of_isLetter letter
    all_goals decide
  exact ascii_forall (P := fun c => isFlat c = true →
    isBlank c = false ∧ c ∉ ['"', '\'', '#', ',', '(', ')']) (by decide +kernel) small h

theorem trim_of_isFlat {text : List Char} (h : ∀ c ∈ text, isFlat c = true) : trim text = text :=
  trim_of_ink fun c member => (plain_of_isFlat (h c member)).1

section Texts

variable {a : Address}

theorem toList_text_register (r : Register) : r.text.toList = '$' :: r.name.toList := by
  rw [Register.text, String.toList_append]
  rfl

theorem isFlat_text_register (r : Register) : ∀ c ∈ r.text.toList, isFlat c = true := by
  have each : ∀ n : Fin 32, ((Register.mk n).text.toList.all isFlat) = true := by decide +kernel
  exact List.all_eq_true.mp (each r.number)

theorem isFlat_decimal {n : Int} {text : List Char} (h : Decimal n text) :
    ∀ c ∈ text, isFlat c = true := by
  intro c member
  obtain digit | rfl | rfl := h.mem c member
  · simp [isFlat, isLetter, Char.isAlphanum, digit]
  · rfl
  · rfl

theorem first_decimal {n : Int} {text : List Char} (h : Decimal n text) :
    ∀ c ∈ text.head?, c ∉ ['"', '\'', '$'] := by
  intro c first quote
  have digit := h.mem c (List.mem_of_mem_head? first)
  simp only [List.mem_cons, List.not_mem_nil, or_false] at quote
  obtain rfl | rfl | rfl := quote <;> obtain other | other | other := digit <;> cases other

/-- What is printed before the base register of an address. -/
def displacement (a : Address) : List Char :=
  match a.label with
  | some label => label.toList ++ (a.offset.elim "" Address.signed).toList
  | none => (a.offset.elim "" toString).toList

theorem toList_text (a : Address) : a.text.toList =
    displacement a ++ a.base.elim [] fun r => '(' :: (r.text.toList ++ [')']) := by
  obtain ⟨label, offset, base, target⟩ := a
  cases label <;> cases offset <;> cases base <;> simp [Address.text, displacement]

theorem isFlat_displacement (h : a.Printable) : ∀ c ∈ displacement a, isFlat c = true := by
  obtain ⟨label, offset, base, target⟩ := a
  cases label with
  | none =>
      cases offset with
      | none => nofun
      | some n => exact isFlat_decimal (decimal_toString n)
  | some label =>
      intro c member
      obtain letter | shift := List.mem_append.mp member
      · rw [isFlat, isLetter_of_isLabel (h.label label rfl) c letter]
        rfl
      · cases offset with
        | none => cases shift
        | some n => exact isFlat_decimal (decimal_signed n) c shift

theorem first_displacement (h : a.Printable) :
    ∀ c ∈ (displacement a).head?, c ∉ ['"', '\'', '$'] := by
  obtain ⟨label, offset, base, target⟩ := a
  cases label with
  | none =>
      cases offset with
      | none => nofun
      | some n => exact first_decimal (decimal_toString n)
  | some label =>
      obtain ⟨first, rest, front, -, other⟩ := first_of_isLabel (h.label label rfl)
      have begins : displacement ⟨some label, offset, base, target⟩ =
          first :: (rest ++ (offset.elim "" Address.signed).toList) := by
        show label.toList ++ _ = _
        rw [front]
        rfl
      rw [begins]
      rintro c ⟨⟩ quote
      refine other ?_
      simp only [List.mem_cons, List.not_mem_nil, or_false] at quote ⊢
      tauto

theorem displacement_ne_nil (h : a.Printable) {label : String} (named : a.label = some label) :
    displacement a ≠ [] := by
  simp [displacement, named, (word_of_isLabel (h.label label named)).nonempty]

theorem ofText_unbased (h : a.Printable) (unbased : a.base = none) :
    Form.ofText (displacement a) = .ok (addressForm a) := by
  have first := first_displacement h
  have free : '(' ∉ displacement a :=
    fun member => absurd (isFlat_displacement h _ member) (by decide)
  obtain ⟨label, named⟩ : ∃ l, a.label = some l := by
    obtain named | based := h.anchored
    · exact Option.isSome_iff_exists.mp named
    · rw [unbased] at based
      cases based
  have valid := h.label label named
  have whole : (displacement a).dropWhile (fun c => c ≠ '(') = [] := by
    refine List.dropWhile_eq_nil_iff.mpr fun c member => ?_
    simpa using ne_of_mem_of_not_mem member free
  rw [ofText_unquoted (displacement_ne_nil h named) first, whole]
  simp only [displacement, named, startsNumeric_label valid, labelForm?_displaced valid,
    addressForm, unbased]
  rfl

/-- The part before the base register is a label, an integer or nothing. -/
theorem ofText_displaced (h : a.Printable) {r : Register} (based : a.base = some r) :
    Form.ofText (displacement a ++ '(' :: (r.text.toList ++ [')'])) = .ok (addressForm a) := by
  have first := first_displacement h
  have flat := isFlat_displacement h
  have free : '(' ∉ displacement a := fun member => absurd (flat _ member) (by decide)
  have tight := trim_of_isFlat (isFlat_text_register r)
  rw [ofText_based free first, basedForm_closed tight (trim_of_isFlat flat), String.ofList_toList]
  cases named : a.label with
  | some label =>
      have valid := h.label label named
      rw [List.isEmpty_eq_false_iff.mpr (displacement_ne_nil h named)]
      simp only [displacement, named, startsNumeric_label valid, labelForm?_displaced valid,
        addressForm, based]
      rfl
  | none =>
      cases shifted : a.offset with
      | none =>
          simp only [displacement, named, shifted, addressForm, based]
          rfl
      | some n =>
          have written := decimal_toString n
          have nonempty : (toString n).toList.isEmpty = false :=
            List.isEmpty_eq_false_iff.mpr written.ne_nil
          simp only [displacement, named, shifted, Option.elim_some, nonempty,
            startsNumeric_decimal written, String.ofList_toList, addressForm, based]
          rfl

/-- A printed address has the shape of its parts. -/
theorem ofText_address (h : a.Printable) : Form.ofText a.text.toList = .ok (addressForm a) := by
  rw [toList_text]
  cases based : a.base with
  | none =>
      rw [Option.elim_none, List.append_nil]
      exact ofText_unbased h based
  | some r => exact ofText_displaced h based

end Texts

section Scan

variable {text : List Char}

/-- Only a quote or a parenthesis changes the scan of operands outside literals. -/
theorem scan_flat (h : ∀ c ∈ text, isFlat c = true) {s : OperandScan}
    (outside : s.quotation = .outside) : text.foldl OperandScan.next s = s := by
  induction text with
  | nil => rfl
  | cons c rest ih =>
      obtain ⟨here, later⟩ := List.forall_mem_cons.mp h
      have other := (plain_of_isFlat here).2
      simp only [List.mem_cons, List.not_mem_nil, or_false, not_or] at other
      have stays : s.next c = s := by
        obtain ⟨quotation, depth⟩ := s
        obtain rfl := outside
        simp [OperandScan.next, Quotation.next, other]
      rw [List.foldl_cons, stays, ih later]

theorem scan_parenthesised (h : ∀ c ∈ text, isFlat c = true) :
    ('(' :: (text ++ [')'])).foldl OperandScan.next {} = {} := by
  rw [List.foldl_cons, List.foldl_append, scan_flat h rfl]
  rfl

end Scan

/-- A text from which an operand is read back, wherever it stands between commas. -/
structure ReadsBack (operand : Operand) (text : List Char) : Prop where
  nonempty : text ≠ []
  plain : ∀ c ∈ text, isBlank c = false ∧ c ∉ ['"', '\'', '#', ',']
  balanced : text.foldl OperandScan.next {} = {}
  recognised : ∃ form, Form.ofText text = .ok form ∧ ∀ whole, form.value whole = .ok operand

theorem quoteless_of_isFlat {c : Char} (h : isFlat c = true) :
    isBlank c = false ∧ c ∉ ['"', '\'', '#', ','] := by
  obtain ⟨ink, other⟩ := plain_of_isFlat h
  refine ⟨ink, fun quote => other ?_⟩
  exact List.mem_append_left ['(', ')'] quote

theorem readsBack_register (r : Register) : ReadsBack (.register r) r.text.toList where
  nonempty := by simp [toList_text_register]
  plain := fun c member => quoteless_of_isFlat (isFlat_text_register r c member)
  balanced := scan_flat (isFlat_text_register r) rfl
  recognised := by
    refine ⟨.register r.text, ?_, fun whole => ?_⟩
    · rw [toList_text_register, Form.ofText, ← toList_text_register, String.ofList_toList]
    · rw [Form.value, registerValue_text]
      rfl

theorem readsBack_integer {n : Int} (fits : Fits n) :
    ReadsBack (.integer n) (toString n).toList where
  nonempty := (decimal_toString n).ne_nil
  plain := fun c member => quoteless_of_isFlat (isFlat_decimal (decimal_toString n) c member)
  balanced := scan_flat (isFlat_decimal (decimal_toString n)) rfl
  recognised := by
    have decimal := decimal_toString n
    have flat : ((toString n).toList.dropWhile fun c => c ≠ '(') = [] := by
      refine List.dropWhile_eq_nil_iff.mpr fun c member => decide_eq_true ?_
      rintro rfl
      exact absurd (isFlat_decimal decimal _ member) (by decide)
    refine ⟨.integer (toString n), ?_, fun whole => ?_⟩
    · rw [ofText_unquoted decimal.ne_nil (first_decimal decimal), flat]
      simp only [startsNumeric_decimal decimal, if_true, String.ofList_toList]
    · rw [Form.value, integerValue_of_decimal decimal fits]
      rfl

theorem readsBack_address {a : Address} (h : a.Printable) :
    ReadsBack (.address a) a.text.toList where
  nonempty := by
    intro empty
    have shape := ofText_address h
    rw [empty] at shape
    cases shape
  plain := by
    rw [toList_text]
    intro c member
    obtain shift | base := List.mem_append.mp member
    · exact quoteless_of_isFlat (isFlat_displacement h c shift)
    · cases register : a.base with
      | none => simp [register] at base
      | some r =>
          rw [register, Option.elim_some, List.mem_cons, List.mem_append,
            List.mem_singleton] at base
          obtain rfl | name | rfl := base
          · decide
          · exact quoteless_of_isFlat (isFlat_text_register r c name)
          · decide
  balanced := by
    rw [toList_text, List.foldl_append, scan_flat (isFlat_displacement h) rfl]
    cases a.base with
    | none => rfl
    | some r => exact scan_parenthesised (isFlat_text_register r)
  recognised := ⟨addressForm a, ofText_address h, value_addressForm h⟩

theorem readsBack_text {operand : Operand} (h : operand.Printable) :
    ReadsBack operand operand.text.toList := by
  cases h with
  | integer fits => exact readsBack_integer fits
  | address printable => exact readsBack_address printable
  | register r => exact readsBack_register r

section Lists

variable {text : List Char} {texts : List (List Char)} {operands : List Operand}

/-- A list is cut at the commas between its operands; the blank after a comma stays with what
follows it. -/
theorem operandPieces_intercalate (here : text.foldl OperandScan.next {} = {} ∧ ',' ∉ text)
    (later : ∀ t ∈ texts, t.foldl OperandScan.next {} = {} ∧ ',' ∉ t) :
    operandPieces ([',', ' '].intercalate (text :: texts)) = text :: texts.map (' ' :: ·) := by
  have uncut {t : List Char} (free : ',' ∉ t) :
      Uncut OperandScan.separates OperandScan.next {} t := by
    refine uncut_of_forall (fun s c member => ?_) _
    simp [OperandScan.separates, ne_of_mem_of_not_mem member free]
  induction texts generalizing text with
  | nil =>
      rw [List.intercalate_singleton]
      exact pieces_of_uncut (uncut here.2)
  | cons next more ih =>
      obtain ⟨second, rest⟩ := List.forall_mem_cons.mp later
      have spaced : [',', ' '].intercalate (text :: next :: more) =
          text ++ ',' :: [',', ' '].intercalate ((' ' :: next) :: more) := by
        rw [List.intercalate_cons_cons]
        cases more <;> simp [List.intercalate_cons_cons, List.intercalate_singleton]
      have cut : OperandScan.separates (text.foldl OperandScan.next {}) ',' = true := by
        rw [here.1]
        rfl
      rw [spaced, operandPieces, pieces_cut (uncut here.2) cut, here.1]
      refine congrArg (text :: ·) (ih ⟨?_, ?_⟩ rest)
      · exact second.1
      · simpa using second.2

theorem value_ofPiece {piece : Fragment} {operand : Operand}
    (h : ReadsBack operand (trim piece.text)) :
    (OperandNode.ofPiece piece).value = .ok operand := by
  obtain ⟨form, shape, value⟩ := h.recognised
  rw [OperandNode.ofPiece, show piece.trim.text = trim piece.text from rfl, shape]
  exact value _

theorem values_spread (line start : Nat)
    (h : List.Forall₂ (fun piece operand => ReadsBack operand (trim piece)) texts operands) :
    ((Fragment.spread line start texts).map OperandNode.ofPiece).map OperandNode.value =
      operands.map .ok := by
  induction h generalizing start with
  | nil => rfl
  | cons here _ ih =>
      rw [Fragment.spread, List.map_cons, List.map_cons, List.map_cons, ih, value_ofPiece here]

/-- The operands of a list as they are printed after a mnemonic. -/
def joined (operands : List Operand) : List Char :=
  [',', ' '].intercalate (operands.map fun operand => operand.text.toList)

/-- A printed list of operands is read back, wherever it stands. -/
theorem values_joined (line start : Nat) (nonempty : operands ≠ [])
    (printable : ∀ operand ∈ operands, operand.Printable) :
    ((Fragment.spread line start (operandPieces (joined operands))).map OperandNode.ofPiece).map
      OperandNode.value = operands.map .ok := by
  obtain ⟨operand, more, rfl⟩ := List.exists_cons_of_ne_nil nonempty
  obtain ⟨here, later⟩ := List.forall_mem_cons.mp printable
  have scans {o : Operand} (h : o.Printable) :
      o.text.toList.foldl OperandScan.next {} = {} ∧ ',' ∉ o.text.toList :=
    ⟨(readsBack_text h).balanced, fun member => ((readsBack_text h).plain _ member).2 (by decide)⟩
  have reads {o : Operand} (h : o.Printable) : ReadsBack o (trim o.text.toList) := by
    rw [trim_of_ink fun c member => ((readsBack_text h).plain c member).1]
    exact readsBack_text h
  rw [joined, List.map_cons, operandPieces_intercalate (scans here)
    (List.forall_mem_map.mpr fun o member => scans (later o member))]
  refine values_spread line start (.cons (reads here) ?_)
  rw [List.map_map, List.forall₂_map_left_iff, List.forall₂_same]
  exact fun o member => reads (later o member)

theorem joined_singleton (operand : Operand) : joined [operand] = operand.text.toList :=
  List.intercalate_singleton

theorem joined_cons_cons (first second : Operand) (more : List Operand) :
    joined (first :: second :: more) =
      first.text.toList ++ [',', ' '] ++ joined (second :: more) :=
  List.intercalate_cons_cons

theorem mem_joined (printable : ∀ operand ∈ operands, operand.Printable) :
    ∀ c ∈ joined operands, c ∉ ['"', '\'', '#', '\n'] := by
  have each {o : Operand} (h : o.Printable) : ∀ c ∈ o.text.toList, c ∉ ['"', '\'', '#', '\n'] := by
    intro c member other
    obtain ⟨ink, plain⟩ := (readsBack_text h).plain c member
    simp only [List.mem_cons, List.not_mem_nil, or_false] at other plain
    obtain rfl | rfl | rfl | rfl := other
    · simp at plain
    · simp at plain
    · simp at plain
    · cases ink
  induction operands with
  | nil => nofun
  | cons first more ih =>
      obtain ⟨here, later⟩ := List.forall_mem_cons.mp printable
      cases more with
      | nil =>
          rw [joined_singleton]
          exact each here
      | cons second more =>
          rw [joined_cons_cons]
          intro c member
          obtain (front | comma) | back := List.mem_append.mp member |>.imp_left List.mem_append.mp
          · exact each here c front
          · simp only [List.mem_cons, List.not_mem_nil, or_false] at comma
            obtain rfl | rfl := comma <;> decide
          · exact ih later c back

/-- A printed list neither begins nor ends with a blank. -/
theorem ends_joined (nonempty : operands ≠ [])
    (printable : ∀ operand ∈ operands, operand.Printable) :
    joined operands ≠ [] ∧ (∀ c ∈ (joined operands).head?, isBlank c = false) ∧
      ∀ c ∈ (joined operands).getLast?, isBlank c = false := by
  have ink {o : Operand} (h : o.Printable) : ∀ c ∈ o.text.toList, isBlank c = false :=
    fun c member => ((readsBack_text h).plain c member).1
  induction operands with
  | nil => exact absurd rfl nonempty
  | cons first more ih =>
      obtain ⟨here, later⟩ := List.forall_mem_cons.mp printable
      have some := (readsBack_text here).nonempty
      cases more with
      | nil =>
          rw [joined_singleton]
          exact ⟨some, fun c first => ink here c (List.mem_of_mem_head? first),
            fun c last => ink here c (List.mem_of_mem_getLast? last)⟩
      | cons second more =>
          obtain ⟨rest, -, last⟩ := ih (List.cons_ne_nil _ _) later
          rw [joined_cons_cons, List.append_assoc, List.head?_append_of_ne_nil _ some,
            ← List.append_assoc, List.getLast?_append_of_ne_nil _ rest]
          exact ⟨by simp, fun c first => ink here c (List.mem_of_mem_head? first), last⟩

end Lists

end Source

end Mips
