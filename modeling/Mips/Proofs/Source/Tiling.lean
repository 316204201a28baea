import Mips.Proofs.Source.Cut
import Mips.Proofs.Source.Place
import Mips.Source.Item

/-!
Tilings of a source by items. A tiling divides a text among items: each item takes a piece of one
line and says where it is, and what no item takes is blank or in a comment. So the items of a tiling
stand in order and apart from each other, and every other character is in exactly one of them.
-/
namespace Mips.Source

open Text

/-- The operands of a list are the pieces between the commas that separate operands, trimmed. -/
def OperandList.WrittenAs (text : List Char) (list : OperandList) : Prop :=
  ∃ pieces, Cut [] text pieces ∧ [','].intercalate pieces = text ∧
    list.operands.map OperandNode.text = pieces.map fun piece => String.ofList (trim piece)

/-- A head without blanks fills a fragment, or it is followed by blanks and a list of operands. -/
inductive Follows (f : Fragment) (head : List Char) : Option OperandList → Prop
  | nothing (text : f.text = head) (unbroken : ∀ c ∈ head, isBlank c = false) : Follows f head none
  | operands {gap rest : List Char} {list : OperandList} (text : f.text = head ++ gap ++ rest)
      (unbroken : ∀ c ∈ head, isBlank c = false)
      (apart : gap ≠ []) (blank : ∀ c ∈ gap, isBlank c = true) (solid : Solid rest)
      (span : list.span =
        (Fragment.mk f.line (f.start + utf8Length (head ++ gap)) rest).span)
      (written : list.WrittenAs rest) : Follows f head (some list)

namespace Item

def span? : Item → Option Span
  | .marker node => node.span
  | .label node => node.span
  | .directive node => node.span
  | .statement node => node.span
  | .unknown node => node.span

def operands? : Item → Option OperandList
  | .marker node => node.operands
  | .directive node => node.operands
  | .statement node => node.operands
  | .label _ | .unknown _ => none

def isOn (number : Nat) (item : Item) : Bool :=
  item.span?.any fun span => span.line == number

def isLabel : Item → Bool
  | .label _ => true
  | .marker _ | .directive _ | .statement _ | .unknown _ => false

/-- A fragment that holds the text of an item: a name and its colon, a head with its operands, or
text that is neither. -/
def WrittenAs (f : Fragment) : Item → Prop
  | .label node => f.text = node.name.toList ++ [':']
  | .marker node => Follows f node.text.toList node.operands
  | .directive node => Follows f node.name.toList node.operands
  | .statement node => Follows f node.mnemonic.toList node.operands
  | .unknown node => f.text = node.text.toList

/-- All bytes of a character, which follows some text, are in the span of the item. -/
def Contains (before : List Char) (c : Char) (item : Item) : Prop :=
  ∃ span, item.span? = some span ∧ span.first ≤ utf8Length before ∧
    utf8Length before + c.utf8Size ≤ span.last + 1

/-- Some byte of a character, which follows some text, is in the span of the item. -/
def Meets (before : List Char) (c : Char) (item : Item) : Prop :=
  ∃ span, item.span? = some span ∧ span.first < utf8Length before + c.utf8Size ∧
    utf8Length before ≤ span.last

/-- An item has ended before another one begins. -/
def Precedes (a b : Item) : Prop :=
  ∀ s ∈ a.span?, ∀ t ∈ b.span?, s.first ≤ s.last ∧ s.last < t.first

end Item

/-- A character that follows some text is in a comment, if up to it the line has a `#` that is in no
literal. -/
def InComment (before : List Char) (c : Char) : Prop :=
  ∃ a b, lastLine before ++ [c] = a ++ '#' :: b ∧ Quotation.outside.after a = .outside

/-- Text that follows other text and is free of comments. -/
def InCode (before text : List Char) : Prop :=
  ∀ a c b, text = a ++ c :: b → ¬InComment (before ++ a) c

/-- How the text that follows other text in a source is divided among items. -/
inductive Tiles : List Char → List Char → List Item → Prop
  | nil (before : List Char) : Tiles before [] []
  | skip {before rest : List Char} {c : Char} {items : List Item}
      (loose : isBlank c = true ∨ InComment before c) (more : Tiles (before ++ [c]) rest items) :
      Tiles before (c :: rest) items
  | item {before text rest : List Char} {item : Item} {items : List Item} (solid : Solid text)
      (code : InCode before text) (span : item.span? = (Fragment.after before text).span)
      (written : item.WrittenAs (Fragment.after before text))
      (more : Tiles (before ++ text) rest items) : Tiles before (text ++ rest) (item :: items)

/-- A list of operands stands where the fragment of its item says. -/
theorem Follows.isAt {source before text rest : List Char} {head : List Char}
    {operands : Option OperandList} (h : Follows (.after before text) head operands)
    (split : source = before ++ text ++ rest) (line : '\n' ∉ text) :
    ∀ list ∈ operands, ∃ span g, list.span = some span ∧ Fragment.IsAt source span g ∧
      list.WrittenAs g.text ∧ g.text <:+ text := by
  cases h with
  | nothing => simp
  | @operands gap tail list whole _ _ _ solid span written =>
      have whole : text = head ++ gap ++ tail := whole
      intro other same
      obtain rfl := Option.some.inj same
      have short : '\n' ∉ head ++ gap := fun member =>
        line (whole ▸ List.mem_append_left tail member)
      have placed : list.span = (Fragment.after (before ++ (head ++ gap)) tail).span := by
        rw [span, Fragment.after_append before short]
        rfl
      have inner : source = before ++ (head ++ gap) ++ tail ++ rest := by
        rw [split, whole]
        simp
      have isAt := Fragment.isAt_after inner solid
      exact ⟨_, _, placed.trans isAt.span_eq, isAt, written, whole ▸ List.suffix_append _ _⟩

namespace Item

theorem WrittenAs.operands_isAt {source before text rest : List Char} {item : Item}
    (h : item.WrittenAs (.after before text)) (split : source = before ++ text ++ rest)
    (line : '\n' ∉ text) :
    ∀ list ∈ item.operands?, ∃ span g, list.span = some span ∧ Fragment.IsAt source span g ∧
      list.WrittenAs g.text ∧ g.text <:+ text := by
  cases item with
  | label _ | unknown _ => simp [operands?]
  | marker _ | directive _ | statement _ => exact Follows.isAt h split line

end Item

/-- A character of a text in two parts is in the second part or in the first. -/
theorem cut_cases {first second a b : List Char} {c : Char} (h : first ++ second = a ++ c :: b) :
    (∃ a', a = first ++ a' ∧ second = a' ++ c :: b) ∨
      ∃ b', first = a ++ c :: b' ∧ b = b' ++ second := by
  obtain ⟨a', rfl, tail⟩ | ⟨b', rfl, tail⟩ := List.append_eq_append_iff.mp h
  · exact .inl ⟨a', rfl, tail⟩
  · cases b' with
    | nil => exact .inl ⟨[], by simp, tail.symm⟩
    | cons d b' =>
        obtain ⟨rfl, rfl⟩ := List.cons.inj tail
        exact .inr ⟨b', rfl, rfl⟩

namespace Tiles

variable {before rest : List Char} {items : List Item}

theorem append {more : List Char} {others : List Item} (first : Tiles before rest items)
    (last : Tiles (before ++ rest) more others) : Tiles before (rest ++ more) (items ++ others) := by
  induction first with
  | nil => simpa using last
  | skip loose _ ih => exact .skip loose (ih (by simpa using last))
  | item solid code span written _ ih =>
      rw [List.append_assoc]
      exact .item solid code span written (ih (by simpa using last))

/-- Text without any character that counts. -/
theorem loose (before text : List Char)
    (h : ∀ a c b, text = a ++ c :: b → isBlank c = true ∨ InComment (before ++ a) c) :
    Tiles before text [] := by
  induction text generalizing before with
  | nil => exact .nil before
  | cons c rest ih =>
      refine .skip (by simpa using h [] c rest rfl) (ih _ ?_)
      intro a d b split
      simpa using h (c :: a) d b (congrArg _ split)

theorem blank (before : List Char) {text : List Char} (h : ∀ c ∈ text, isBlank c = true) :
    Tiles before text [] := by
  refine loose before text ?_
  rintro a c b rfl
  exact .inl (h c (by simp))

/-- One item that fills a text. -/
theorem single {text : List Char} {item : Item} (solid : Solid text) (code : InCode before text)
    (span : item.span? = (Fragment.after before text).span)
    (written : item.WrittenAs (Fragment.after before text)) : Tiles before text [item] := by
  have tiles := Tiles.item solid code span written (.nil _)
  rwa [List.append_nil] at tiles

theorem first_le (h : Tiles before rest items) :
    ∀ item ∈ items, ∀ span ∈ item.span?, utf8Length before ≤ span.first := by
  induction h with
  | nil => simp
  | @skip before _ c _ _ _ ih =>
      intro item member span placed
      have later := ih item member span placed
      rw [utf8Length_append] at later
      omega
  | @item before text rest item items solid _ placed _ _ ih =>
      intro other member span found
      obtain rfl | member := List.mem_cons.mp member
      · rw [placed, Fragment.span_after before solid.nonempty] at found
        obtain rfl := Option.some.inj found
        exact Nat.le_refl _
      · have later := ih other member span found
        rw [utf8Length_append] at later
        omega

/-- The items of a tiling stand one after another. -/
theorem pairwise (h : Tiles before rest items) : items.Pairwise Item.Precedes := by
  induction h with
  | nil => exact .nil
  | skip _ _ ih => exact ih
  | @item before text rest item items solid _ placed _ more ih =>
      refine .cons ?_ ih
      intro other member s here t there
      rw [placed, Fragment.span_after before solid.nonempty] at here
      obtain rfl := Option.some.inj here
      have later := more.first_le other member t there
      have positive := utf8Length_pos solid.nonempty
      rw [utf8Length_append] at later
      simp only
      omega

/-- Every item stands in the source where it says, and so do its operands. -/
theorem isAt (h : Tiles before rest items) {source tail : List Char}
    (split : source = before ++ rest ++ tail) :
    ∀ item ∈ items, ∃ span f, item.span? = some span ∧ Fragment.IsAt source span f ∧
      item.WrittenAs f ∧
      ∀ list ∈ item.operands?, ∃ span g, list.span = some span ∧ Fragment.IsAt source span g ∧
        list.WrittenAs g.text ∧ g.text <:+ f.text := by
  induction h generalizing tail with
  | nil => simp
  | skip _ _ ih => exact ih (by simpa using split)
  | @item before text rest item items solid _ placed written _ ih =>
      intro other member
      obtain rfl | member := List.mem_cons.mp member
      · have whole : source = before ++ text ++ (rest ++ tail) := by simpa using split
        have stands := Fragment.isAt_after whole solid
        exact ⟨_, _, placed.trans stands.span_eq, stands, written,
          written.operands_isAt whole solid.oneLine⟩
      · exact ih (by simpa using split) other member

/-- The items of a text on one line are all on that line. -/
theorem line_eq (h : Tiles before rest items) (oneLine : '\n' ∉ rest) :
    ∀ item ∈ items, ∃ span, item.span? = some span ∧ span.line = before.count '\n' + 1 := by
  induction h with
  | nil => simp
  | @skip before rest c items _ _ ih =>
      obtain ⟨here, later⟩ := not_or.mp (mt List.mem_cons.mpr oneLine)
      have none : [c].count '\n' = 0 := List.count_eq_zero_of_not_mem (by simpa using here)
      rw [List.count_append, none, Nat.add_zero] at ih
      exact ih later
  | @item before text rest item items solid _ placed _ _ ih =>
      intro other member
      obtain rfl | member := List.mem_cons.mp member
      · exact ⟨_, placed.trans (Fragment.span_after before solid.nonempty), rfl⟩
      · rw [List.count_append, List.count_eq_zero_of_not_mem solid.oneLine, Nat.add_zero] at ih
        exact ih (fun member => oneLine (List.mem_append_right text member)) other member

/-- No item is on an earlier line than the text. -/
theorem le_line (h : Tiles before rest items) :
    ∀ item ∈ items, ∃ span, item.span? = some span ∧ before.count '\n' + 1 ≤ span.line := by
  induction h with
  | nil => simp
  | @skip before _ c _ _ _ ih =>
      intro item member
      obtain ⟨span, found, later⟩ := ih item member
      rw [List.count_append] at later
      exact ⟨span, found, by omega⟩
  | @item before text _ item _ solid _ placed _ _ ih =>
      intro other member
      obtain rfl | member := List.mem_cons.mp member
      · exact ⟨_, placed.trans (Fragment.span_after before solid.nonempty), Nat.le_refl _⟩
      · obtain ⟨span, found, later⟩ := ih other member
        rw [List.count_append] at later
        exact ⟨span, found, by omega⟩

/-- A character that is neither blank nor in a comment is in some item. -/
theorem contains (h : Tiles before rest items) {a b : List Char} {c : Char}
    (split : rest = a ++ c :: b) (ink : isBlank c = false) (code : ¬InComment (before ++ a) c) :
    ∃ item ∈ items, item.Contains (before ++ a) c := by
  induction h generalizing a with
  | nil => simp at split
  | @skip before rest d items loose _ ih =>
      cases a with
      | nil =>
          obtain rfl := (List.cons.inj split).1
          rw [List.append_nil] at code
          obtain blank | comment := loose
          · rw [ink] at blank
            contradiction
          · exact absurd comment code
      | cons e a =>
          have found := ih (List.cons.inj split).2
          obtain rfl := (List.cons.inj split).1
          simpa using found (by simpa using code)
  | @item before text rest item items solid _ placed _ _ ih =>
      obtain ⟨a', rfl, later⟩ | ⟨b', rfl, -⟩ := cut_cases split
      · obtain ⟨other, member, inside⟩ := ih later (by simpa using code)
        exact ⟨other, List.mem_cons_of_mem item member, by simpa using inside⟩
      · refine ⟨item, List.mem_cons_self, _,
          placed.trans (Fragment.span_after before solid.nonempty), ?_, ?_⟩
        · simp only [utf8Length_append]
          omega
        · simp only [utf8Length_append, utf8Length]
          omega

/-- A character in a comment is in no item, not even with one of its bytes. -/
theorem not_meets (h : Tiles before rest items) {a b : List Char} {c : Char}
    (split : rest = a ++ c :: b) (comment : InComment (before ++ a) c) :
    ∀ item ∈ items, ¬item.Meets (before ++ a) c := by
  induction h generalizing a with
  | nil => simp
  | @skip before rest d items _ more ih =>
      cases a with
      | nil =>
          obtain rfl := (List.cons.inj split).1
          rintro item member ⟨span, found, begun, -⟩
          have later := more.first_le item member span found
          simp only [utf8Length_append, utf8Length] at begun later
          omega
      | cons e a =>
          have apart := ih (List.cons.inj split).2
          obtain rfl := (List.cons.inj split).1
          simpa using apart (by simpa using comment)
  | @item before text rest item items solid code placed _ _ ih =>
      obtain ⟨a', rfl, later⟩ | ⟨b', rfl, -⟩ := cut_cases split
      · intro other member
        obtain rfl | member := List.mem_cons.mp member
        · rintro ⟨span, found, -, ended⟩
          rw [placed, Fragment.span_after before solid.nonempty] at found
          obtain rfl := Option.some.inj found
          have positive := utf8Length_pos solid.nonempty
          simp only [utf8Length_append] at ended
          omega
        · simpa using ih later (by simpa using comment) other member
      · exact absurd comment (code a c b' rfl)

end Tiles

/-- Of items that stand one after another, no two hold bytes of one character that is in one. -/
theorem Item.Contains.alone {items : List Item} (apart : items.Pairwise Item.Precedes)
    {item : Item} (member : item ∈ items) {before : List Char} {c : Char}
    (inside : item.Contains before c) :
    ∃ earlier later, items = earlier ++ item :: later ∧
      ∀ other ∈ earlier ++ later, ¬other.Meets before c := by
  obtain ⟨earlier, later, rfl⟩ := List.append_of_mem member
  obtain ⟨-, behind, ahead⟩ := List.pairwise_append.mp apart
  obtain ⟨span, here, first, last⟩ := inside
  refine ⟨earlier, later, rfl, ?_⟩
  rintro other member ⟨elsewhere, found, begun, ended⟩
  obtain member | member := List.mem_append.mp member
  · have order := ahead other member item List.mem_cons_self elsewhere found span here
    omega
  · have order := (List.pairwise_cons.mp behind).1 other member span here elsewhere found
    omega

end Mips.Source
