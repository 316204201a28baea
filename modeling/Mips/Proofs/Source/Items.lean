import Mips.Proofs.Source.Line

/-!
The items of a source lose nothing of it. The tilings of the lines are put together to one of the
whole source, so every item stands where its span says, the items are in order, and each character
that is neither blank nor in a comment is in exactly one of them.
-/
namespace Mips

namespace Text

theorem not_mem_pieces {State : Type} {cuts : State → Char → Bool} {next : State → Char → State}
    {separator : Char} (h : ∀ s, cuts s separator = true) (s : State) (text : List Char) :
    ∀ piece ∈ pieces cuts next s text, separator ∉ piece := by
  induction text generalizing s with
  | nil => simp [pieces]
  | cons c rest ih =>
      have free := ih (next s c)
      simp only [pieces]
      cases split : pieces cuts next (next s c) rest with
      | nil => simp
      | cons piece more =>
          rw [split] at free
          by_cases cut : cuts s c = true
          · simpa [cut] using free
          · have other : separator ≠ c := fun same => cut (same ▸ h s)
            simpa [cut, other] using free

theorem oneLine_of_mem_lines {source line : List Char} (h : line ∈ lines source) : '\n' ∉ line :=
  not_mem_pieces (fun _ => rfl) () source line h

theorem intercalate_lines (source : List Char) : ['\n'].intercalate (lines source) = source :=
  intercalate_pieces (fun _ _ same => by simpa using same) () source

end Text

namespace Source

open Text

/-- The items of lines that follow some text. -/
def itemsAfter (before : List Char) (lines : List (List Char)) : List Item :=
  itemsFrom (before.count '\n' + 1) (utf8Length before) lines

theorem itemsAfter_cons (before line : List Char) (more : List (List Char)) (oneLine : '\n' ∉ line) :
    itemsAfter before (line :: more) =
      Item.ofLine (.after before (withoutReturn line)) ++
        itemsAfter (before ++ line ++ ['\n']) more := by
  have number : (before ++ line ++ ['\n']).count '\n' = before.count '\n' + 1 := by
    rw [List.count_append, List.count_append, List.count_eq_zero_of_not_mem oneLine]
    rfl
  have start : utf8Length (before ++ line ++ ['\n']) = utf8Length before + utf8Length line + 1 := by
    rw [utf8Length_append, utf8Length_append]
    rfl
  rw [itemsAfter, itemsFrom, itemsAfter, number, start]
  rfl

/-- What holds of the items of each line, and of texts that are put together, holds of all lines. -/
theorem itemsAfter_induction {P : List Char → List Char → List Item → Prop}
    (nil : ∀ before, P before [] []) (newline : ∀ before, P before ['\n'] [])
    (append : ∀ {before a b : List Char} {first last : List Item},
      P before a first → P (before ++ a) b last → P before (a ++ b) (first ++ last))
    (each : ∀ {before line : List Char}, lastLine before = [] → '\n' ∉ line →
      P before line (Item.ofLine (.after before (withoutReturn line))))
    {before : List Char} {lines : List (List Char)} (start : lastLine before = [])
    (oneLine : ∀ line ∈ lines, '\n' ∉ line) :
    P before (['\n'].intercalate lines) (itemsAfter before lines) := by
  induction lines generalizing before with
  | nil => exact nil before
  | cons line more ih =>
      have here := oneLine line List.mem_cons_self
      have first := each start here
      rw [itemsAfter_cons before line more here]
      cases more with
      | nil => simpa [itemsAfter, itemsFrom] using first
      | cons next more =>
          have rest := ih (lastLine_newline (before ++ line))
            fun line member => oneLine line (List.mem_cons_of_mem _ member)
          rw [List.append_assoc before] at rest
          have all := append (append first (newline (before ++ line))) rest
          rwa [List.append_nil, ← List.append_assoc, ← List.intercalate_cons_cons] at all

theorem tiles_itemsAfter {before : List Char} {lines : List (List Char)}
    (start : lastLine before = []) (oneLine : ∀ line ∈ lines, '\n' ∉ line) :
    Tiles before (['\n'].intercalate lines) (itemsAfter before lines) :=
  itemsAfter_induction .nil (fun _ => .blank _ (by simp; decide)) .append tiles_line start oneLine

/-- The labels that a line begins with and at most one item after them. -/
def LineShape (items : List Item) : Prop :=
  ∃ (named : List LabelNode) (other : Option Item),
    items = named.map .label ++ other.toList ∧ ∀ item ∈ other, item.isLabel = false

theorem lineShape_ofLine (line : Fragment) : LineShape (Item.ofLine line) :=
  ⟨_, _, rfl, isLabel_ofBody? _⟩

/-- Of the items of consecutive lines those on one line are the items of that line. -/
theorem lineShape_filter {before : List Char} {lines : List (List Char)}
    (start : lastLine before = []) (oneLine : ∀ line ∈ lines, '\n' ∉ line) (number : Nat) :
    LineShape ((itemsAfter before lines).filter (·.isOn number)) := by
  induction lines generalizing before with
  | nil => exact ⟨[], none, rfl, by simp⟩
  | cons line more ih =>
      have here := oneLine line List.mem_cons_self
      have later : ∀ line ∈ more, '\n' ∉ line := fun line member =>
        oneLine line (List.mem_cons_of_mem _ member)
      have fresh := lastLine_newline (before ++ line)
      have ownLine := (tiles_line start here).line_eq here
      have laterLine := (tiles_itemsAfter fresh later).le_line
      rw [List.count_append, List.count_append] at laterLine
      rw [itemsAfter_cons before line more here, List.filter_append]
      by_cases own : before.count '\n' + 1 = number
      · have all : ∀ item ∈ Item.ofLine (.after before (withoutReturn line)),
            item.isOn number = true := by
          intro item member
          obtain ⟨span, found, placed⟩ := ownLine item member
          simp [Item.isOn, found, placed, own]
        have none : ∀ item ∈ itemsAfter (before ++ line ++ ['\n']) more,
            ¬item.isOn number = true := by
          intro item member
          obtain ⟨span, found, placed⟩ := laterLine item member
          have other : span.line ≠ number := by
            simp only [List.count_singleton_self] at placed
            omega
          simpa [Item.isOn, found] using other
        rw [List.filter_eq_self.mpr all, List.filter_eq_nil_iff.mpr none, List.append_nil]
        exact lineShape_ofLine _
      · have none : ∀ item ∈ Item.ofLine (.after before (withoutReturn line)),
            ¬item.isOn number = true := by
          intro item member
          obtain ⟨span, found, placed⟩ := ownLine item member
          simpa [Item.isOn, found, placed] using own
        rw [List.filter_eq_nil_iff.mpr none]
        exact ih fresh later

theorem tiles_items (source : String) : Tiles [] source.toList (items source) := by
  have tiles : Tiles [] (['\n'].intercalate (Text.lines source.toList)) (items source) :=
    tiles_itemsAfter lastLine_nil fun _ => oneLine_of_mem_lines
  rwa [intercalate_lines] at tiles

/-- Items that lose nothing of a source: every line has labels and then at most one other item;
every item stands where its span says, with the text it was read from and with all its operands;
one ends before the next begins; a character that is neither blank nor in a comment is in exactly
one of them, and a comment is in none. -/
structure Lossless (source : List Char) (items : List Item) : Prop where
  lines : ∀ number, LineShape (items.filter (·.isOn number))
  stands : ∀ item ∈ items, ∃ span f, item.span? = some span ∧ Fragment.IsAt source span f ∧
    item.WrittenAs f ∧
    ∀ list ∈ item.operands?, ∃ span g, list.span = some span ∧ Fragment.IsAt source span g ∧
      list.WrittenAs g.text ∧ g.text <:+ f.text
  ordered : items.Pairwise Item.Precedes
  covered : ∀ before c after, source = before ++ c :: after → isBlank c = false →
    ¬InComment before c → ∃ earlier item later, items = earlier ++ item :: later ∧
      item.Contains before c ∧ ∀ other ∈ earlier ++ later, ¬other.Meets before c
  commented : ∀ before c after, source = before ++ c :: after → InComment before c →
    ∀ item ∈ items, ¬item.Meets before c

theorem items_lossless (source : String) : Lossless source.toList (items source) := by
  have tiles := tiles_items source
  refine ⟨?_, ?_, tiles.pairwise, ?_, ?_⟩
  · exact lineShape_filter lastLine_nil fun _ => oneLine_of_mem_lines
  · have whole : source.toList = [] ++ source.toList ++ [] := by simp
    exact tiles.isAt whole
  · intro before c after split ink code
    obtain ⟨item, member, inside⟩ := tiles.contains split ink code
    obtain ⟨earlier, later, cut, alone⟩ := Item.Contains.alone tiles.pairwise member inside
    exact ⟨earlier, item, later, cut, inside, alone⟩
  · intro before c after split comment
    exact tiles.not_meets split comment

end Source

end Mips
