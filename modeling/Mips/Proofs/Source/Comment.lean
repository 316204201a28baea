import Mips.Proofs.Source.Position
import Mips.Proofs.Source.Written

/-!
Comments. Of a line only what stands before its comment is read, and blanks at the end of that do
not count, so a comment changes nothing, whatever it holds. What is read has no comment when it is
scanned from the start of its line. Labels and mnemonics have no quotes and operands are cut outside
of literals, so a scan of one operand goes through the states that the scan of the line goes through
there, and no operand has a comment either.
-/
namespace Mips

namespace Text

namespace Quotation

variable {q : Quotation} {a b text : List Char}

/-- From a state on no comment begins in a text. -/
def Clean (q : Quotation) (text : List Char) : Prop :=
  ∀ a b, text = a ++ '#' :: b → q.after a ≠ outside

theorem Clean.left (h : q.Clean (a ++ b)) : q.Clean a := by
  rintro x y rfl
  exact h x (y ++ b) (by simp)

theorem Clean.right (h : q.Clean (a ++ b)) : (q.after a).Clean b := by
  rintro x y rfl
  rw [← after_append]
  exact h (a ++ x) y (by simp)

theorem clean_cons {c : Char} :
    q.Clean (c :: text) ↔ ¬(q = outside ∧ c = '#') ∧ (q.next c).Clean text := by
  constructor
  · intro clean
    refine ⟨?_, Clean.right (a := [c]) clean⟩
    rintro ⟨rfl, rfl⟩
    exact clean [] text rfl rfl
  · rintro ⟨free, clean⟩ a b split
    cases a with
    | nil =>
        obtain ⟨rfl, -⟩ := List.cons.inj split
        exact fun start => free ⟨start, rfl⟩
    | cons d a =>
        obtain ⟨rfl, rfl⟩ := List.cons.inj split
        exact clean a b rfl

theorem clean_uncommented (q : Quotation) (text : List Char) : q.Clean (q.uncommented text) := by
  obtain ⟨comment, -, free, -⟩ := q.uncommented_cut text
  exact free

theorem Clean.behind (h : outside.Clean (a ++ b)) (unquoted : Unquoted a) : outside.Clean b := by
  have clean := h.right
  rwa [after_unquoted unquoted] at clean

/-- Behind a text that is outside of literals at its end, or has a comment, all is comment. -/
theorem uncommented_append_comment (closed : q.after text = outside ∨ ¬q.Clean text)
    (comment : List Char) : q.uncommented (text ++ '#' :: comment) = q.uncommented text := by
  induction text generalizing q with
  | nil =>
      obtain rfl | commented := closed
      · rfl
      · exact absurd (by simp [Clean]) commented
  | cons c rest ih =>
      rw [List.cons_append, uncommented, uncommented]
      by_cases start : q = outside ∧ c = '#'
      · rw [if_pos start, if_pos start]
      · rw [clean_cons, and_iff_right start] at closed
        rw [if_neg start, if_neg start, ih closed]

theorem uncommented_append_blank (q : Quotation) (text : List Char) {trail : List Char}
    (blank : ∀ c ∈ trail, isBlank c = true) : ∃ rest, (∀ c ∈ rest, isBlank c = true) ∧
      q.uncommented (text ++ trail) = q.uncommented text ++ rest := by
  induction text generalizing q with
  | nil => exact ⟨trail, blank, uncommented_blank blank⟩
  | cons c rest ih =>
      rw [List.cons_append, uncommented, uncommented]
      split
      · exact ⟨[], List.forall_mem_nil _, rfl⟩
      · obtain ⟨more, all, cut⟩ := ih (q.next c)
        exact ⟨more, all, by rw [cut]; rfl⟩

/-- Without its blanks a text has no comment either. -/
theorem Clean.trim (h : outside.Clean text) : outside.Clean (trim text) := by
  obtain ⟨trail, whole, -⟩ := trim_cut text
  rw [← whole, List.append_assoc] at h
  exact (h.behind (unquoted_of_blank (blank_takeWhile text))).left

end Quotation

/-- A scan cuts operands only outside of literals, so each one but the first begins there. -/
theorem clean_pieces (s : OperandScan) {text : List Char} (clean : s.quotation.Clean text) :
    ∃ piece more, pieces OperandScan.separates OperandScan.next s text = piece :: more ∧
      s.quotation.Clean piece ∧ ∀ other ∈ more, Quotation.outside.Clean other := by
  induction text generalizing s with
  | nil => exact ⟨[], [], rfl, clean, List.forall_mem_nil _⟩
  | cons c rest ih =>
      obtain ⟨free, later⟩ := Quotation.clean_cons.mp clean
      obtain ⟨piece, more, split, first, others⟩ := ih (s.next c) later
      rw [pieces, split]
      by_cases cut : s.separates c = true
      · simp only [OperandScan.separates, decide_eq_true_eq] at cut
        obtain ⟨outside, level, rfl⟩ := cut
        have first : Quotation.outside.Clean piece := by
          simpa [OperandScan.next, outside, Quotation.next] using first
        refine ⟨[], piece :: more, ?_, by simp [Quotation.Clean], ?_⟩
        · simp [OperandScan.separates, outside, level]
        · exact List.forall_mem_cons.mpr ⟨first, others⟩
      · refine ⟨c :: piece, more, ?_, Quotation.clean_cons.mpr ⟨free, first⟩, others⟩
        simp [cut]

end Text

namespace Source

open Text

namespace Item

variable {line start : Nat} {text trail : List Char}

/-- Blanks at the end of a line do not count. -/
theorem ofLine_append_blank (blank : ∀ c ∈ trail, isBlank c = true) :
    ofLine ⟨line, start, text ++ trail⟩ = ofLine ⟨line, start, text⟩ := by
  obtain ⟨rest, all, cut⟩ := Quotation.outside.uncommented_append_blank text blank
  rw [ofLine_eq, ofLine_eq, cut]
  generalize Quotation.outside.uncommented text = code
  have ends : trimEnd (code ++ rest) = trimEnd code := by
    rw [trimEnd_append, if_pos (trimEnd_eq_nil_iff.mpr all)]
  have trimmed : trim (code ++ rest) = trim code := by
    rw [← dropWhile_trimEnd, ends, dropWhile_trimEnd]
  by_cases nothing : trim code = []
  · rw [trimmed, nothing, ofCode_nil, ofCode_nil]
  · have front : (code ++ rest).takeWhile isBlank = code.takeWhile isBlank := by
      rw [← (takeWhile_trimEnd nothing).1, ← (takeWhile_trimEnd (trimmed ▸ nothing)).1, ends]
    rw [trimmed, front]

theorem ofLine_withoutReturn (line start : Nat) (text : List Char) :
    ofLine ⟨line, start, withoutReturn text⟩ = ofLine ⟨line, start, text⟩ := by
  obtain ⟨mark, whole, blank⟩ := withoutReturn_cut text
  conv_rhs => rw [whole]
  exact (ofLine_append_blank blank).symm

theorem ofLine_comment (closed : Quotation.outside.after text = .outside ∨
      ¬Quotation.outside.Clean text) (comment : List Char) :
    ofLine ⟨line, start, text ++ '#' :: comment⟩ = ofLine ⟨line, start, text⟩ := by
  rw [ofLine_eq, ofLine_eq, Quotation.uncommented_append_comment closed]

end Item

/-- Labels are read off the front of a text, where no quote stands. -/
theorem labels_unquoted {before text : List Char} (oneLine : '\n' ∉ text) :
    ∃ lead body, text = lead ++ body ∧ Unquoted lead ∧
      (labels (.after before text)).2 = .after (before ++ lead) body := by
  -- The induction follows `labels`; each label, its colon and blanks are without quotes.
  generalize start : Fragment.after before text = f
  fun_induction labels f generalizing before text with
  | case1 f found =>
      subst start
      exact ⟨[], text, rfl, unquoted_of_blank (List.forall_mem_nil _), by simp⟩
  | case2 f label rest found more body below ih =>
      subst start
      obtain ⟨name, tail, rfl, -, free, -, -, rfl⟩ := LabelNode.ofFragment?_after oneLine found
      have short : '\n' ∉ tail.dropWhile isBlank := fun member =>
        oneLine (List.mem_append_right _ ((List.dropWhile_sublist isBlank).subset member))
      obtain ⟨later, left, split, also, result⟩ := ih short rfl
      rw [below] at result
      refine ⟨name ++ [':'] ++ tail.takeWhile isBlank ++ later, left, ?_, ?_, ?_⟩
      · rw [List.append_assoc _ later, ← split, List.append_assoc _ (tail.takeWhile isBlank),
          List.takeWhile_append_dropWhile]
      · have labelled : Unquoted name :=
          unquoted_of_class (p := fun c => !endsLabel c) (by decide) (by decide)
            (by simpa using free)
        have colon : Unquoted [':'] := by simp [Unquoted]
        have blank : Unquoted (tail.takeWhile isBlank) := unquoted_of_blank (blank_takeWhile tail)
        exact ((labelled.append colon).append blank).append also
      · rw [← List.append_assoc before]
        exact result

theorem OperandList.texts_ofFragment? {f : Fragment} {list : OperandList}
    (h : OperandList.ofFragment? f = some list) : list.operands.map OperandNode.text =
      (operandPieces f.text).map fun piece => String.ofList (trim piece) := by
  rw [OperandList.ofFragment?] at h
  split at h
  · cases h
  · obtain rfl := Option.some.inj h
    exact texts_spread f.line f.start (operandPieces f.text)

/-- The operands of a list that is free of comments are so one by one. -/
theorem OperandList.clean_ofFragment? {f : Fragment} {list : OperandList}
    (clean : Quotation.outside.Clean f.text) (h : OperandList.ofFragment? f = some list) :
    ∀ node ∈ list.operands, Quotation.outside.Clean node.text.toList := by
  intro node member
  have listed := List.mem_map_of_mem (f := OperandNode.text) member
  rw [OperandList.texts_ofFragment? h] at listed
  obtain ⟨piece, cut, same⟩ := List.mem_map.mp listed
  rw [← same, String.toList_ofList]
  obtain ⟨first, more, split, here, others⟩ := clean_pieces {} clean
  rw [operandPieces, split] at cut
  obtain rfl | later := List.mem_cons.mp cut
  · exact here.trim
  · exact (others piece later).trim

/-- A mnemonic has no quotes, so the operands behind it are scanned as on the whole line. -/
theorem clean_ofBody? {f : Fragment} {node : StatementNode}
    (clean : Quotation.outside.Clean f.text) (h : Item.ofBody? f = some (.statement node)) :
    ∀ list ∈ node.operands, ∀ operand ∈ list.operands,
      Quotation.outside.Clean operand.text.toList := by
  intro list given
  refine OperandList.clean_ofFragment? ?_ (operands_ofBody? h list given)
  have mnemonic : Unquoted (f.takeWhile fun c => !isBlank c).text :=
    (word_of_isLabel (mnemonic_ofBody? h).1).unquoted
  rw [← f.takeWhile_append_dropWhile fun c => !isBlank c] at clean
  have rest := clean.behind mnemonic
  rw [← (f.dropWhile fun c => !isBlank c).takeWhile_append_dropWhile isBlank] at rest
  exact rest.behind (unquoted_of_blank (blank_takeWhile _))

/-- No operand of a statement has a comment, scanned on its own. -/
def OperandsClean (items : List Item) : Prop :=
  ∀ node, .statement node ∈ items → ∀ list ∈ node.operands, ∀ operand ∈ list.operands,
    Quotation.outside.Clean operand.text.toList

theorem operandsClean_ofLine {before line : List Char} (oneLine : '\n' ∉ line) :
    OperandsClean (Item.ofLine (.after before line)) := by
  obtain ⟨comment, cut, -, -⟩ := Quotation.outside.uncommented_cut line
  have clean := (Quotation.clean_uncommented .outside line).trim
  have short : '\n' ∉ Quotation.outside.uncommented line := fun member =>
    oneLine (cut ▸ List.mem_append_left _ member)
  have code : Item.ofLine (.after before line) =
      Item.ofCode (Fragment.after before (Quotation.outside.uncommented line)).trim := rfl
  generalize Quotation.outside.uncommented line = text at clean short code
  have shorter : '\n' ∉ trim text := by
    obtain ⟨trail, whole, -⟩ := trim_cut text
    exact fun member => short (whole ▸ List.mem_append_left _ (List.mem_append_right _ member))
  obtain ⟨lead, body, split, unquoted, read⟩ := labels_unquoted shorter
  rw [code, trim_after before short, Item.ofCode, read]
  rw [split] at clean
  intro node member
  obtain label | statement := List.mem_append.mp member
  · obtain ⟨_, -, other⟩ := List.mem_map.mp label
    cases other
  · exact clean_ofBody? (clean.behind unquoted) (Option.mem_toList.mp statement)

theorem OperandsClean.append {first last : List Item} (h : OperandsClean first)
    (more : OperandsClean last) : OperandsClean (first ++ last) :=
  fun node member => (List.mem_append.mp member).elim (h node) (more node)

theorem operandsClean_items (source : String) : OperandsClean (items source) := by
  have each {before line : List Char} (oneLine : '\n' ∉ line) :
      OperandsClean (Item.ofLine (.after before (withoutReturn line))) := by
    have whole : Item.ofLine (.after before (withoutReturn line)) = _ :=
      Item.ofLine_withoutReturn _ _ line
    rw [whole]
    exact operandsClean_ofLine oneLine
  have nil : OperandsClean [] := fun _ member => absurd member List.not_mem_nil
  have all : OperandsClean (itemsAfter [] (lines source.toList)) :=
    itemsAfter_induction (P := fun _ _ => OperandsClean) (fun _ => nil) (fun _ => nil) .append
      (fun _ oneLine => each oneLine) lastLine_nil fun _ => oneLine_of_mem_lines
  exact all

theorem items_comment {line comment : String} (oneLine : '\n' ∉ line.toList)
    (short : '\n' ∉ comment.toList)
    (closed : Quotation.outside.after line.toList = .outside ∨
      ¬Quotation.outside.Clean line.toList) :
    items (line ++ "#" ++ comment) = items line := by
  have hash : (line.toList ++ ['#']).getLast? ≠ some '\r' := by simp
  have whole : (line ++ "#" ++ comment).toList = (line.toList ++ ['#']) ++ comment.toList := by simp
  have all : '\n' ∉ (line ++ "#" ++ comment).toList := by
    rw [whole]
    simp [oneLine, short]
  rw [items, items, lines_line all, lines_line oneLine, itemsFrom, itemsFrom, itemsFrom, itemsFrom,
    whole, withoutReturn_append hash, List.append_assoc, List.singleton_append,
    Item.ofLine_comment closed, Item.ofLine_withoutReturn]

/-- A comment may hold anything: behind a line that is outside of literals, or that has a comment
already, it changes no item. No comment gets into the operands of a statement, so every `#` in an
operand stands in a literal, also if the operand is scanned on its own. -/
theorem comments_transparent :
    (∀ line comment : String, '\n' ∉ line.toList → '\n' ∉ comment.toList →
      (Quotation.outside.after line.toList = .outside ∨
        ∃ a b, line.toList = a ++ '#' :: b ∧ Quotation.outside.after a = .outside) →
      items (line ++ "#" ++ comment) = items line) ∧
    ∀ source node, .statement node ∈ items source → ∀ list ∈ node.operands,
      ∀ operand ∈ list.operands, ∀ a b, operand.text.toList = a ++ '#' :: b →
        Quotation.outside.after a ≠ .outside := by
  refine ⟨?_, fun source => operandsClean_items source⟩
  intro line comment oneLine short closed
  refine items_comment oneLine short (closed.imp_right ?_)
  rintro ⟨a, b, split, begun⟩ clean
  exact clean a b split begun

/-- The statement of the line below, whose second operand is a `#` in quotes. -/
def loadHash : StatementNode where
  mnemonic := "li"
  mnemonicSpan := some ⟨1, 3, 4⟩
  span := some ⟨1, 3, 13⟩
  operands := some {
    operands := [{ form := .register "$t0", text := "$t0", span := some ⟨1, 6, 8⟩ },
      { form := .integer "'#'", text := "'#'", span := some ⟨1, 11, 13⟩ }]
    span := some ⟨1, 6, 13⟩ }

theorem comments_transparent_loadHash :
    '\n' ∉ "a: li $t0, '#' \t\r".toList ∧ '\n' ∉ "it's, b: \"# c\r".toList ∧
      Quotation.outside.after "a: li $t0, '#' \t\r".toList = .outside ∧
      items ("a: li $t0, '#' \t\r" ++ "#" ++ "it's, b: \"# c\r") = items "a: li $t0, '#' \t\r" ∧
      .statement loadHash ∈ items "a: li $t0, '#' \t\r" ∧
      ∀ list ∈ loadHash.operands, ∀ operand ∈ list.operands, ∀ a b,
        operand.text.toList = a ++ '#' :: b → Quotation.outside.after a ≠ .outside := by
  have oneLine : '\n' ∉ "a: li $t0, '#' \t\r".toList := by decide
  have short : '\n' ∉ "it's, b: \"# c\r".toList := by decide
  have closed : Quotation.outside.after "a: li $t0, '#' \t\r".toList = .outside := by decide
  have read : .statement loadHash ∈ items "a: li $t0, '#' \t\r" := by decide +kernel
  obtain ⟨same, clean⟩ := comments_transparent
  exact ⟨oneLine, short, closed, same _ _ oneLine short (.inl closed), read, clean _ _ read⟩

end Source

end Mips
