import Mips.Proofs.Source.Items

/-!
Where operands stand. An operand with a text stands in its list where its span says. A missing operand
is placed at the first byte of the piece that should hold it. This byte is a comma or a blank of the
list, with two exceptions: after the last comma it is the byte behind the list, and a blank may have
more than this one byte.
-/
namespace Mips

namespace Text

/-- The bytes before a place in a text decide where the text is cut. -/
theorem append_inj_of_utf8Length {a b c d : List Char} (split : a ++ b = c ++ d)
    (same : utf8Length a = utf8Length c) : a = c ∧ b = d := by
  have short {x y : List Char} (h : utf8Length x = utf8Length (x ++ y)) : y = [] := by
    by_contra some
    have positive := utf8Length_pos some
    rw [utf8Length_append] at h
    omega
  obtain ⟨e, rfl, rfl⟩ | ⟨e, rfl, rfl⟩ := List.append_eq_append_iff.mp split
  · obtain rfl := short same
    simp
  · obtain rfl := short same.symm
    simp

end Text

open Text

namespace Span

/-- The span of a text that follows other text. -/
def covering (before text : List Char) : Span :=
  ⟨before.count '\n' + 1, utf8Length before, utf8Length before + utf8Length text - 1⟩

/-- The span of the first byte after some text. -/
def byteAfter (before : List Char) : Span :=
  ⟨before.count '\n' + 1, utf8Length before, utf8Length before⟩

/-- A span of some characters of one line of a source. -/
def Delimits (source : List Char) (span : Span) : Prop :=
  ∃ before text after, source = before ++ text ++ after ∧ text ≠ [] ∧ '\n' ∉ text ∧
    span = covering before text

/-- All bytes of a span are in another one. -/
structure Within (whole span : Span) : Prop where
  line : span.line = whole.line
  first : whole.first ≤ span.first
  last : span.last ≤ whole.last

theorem within_covering (before : List Char) {a b : List Char} (oneLine : '\n' ∉ a) (some : b ≠ [])
    (c : List Char) : (covering before (a ++ b ++ c)).Within (covering (before ++ a) b) := by
  have positive := utf8Length_pos some
  refine ⟨?_, ?_, ?_⟩ <;> simp only [covering, utf8Length_append]
  · rw [List.count_append, List.count_eq_zero_of_not_mem oneLine]
  · omega
  · omega

/-- A span begins at a character of several bytes. -/
def BeginsWide (source : List Char) (span : Span) : Prop :=
  ∃ before c after, source = before ++ c :: after ∧ span.first = utf8Length before ∧
    1 < c.utf8Size

theorem Delimits.inside {source : List Char} {span : Span} (h : span.Delimits source) :
    span.first ≤ span.last ∧ span.last < utf8Length source := by
  obtain ⟨before, text, after, rfl, some, -, rfl⟩ := h
  have positive := utf8Length_pos some
  simp only [covering, utf8Length_append]
  omega

section Byte

variable {source before rest : List Char} {c : Char} (split : source = before ++ c :: rest)
include split

theorem beginsWide_iff {span : Span} (first : span.first = utf8Length before) :
    span.BeginsWide source ↔ 1 < c.utf8Size := by
  constructor
  · rintro ⟨front, d, after, cut, here, wide⟩
    obtain ⟨-, tail⟩ := append_inj_of_utf8Length (split.symm.trans cut) (first.symm.trans here)
    rwa [(List.cons.inj tail).1]
  · exact fun wide => ⟨before, c, rest, split, first, wide⟩

/-- One byte is a character of its own if the character that begins there has no other bytes. -/
theorem delimits_byte_iff (other : c ≠ '\n') :
    (byteAfter before).Delimits source ↔ c.utf8Size = 1 := by
  constructor
  · rintro ⟨front, text, after, cut, some, -, same⟩
    obtain ⟨-, first, last⟩ := Span.mk.inj same
    rw [List.append_assoc] at cut
    obtain ⟨-, tail⟩ := append_inj_of_utf8Length (split.symm.trans cut) first
    obtain ⟨d, more, rfl⟩ := List.exists_cons_of_ne_nil some
    obtain ⟨rfl, -⟩ := List.cons.inj tail
    have positive := c.utf8Size_pos
    rw [utf8Length] at last
    omega
  · intro narrow
    refine ⟨before, [c], rest, by simpa using split, by simp, by simpa using other.symm, ?_⟩
    simp [covering, byteAfter, utf8Length, narrow]

end Byte

/-- The byte after some part of a text is a character of the text, unless it stands behind the text
or begins a character of several bytes. -/
theorem byte_delimited_iff {source before front rest after : List Char}
    (split : source = before ++ (front ++ rest) ++ after) (oneLine : '\n' ∉ front ++ rest)
    (some : front ++ rest ≠ []) :
    (covering before (front ++ rest)).Within (byteAfter (before ++ front)) ∧
        (byteAfter (before ++ front)).Delimits source ↔
      ¬((covering before (front ++ rest)).last < (byteAfter (before ++ front)).first ∨
        (byteAfter (before ++ front)).BeginsWide source) := by
  have positive := utf8Length_pos some
  cases rest with
  | nil =>
      have behind : (covering before (front ++ [])).last < (byteAfter (before ++ front)).first := by
        rw [List.append_nil] at positive ⊢
        simp only [covering, byteAfter, utf8Length_append]
        omega
      refine iff_of_false ?_ fun free => free (.inl behind)
      exact fun within => absurd within.1.last (Nat.not_le.mpr behind)
  | cons c more =>
      have cut : source = (before ++ front) ++ c :: (more ++ after) := by
        rw [split]
        simp
      have other : c ≠ '\n' := fun same => oneLine (by simp [same])
      have wide := c.utf8Size_pos
      have whole : front ++ c :: more = front ++ [c] ++ more := by simp
      have inside : (covering before (front ++ c :: more)).Within (byteAfter (before ++ front)) := by
        have each := within_covering before (fun member => oneLine (List.mem_append_left _ member))
          (List.cons_ne_nil c []) more
        rw [← whole] at each
        have last := each.last
        refine ⟨each.line, each.first, Nat.le_trans ?_ last⟩
        simp only [covering, byteAfter, utf8Length]
        omega
      have reached := inside.last
      rw [and_iff_right inside, delimits_byte_iff cut other, beginsWide_iff cut rfl]
      simp only [byteAfter] at reached ⊢
      omega

end Span

theorem Fragment.IsAt.delimits {source : List Char} {span : Span} {f : Fragment}
    (h : f.IsAt source span) : span.Delimits source := by
  obtain ⟨before, after, split, line, first⟩ := h.place
  have placed := h.span_eq
  rw [Fragment.span, if_neg (by simpa using h.solid.nonempty)] at placed
  obtain rfl := Option.some.inj placed
  refine ⟨before, f.text, after, split, h.solid.nonempty, h.solid.oneLine, ?_⟩
  simp only at line first
  rw [Fragment.stop, line, first, Span.covering]

namespace Source

/-- An item that is read off a part of a text and follows all labels of its line. -/
def Item.ReadIn (before text : List Char) (item : Item) : Prop :=
  ∃ lead body trail, text = lead ++ body ++ trail ∧ Solid body ∧
    Item.ofBody? (.after (before ++ lead) body) = some item

namespace Item.ReadIn

variable {before a b : List Char} {item : Item}

theorem left (h : ReadIn before a item) (b : List Char) : ReadIn before (a ++ b) item := by
  obtain ⟨lead, body, trail, rfl, solid, read⟩ := h
  exact ⟨lead, body, trail ++ b, by simp, solid, read⟩

theorem right (h : ReadIn (before ++ a) b item) : ReadIn before (a ++ b) item := by
  obtain ⟨lead, body, trail, rfl, solid, read⟩ := h
  exact ⟨a ++ lead, body, trail, by simp, solid, by rwa [← List.append_assoc]⟩

end Item.ReadIn

/-- All items of a text but the labels are read off it. -/
def ReadOff (before text : List Char) (items : List Item) : Prop :=
  ∀ item ∈ items, item.isLabel = true ∨ item.ReadIn before text

namespace ReadOff

variable {before a b : List Char} {first last items : List Item}

theorem append (h : ReadOff before a first) (more : ReadOff (before ++ a) b last) :
    ReadOff before (a ++ b) (first ++ last) := by
  intro item member
  obtain early | late := List.mem_append.mp member
  · exact (h item early).imp_right fun read => read.left b
  · exact (more item late).imp_right Item.ReadIn.right

theorem nil (before text : List Char) : ReadOff before text [] :=
  fun _ member => absurd member List.not_mem_nil

theorem left (h : ReadOff before a items) (b : List Char) : ReadOff before (a ++ b) items := by
  have all := h.append (nil (before ++ a) b)
  rwa [List.append_nil] at all

end ReadOff

theorem readOff_labels (before text : List Char) (named : List LabelNode) :
    ReadOff before text (named.map .label) := by
  intro item member
  obtain ⟨node, -, rfl⟩ := List.mem_map.mp member
  exact .inl rfl

theorem readOff_body {before text : List Char} (tight : text ≠ [] → Solid text) :
    ReadOff before text (Item.ofBody? (.after before text)).toList := by
  intro item member
  have read := Option.mem_toList.mp member
  have some : text ≠ [] := by
    rintro rfl
    cases read
  exact .inr ⟨[], text, [], by simp, tight some, by rwa [List.append_nil]⟩

theorem readOff_code {before text : List Char} (oneLine : '\n' ∉ text)
    (code : InCode before text) :
    ReadOff before text ((labels (Fragment.after before text).trim).1.map .label ++
      (Item.ofBody? (labels (Fragment.after before text).trim).2).toList) := by
  obtain ⟨lead, named, body, trail, read, rfl, tight, -, -⟩ := labels_code oneLine code
  rw [read]
  exact ((readOff_labels before lead named).append (readOff_body tight)).left trail

theorem readOff_ofLine {before text : List Char} (start : lastLine before = [])
    (oneLine : '\n' ∉ text) : ReadOff before text (Item.ofLine (.after before text)) := by
  obtain ⟨comment, cut, -, -⟩ := Quotation.outside.uncommented_cut text
  have short : '\n' ∉ Quotation.outside.uncommented text := fun member =>
    oneLine (cut ▸ List.mem_append_left _ member)
  have read := (readOff_code short (inCode_uncommented start oneLine)).left comment
  rwa [← cut] at read

theorem readOff_line {before line : List Char} (start : lastLine before = [])
    (oneLine : '\n' ∉ line) :
    ReadOff before line (Item.ofLine (.after before (withoutReturn line))) := by
  obtain ⟨mark, cut, -⟩ := withoutReturn_cut line
  have short : '\n' ∉ withoutReturn line := fun member =>
    oneLine (cut ▸ List.mem_append_left _ member)
  have read := (readOff_ofLine start short).left mark
  rwa [← cut] at read

theorem readOff_items (source : String) : ReadOff [] source.toList (items source) := by
  have read : ReadOff [] (['\n'].intercalate (lines source.toList)) (items source) :=
    itemsAfter_induction (fun before => .nil before []) (fun before => .nil before ['\n']) .append
      readOff_line lastLine_nil fun _ => oneLine_of_mem_lines
  rwa [intercalate_lines] at read

theorem operands_ofBody? {f : Fragment} {item : Item} (h : Item.ofBody? f = some item) :
    ∀ list ∈ item.operands?,
      OperandList.ofFragment? (f.dropWhile fun c => !isBlank c).trimStart = some list := by
  intro list given
  simp only [Item.ofBody?, Item.ofDirective] at h
  split at h
  · cases h
  · split at h
    · split at h <;> (cases h; exact given)
    · split at h
      · cases h
        exact given
      · cases h
        cases given

/-- The mnemonic of a statement is a word, and all that stands before the first blank. -/
theorem mnemonic_ofBody? {f : Fragment} {node : StatementNode}
    (h : Item.ofBody? f = some (.statement node)) :
    isLabel (f.takeWhile fun c => !isBlank c).text = true ∧
      node.mnemonicSpan = (f.takeWhile fun c => !isBlank c).span := by
  simp only [Item.ofBody?, Item.ofDirective] at h
  split at h
  · cases h
  · split at h
    · split at h <;> cases h
    · split at h
      · next word =>
          cases h
          exact ⟨word, rfl⟩
      · cases h

/-- The mnemonic of a statement stands where its span says. -/
theorem mnemonic_placed {source : String} {node : StatementNode}
    (member : .statement node ∈ items source) :
    ∃ span, node.mnemonicSpan = some span ∧ span.Delimits source.toList := by
  obtain label | ⟨lead, body, trail, split, solid, read⟩ :=
    readOff_items source (.statement node) member
  · cases label
  · have mnemonic := (mnemonic_ofBody? read).2
    have begins : (body.takeWhile fun c => !isBlank c) ≠ [] := by
      obtain ⟨c, rest, rfl⟩ := List.exists_cons_of_ne_nil solid.nonempty
      have ink : isBlank c = false := solid.first c rfl
      rw [List.takeWhile_cons_of_pos (by simp [ink])]
      exact List.cons_ne_nil _ _
    have short : '\n' ∉ body.takeWhile fun c => !isBlank c := fun member =>
      solid.oneLine ((List.takeWhile_sublist _).subset member)
    have whole := List.takeWhile_append_dropWhile (p := fun c => !isBlank c) (l := body)
    refine ⟨_, mnemonic.trans (Fragment.span_after _ begins), lead, _,
      (body.dropWhile fun c => !isBlank c) ++ trail, ?_, begins, short, rfl⟩
    rw [split, List.append_assoc, List.append_assoc, ← List.append_assoc (body.takeWhile _), whole]

/-- A list of operands is read off a part of its source. -/
theorem operands_read {source : String} {item : Item} (member : item ∈ items source) :
    ∀ list ∈ item.operands?, ∃ before text after, source.toList = before ++ text ++ after ∧
      Solid text ∧ OperandList.ofFragment? (.after before text) = some list := by
  intro list given
  obtain label | ⟨lead, body, trail, split, solid, read⟩ := readOff_items source item member
  · cases item <;> cases label
    cases given
  · have taken := operands_ofBody? read list given
    generalize (fun c => !isBlank c) = ink at taken
    have short : '\n' ∉ body.dropWhile ink := fun member =>
      solid.oneLine ((List.dropWhile_sublist ink).subset member)
    rw [List.nil_append, Fragment.dropWhile_after lead solid.oneLine, Fragment.trimStart,
      Fragment.dropWhile_after _ short] at taken
    have whole : body = (body.takeWhile ink ++ (body.dropWhile ink).takeWhile isBlank) ++
        (body.dropWhile ink).dropWhile isBlank := by
      rw [List.append_assoc, List.takeWhile_append_dropWhile, List.takeWhile_append_dropWhile]
    have some : (body.dropWhile ink).dropWhile isBlank ≠ [] := by
      intro none
      rw [none] at taken
      cases taken
    refine ⟨_, _, trail, ?_, ?_, taken⟩
    · rw [split]
      conv_lhs => rw [whole]
      simp
    · rw [whole] at solid
      exact solid.of_append some (first_dropWhile isBlank _)

/-- The pieces of a text are spread over it. -/
theorem mem_spread (before : List Char) {pieces : List (List Char)}
    (oneLine : '\n' ∉ [','].intercalate pieces) :
    ∀ f ∈ Fragment.spread (before.count '\n' + 1) (utf8Length before) pieces,
      ∃ front piece back, [','].intercalate pieces = front ++ piece ++ back ∧
        f = .after (before ++ front) piece := by
  induction pieces generalizing before with
  | nil => simp [Fragment.spread]
  | cons piece more ih =>
      intro f member
      obtain rfl | later := List.mem_cons.mp member
      · cases more with
        | nil => exact ⟨[], piece, [], by simp, by simp [Fragment.after]⟩
        | cons next more =>
            exact ⟨[], piece, _, by rw [List.intercalate_cons_cons, List.append_assoc]; rfl,
              by simp [Fragment.after]⟩
      · cases more with
        | nil => cases later
        | cons next more =>
            rw [List.intercalate_cons_cons] at oneLine ⊢
            have start : Fragment.after (before ++ (piece ++ [','])) [] =
                ⟨before.count '\n' + 1, utf8Length before + utf8Length piece + 1, []⟩ := by
              rw [Fragment.after_append before fun member =>
                oneLine (List.mem_append_left _ member), utf8Length_append]
              rfl
            obtain ⟨line, first, -⟩ := Fragment.mk.inj start
            rw [← line, ← first] at later
            obtain ⟨front, text, back, split, rfl⟩ := ih (before ++ (piece ++ [',']))
              (fun member => oneLine (List.mem_append_right _ member)) f later
            exact ⟨piece ++ [','] ++ front, text, back, by rw [split]; simp, by simp⟩

/-- Every operand of a list is read off a piece of its text. -/
theorem mem_operands {before text : List Char} {list : OperandList} (solid : Solid text)
    (h : OperandList.ofFragment? (.after before text) = some list) {node : OperandNode}
    (member : node ∈ list.operands) : ∃ front piece back, text = front ++ piece ++ back ∧
      node = .ofPiece (.after (before ++ front) piece) := by
  rw [OperandList.ofFragment?, if_neg (by simpa [Fragment.after] using solid.nonempty)] at h
  obtain rfl := Option.some.inj h
  obtain ⟨f, spread, rfl⟩ := List.mem_map.mp member
  have joined := intercalate_operandPieces text
  have oneLine : '\n' ∉ [','].intercalate (operandPieces text) := by
    rw [joined]
    exact solid.oneLine
  obtain ⟨front, piece, back, split, rfl⟩ := mem_spread before oneLine f spread
  exact ⟨front, piece, back, joined.symm.trans split, rfl⟩

theorem OperandNode.span_ofPiece (piece : Fragment) : (ofPiece piece).span =
    some (piece.trim.span.getD ⟨piece.line, piece.start, piece.start⟩) := by
  rw [ofPiece]
  cases Form.ofText piece.trim.text <;> rfl

/-- An operand that is missing is placed at the first byte of its piece. -/
theorem OperandNode.ofPiece_blank {piece : Fragment} (blank : trim piece.text = []) :
    ofPiece piece = {
      form := .unrecognised
      text := ""
      span := some ⟨piece.line, piece.start, piece.start⟩
      error := some FormError.missing.message } := by
  have nothing : piece.trim.text = [] := blank
  rw [ofPiece, Fragment.string, Fragment.span, nothing]
  rfl

/-- A missing operand that is placed behind its list or at a blank of several bytes. -/
def OperandNode.Stray (source : List Char) (whole span : Span) (node : OperandNode) : Prop :=
  node.text = "" ∧ (whole.last < span.first ∨ span.BeginsWide source)

/-- Where an operand stands, given the span of its list. -/
structure OperandNode.Placed (source : List Char) (whole span : Span) (node : OperandNode) :
    Prop where
  line : span.line = whole.line
  first : whole.first ≤ span.first ∧ span.first ≤ whole.last + 1
  read : node.text ≠ "" → ∃ f, Fragment.IsAt source span f ∧ f.string = node.text
  missing : node.text = "" →
    span.last = span.first ∧ node.error = some FormError.missing.message
  delimited : whole.Within span ∧ span.Delimits source ↔ ¬node.Stray source whole span

section Placed

variable {source before front piece back after : List Char}
  (split : source = before ++ (front ++ piece ++ back) ++ after)
  (solid : Solid (front ++ piece ++ back))
include split solid

theorem placed_ink (ink : trim piece ≠ []) : ∃ span,
    (OperandNode.ofPiece (.after (before ++ front) piece)).span = some span ∧
      OperandNode.Placed source (.covering before (front ++ piece ++ back)) span
        (.ofPiece (.after (before ++ front) piece)) := by
  obtain ⟨shortFront, shortPiece⟩ : '\n' ∉ front ∧ '\n' ∉ piece := by
    have oneLine := solid.oneLine
    simp only [List.mem_append, not_or] at oneLine
    exact oneLine.1
  have trimmed := solid_trim shortPiece ink
  have text := OperandNode.text_ofPiece (.after (before ++ front) piece)
  have present : (OperandNode.ofPiece (.after (before ++ front) piece)).text ≠ "" := by
    rw [text]
    exact fun none => ink (String.ofList_eq_empty_iff.mp none)
  have span := OperandNode.span_ofPiece (.after (before ++ front) piece)
  rw [trim_after _ shortPiece] at span
  obtain ⟨trail, whole, -⟩ := trim_cut piece
  have shortGap : '\n' ∉ piece.takeWhile isBlank := fun member =>
    shortPiece ((List.takeWhile_sublist _).subset member)
  generalize piece.takeWhile isBlank = gap at whole span shortGap
  have inner : front ++ piece ++ back = (front ++ gap) ++ trim piece ++ (trail ++ back) := by
    conv_lhs => rw [← whole]
    simp
  have cut : source =
      (before ++ front ++ gap) ++ trim piece ++ (trail ++ back ++ after) := by
    rw [split, inner]
    simp
  have isAt : Fragment.IsAt source (.covering (before ++ front ++ gap) (trim piece)) _ :=
    Fragment.isAt_after cut trimmed
  rw [isAt.span_eq] at span
  have within := Span.within_covering before (a := front ++ gap)
    (by simp [shortFront, shortGap]) trimmed.nonempty (trail ++ back)
  rw [← inner, ← List.append_assoc before] at within
  have delimits := isAt.delimits
  exact ⟨_, span, within.line,
    ⟨within.first, Nat.le_succ_of_le (delimits.inside.1.trans within.last)⟩,
    fun _ => ⟨_, isAt, text.symm⟩, fun none => absurd none present,
    iff_of_true ⟨within, delimits⟩ fun stray => present stray.1⟩

/-- A missing operand is at the byte behind its list, or at the first byte of a character of it. -/
theorem placed_blank (blank : trim piece = []) : ∃ span,
    (OperandNode.ofPiece (.after (before ++ front) piece)).span = some span ∧
      OperandNode.Placed source (.covering before (front ++ piece ++ back)) span
        (.ofPiece (.after (before ++ front) piece)) := by
  rw [List.append_assoc front] at split solid ⊢
  have line : (before ++ front).count '\n' = before.count '\n' := by
    rw [List.count_append, List.count_eq_zero_of_not_mem fun member =>
      solid.oneLine (List.mem_append_left _ member), Nat.add_zero]
  have positive := utf8Length_pos solid.nonempty
  rw [utf8Length_append] at positive
  rw [OperandNode.ofPiece_blank blank]
  refine ⟨.byteAfter (before ++ front), rfl, congrArg (· + 1) line, ?_,
    fun some => absurd rfl some, fun _ => ⟨rfl, rfl⟩, ?_⟩
  · simp only [Span.covering, Span.byteAfter, utf8Length_append]
    omega
  · rw [OperandNode.Stray, and_iff_right rfl]
    exact Span.byte_delimited_iff split solid.oneLine solid.nonempty

end Placed

/-- Every operand of a source has a place, and a list that has one. -/
theorem operands_placed {source : String} {item : Item} (member : item ∈ items source)
    {list : OperandList} (given : list ∈ item.operands?) {node : OperandNode}
    (operand : node ∈ list.operands) : ∃ whole span, list.span = some whole ∧
      node.span = some span ∧ node.Placed source.toList whole span := by
  obtain ⟨before, text, after, split, solid, read⟩ := operands_read member list given
  obtain ⟨front, piece, back, rfl, rfl⟩ := mem_operands solid read operand
  have whole : list.span = some (.covering before (front ++ piece ++ back)) := by
    rw [OperandList.ofFragment?, if_neg (by simpa [Fragment.after] using solid.nonempty)] at read
    obtain rfl := Option.some.inj read
    exact Fragment.span_after before solid.nonempty
  by_cases blank : trim piece = []
  · obtain ⟨span, found, placed⟩ := placed_blank split solid blank
    exact ⟨_, span, whole, found, placed⟩
  · obtain ⟨span, found, placed⟩ := placed_ink split solid blank
    exact ⟨_, span, whole, found, placed⟩

end Source

end Mips
