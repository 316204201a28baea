import Mips.Proofs.Source.Tiling
import Mips.Proofs.Text.Scan

/-!
One line of a source. Its comment is cut off, the rest is trimmed, labels are read off its front and
what is left is one item with its operands. Each step leaves behind only blanks and the comment, so
the items of a line are a tiling of it.
-/
namespace Mips

namespace Text

/-- What is left of a solid text after its front is solid again, unless it begins with a blank. -/
theorem Solid.of_append {a b : List Char} (h : Solid (a ++ b)) (nonempty : b ≠ [])
    (first : ∀ c ∈ b.head?, isBlank c = false) : Solid b where
  nonempty := nonempty
  oneLine := fun member => h.oneLine (List.mem_append_right a member)
  first := first
  last := by
    rw [← List.getLast?_append_of_ne_nil a nonempty]
    exact h.last

/-- Trimming takes blanks off both ends. -/
theorem trim_cut (text : List Char) :
    ∃ trail, text.takeWhile isBlank ++ trim text ++ trail = text ∧
      ∀ c ∈ trail, isBlank c = true := by
  obtain ⟨trail, cut, blank⟩ := trimEnd_cut (trimStart text)
  refine ⟨trail, ?_, blank⟩
  rw [trim, List.append_assoc, cut, trimStart, List.takeWhile_append_dropWhile]

theorem solid_trim {text : List Char} (line : '\n' ∉ text) (nonempty : trim text ≠ []) :
    Solid (trim text) where
  nonempty := nonempty
  oneLine := by
    obtain ⟨trail, whole, -⟩ := trim_cut text
    rw [← whole] at line
    exact fun member => line (List.mem_append_left _ (List.mem_append_right _ member))
  first := by
    obtain ⟨trail, cut, -⟩ := trimEnd_cut (trimStart text)
    have begins : (trim text ++ trail).head? = (trim text).head? :=
      List.head?_append_of_ne_nil _ nonempty
    rw [← begins, trim, cut]
    exact first_dropWhile isBlank text
  last := by
    rw [trim, trimEnd, List.getLast?_reverse]
    exact first_dropWhile isBlank _

namespace Quotation

/-- A comment starts at the first `#` outside literals. -/
theorem uncommented_cut (q : Quotation) (text : List Char) :
    ∃ comment, text = q.uncommented text ++ comment ∧
      (∀ a b, q.uncommented text = a ++ '#' :: b → q.after a ≠ outside) ∧
      (comment = [] ∨ ∃ more, comment = '#' :: more ∧ q.after (q.uncommented text) = outside) := by
  induction text generalizing q with
  | nil => exact ⟨[], rfl, by simp [uncommented], .inl rfl⟩
  | cons c rest ih =>
      by_cases start : q = outside ∧ c = '#'
      · obtain ⟨rfl, rfl⟩ := start
        exact ⟨'#' :: rest, by simp [uncommented], by simp [uncommented],
          .inr ⟨rest, rfl, by simp [uncommented, after]⟩⟩
      · obtain ⟨comment, cut, free, begun⟩ := ih (q.next c)
        rw [uncommented, if_neg start]
        refine ⟨comment, congrArg _ cut, ?_, begun⟩
        intro a b split
        cases a with
        | nil => exact fun same => start ⟨same, (List.cons.inj split).1⟩
        | cons d a =>
            obtain rfl := (List.cons.inj split).1
            exact free a b (List.cons.inj split).2

end Quotation

end Text

namespace Source

open Text

namespace InCode

variable {before a b : List Char} (h : InCode before (a ++ b))
include h

theorem left : InCode before a := by
  rintro x c y rfl
  exact h x c (y ++ b) (by simp)

theorem right : InCode (before ++ a) b := by
  rintro x c y rfl
  simpa using h (a ++ x) c y (by simp)

end InCode

section Comment

variable {before line : List Char} (start : lastLine before = []) (oneLine : '\n' ∉ line)
include start oneLine

theorem inCode_uncommented : InCode before (Quotation.outside.uncommented line) := by
  obtain ⟨comment, cut, free, -⟩ := Quotation.outside.uncommented_cut line
  rintro a c b split ⟨x, y, here, state⟩
  have short : '\n' ∉ a := fun member => oneLine (by
    rw [cut, split]
    simp [member])
  rw [lastLine_append before short, start, List.nil_append] at here
  refine free x (y ++ b) ?_ state
  rw [split, List.append_cons, here]
  simp

theorem tiles_comment {comment : List Char}
    (cut : line = Quotation.outside.uncommented line ++ comment)
    (begun : comment = [] ∨ ∃ more, comment = '#' :: more ∧
      Quotation.outside.after (Quotation.outside.uncommented line) = .outside) :
    Tiles (before ++ Quotation.outside.uncommented line) comment [] := by
  refine .loose _ _ fun a c b split => .inr ?_
  obtain rfl | ⟨more, hash, state⟩ := begun
  · simp at split
  · have short : '\n' ∉ Quotation.outside.uncommented line ++ a := fun member => oneLine (by
      rw [cut, split, ← List.append_assoc]
      exact List.mem_append_left _ member)
    obtain ⟨y, front⟩ : ∃ y, a ++ [c] = '#' :: y := by
      rw [hash] at split
      cases a with
      | nil => exact ⟨[], by rw [(List.cons.inj split).1]; rfl⟩
      | cons d a => exact ⟨a ++ [c], by rw [(List.cons.inj split).1]; rfl⟩
    refine ⟨Quotation.outside.uncommented line, y, ?_, state⟩
    rw [List.append_assoc, lastLine_append before short, start, List.nil_append, List.append_assoc,
      front]

end Comment

/-- A label stands before its colon. -/
theorem LabelNode.ofFragment?_after {before text : List Char} {label : LabelNode} {rest : Fragment}
    (oneLine : '\n' ∉ text)
    (h : LabelNode.ofFragment? (.after before text) = some (label, rest)) :
    ∃ name tail, text = name ++ [':'] ++ tail ∧ name ≠ [] ∧ (∀ c ∈ name, endsLabel c = false) ∧
      label.name.toList = name ∧ label.span = (Fragment.after before (name ++ [':'])).span ∧
      rest = .after (before ++ (name ++ [':'] ++ tail.takeWhile isBlank))
        (tail.dropWhile isBlank) := by
  simp only [LabelNode.ofFragment?] at h
  split at h
  · next c front tail named colon =>
      simp only [Option.some.injEq, Prod.mk.injEq] at h
      obtain ⟨rfl, rfl⟩ := h
      rw [named]
      have free : ∀ d ∈ c :: front, endsLabel d = false := by
        intro d member
        rw [← named] at member
        simpa using List.mem_takeWhile_imp member
      have whole : text = (c :: front ++ [':']) ++ tail := by
        rw [List.append_assoc, List.singleton_append, ← named, ← colon]
        exact List.takeWhile_append_dropWhile.symm
      have length : (c :: front ++ [':']).length = (c :: front).length + 1 := by simp
      have cut : text.take ((c :: front).length + 1) = c :: front ++ [':'] := by
        rw [whole, List.take_left' length]
      have left : text.drop ((c :: front).length + 1) = tail := by
        rw [whole, List.drop_left' length]
      have short : '\n' ∉ tail := fun member =>
        oneLine (whole ▸ List.mem_append_right _ member)
      refine ⟨c :: front, tail, whole, by simp, free, ?_, ?_, ?_⟩
      · simp [Fragment.string, named]
      · rw [Fragment.take, Fragment.after, cut]
        rfl
      · rw [Fragment.drop_after before oneLine, cut, left, Fragment.trimStart,
          Fragment.dropWhile_after _ short, List.append_assoc]
  · simp at h

theorem solid_label {name : List Char} (nonempty : name ≠ []) (oneLine : '\n' ∉ name)
    (free : ∀ c ∈ name, endsLabel c = false) : Solid (name ++ [':']) where
  nonempty := by simp
  oneLine := by simpa using oneLine
  first := by
    rw [List.head?_append_of_ne_nil name nonempty]
    intro c first
    have other := free c (List.mem_of_mem_head? first)
    rw [endsLabel, Bool.or_eq_false_iff] at other
    exact other.1
  last := by
    rw [List.getLast?_append_of_ne_nil name (by simp)]
    rintro c ⟨⟩
    rfl

/-- Labels are read off the front of a trimmed text, and leave a trimmed text. -/
theorem tiles_labels {before text : List Char} (tight : text ≠ [] → Solid text)
    (code : InCode before text) :
    ∃ named read body, labels (.after before text) = (named, .after (before ++ read) body) ∧
      text = read ++ body ∧ (body ≠ [] → Solid body) ∧ Tiles before read (named.map .label) := by
  -- The induction follows `labels`; each label and the blanks after it join the text before.
  generalize start : Fragment.after before text = f
  fun_induction labels f generalizing before text with
  | case1 f found =>
      subst start
      exact ⟨[], [], text, by simp, rfl, tight, .nil before⟩
  | case2 f label rest found more body below ih =>
      subst start
      have nonempty : text ≠ [] := by
        rintro rfl
        simp [LabelNode.ofFragment?, Fragment.after, Fragment.takeWhile] at found
      have solid := tight nonempty
      obtain ⟨name, tail, rfl, named, free, nameEq, spanEq, rfl⟩ :=
        LabelNode.ofFragment?_after solid.oneLine found
      have whole : name ++ [':'] ++ tail =
          (name ++ [':'] ++ tail.takeWhile isBlank) ++ tail.dropWhile isBlank := by
        rw [List.append_assoc _ (tail.takeWhile isBlank), List.takeWhile_append_dropWhile]
      rw [whole] at solid code
      obtain ⟨others, read, left, result, later, leftTight, tiles⟩ :=
        ih (fun some => solid.of_append some (first_dropWhile isBlank tail)) code.right rfl
      obtain ⟨rfl, rfl⟩ := Prod.mk.inj (below.symm.trans result)
      have oneLine : '\n' ∉ name := fun member => solid.oneLine (by simp [member])
      have labelled : Tiles before (name ++ [':']) [.label label] :=
        .single (solid_label named oneLine free) code.left.left spanEq (nameEq ▸ rfl)
      have blanks := Tiles.blank (before ++ (name ++ [':'])) (blank_takeWhile tail)
      refine ⟨label :: more, (name ++ [':'] ++ tail.takeWhile isBlank) ++ read, left, ?_, ?_,
        leftTight, ?_⟩
      · rw [List.append_assoc before]
      · rw [whole, later, ← List.append_assoc]
      · exact (labelled.append blanks).append tiles

theorem OperandNode.text_ofPiece (piece : Fragment) :
    (ofPiece piece).text = String.ofList (trim piece.text) := by
  rw [ofPiece]
  cases Form.ofText piece.trim.text <;> rfl

theorem texts_spread (line start : Nat) (pieces : List (List Char)) :
    ((Fragment.spread line start pieces).map OperandNode.ofPiece).map OperandNode.text =
      pieces.map fun piece => String.ofList (trim piece) := by
  induction pieces generalizing start with
  | nil => rfl
  | cons piece more ih =>
      rw [Fragment.spread, List.map_cons, List.map_cons, List.map_cons, ih,
        OperandNode.text_ofPiece]

theorem OperandList.writtenAs_pieces (line start : Nat) (text : List Char) (span : Option Span) :
    OperandList.WrittenAs text
      ⟨(Fragment.spread line start (operandPieces text)).map OperandNode.ofPiece, span⟩ :=
  ⟨operandPieces text, cut_pieces [] text, intercalate_operandPieces text,
    texts_spread line start _⟩

/-- What follows a head and blanks is read as operands. -/
theorem follows_ofFragment? (before : List Char) {head gap rest : List Char}
    (solid : Solid (head ++ gap ++ rest)) (unbroken : ∀ c ∈ head, isBlank c = false)
    (blank : ∀ c ∈ gap, isBlank c = true) (first : ∀ c ∈ rest.head?, isBlank c = false)
    (apart : rest ≠ [] → gap ≠ []) :
    Follows (.after before (head ++ gap ++ rest)) head
      (OperandList.ofFragment? (.after (before ++ (head ++ gap)) rest)) := by
  by_cases none : rest = []
  · subst none
    have together : gap = [] := by
      by_contra some
      rw [List.append_nil] at solid
      have last : gap.getLast some ∈ (head ++ gap).getLast? := by
        rw [List.getLast?_append_of_ne_nil head some, List.getLast?_eq_some_getLast some,
          Option.mem_some]
      have ink := solid.last _ last
      rw [blank _ (List.getLast_mem some)] at ink
      cases ink
    exact .nothing (by simp [Fragment.after, together]) unbroken
  · have short : '\n' ∉ head ++ gap := fun member => solid.oneLine (List.mem_append_left rest member)
    rw [OperandList.ofFragment?, if_neg (by simpa [Fragment.after] using none)]
    refine .operands rfl unbroken (apart none) blank (solid.of_append none first) ?_
      (OperandList.writtenAs_pieces _ _ rest _)
    rw [Fragment.after_append before short]
    rfl

theorem Item.span?_ofDirective (f head : Fragment) (operands : Option OperandList) :
    (Item.ofDirective f head operands).span? = f.span := by
  rw [Item.ofDirective]
  split <;> rfl

theorem Item.writtenAs_ofDirective {f head : Fragment} {operands : Option OperandList}
    (h : Follows f head.text operands) : (Item.ofDirective f head operands).WrittenAs f := by
  rw [Item.ofDirective]
  split <;> simpa [Item.WrittenAs, Fragment.string] using h

/-- The head of a solid text ends at its first blank. -/
theorem follows_head (before : List Char) {text : List Char} (solid : Solid text) :
    Follows (.after before text) (text.takeWhile fun c => !isBlank c)
      (OperandList.ofFragment?
        ((Fragment.after before text).dropWhile fun c => !isBlank c).trimStart) := by
  generalize inkEq : (fun c => !isBlank c) = ink
  have ink_eq : ∀ c, ink c = !isBlank c := fun c => (congrFun inkEq c).symm
  have whole : text.takeWhile ink ++ (text.dropWhile ink).takeWhile isBlank ++
      (text.dropWhile ink).dropWhile isBlank = text := by
    rw [List.append_assoc, List.takeWhile_append_dropWhile, List.takeWhile_append_dropWhile]
  have short : '\n' ∉ text.dropWhile ink := fun member =>
    solid.oneLine ((List.dropWhile_sublist ink).subset member)
  have unbroken : ∀ c ∈ text.takeWhile ink, isBlank c = false := by
    intro c member
    simpa [ink_eq] using List.mem_takeWhile_imp member
  -- Without a blank after the head nothing is left: what is left would begin with a blank.
  have apart : (text.dropWhile ink).dropWhile isBlank ≠ [] →
      (text.dropWhile ink).takeWhile isBlank ≠ [] := by
    intro some none
    have all := List.takeWhile_append_dropWhile (p := isBlank) (l := text.dropWhile ink)
    rw [none, List.nil_append] at all
    obtain ⟨c, rest, front⟩ := List.exists_cons_of_ne_nil some
    have begins := first_dropWhile isBlank (text.dropWhile ink) c (by rw [front]; rfl)
    have follows := first_dropWhile ink text c (by rw [← all, front]; rfl)
    simp [ink_eq, begins] at follows
  have follows := follows_ofFragment? before (by rw [whole]; exact solid) unbroken
    (blank_takeWhile _) (first_dropWhile isBlank _) apart
  rw [whole] at follows
  rw [Fragment.dropWhile_after before solid.oneLine, Fragment.trimStart,
    Fragment.dropWhile_after _ short, List.append_assoc]
  exact follows

theorem tiles_body {before text : List Char} (tight : text ≠ [] → Solid text)
    (code : InCode before text) : Tiles before text (Item.ofBody? (.after before text)).toList := by
  by_cases empty : text = []
  · subst empty
    exact .nil before
  have solid := tight empty
  have follows := follows_head before solid
  obtain ⟨item, read, span, written⟩ : ∃ item, Item.ofBody? (.after before text) = some item ∧
      item.span? = (Fragment.after before text).span ∧ item.WrittenAs (.after before text) := by
    rw [Item.ofBody?, if_neg (by simpa [Fragment.after] using empty)]
    dsimp only
    split
    · exact ⟨_, rfl, Item.span?_ofDirective _ _ _, Item.writtenAs_ofDirective follows⟩
    · split
      · refine ⟨_, rfl, rfl, ?_⟩
        simp only [Item.WrittenAs, Fragment.string, String.toList_ofList]
        exact follows
      · exact ⟨_, rfl, rfl, String.toList_ofList.symm⟩
  rw [read]
  exact .single solid code span written

theorem isLabel_ofBody? (f : Fragment) : ∀ item ∈ Item.ofBody? f, item.isLabel = false := by
  rw [Item.ofBody?]
  intro item h
  split at h
  · cases h
  · simp only [Item.ofDirective] at h
    split at h
    · split at h <;> cases h <;> rfl
    · split at h <;> cases h <;> rfl

theorem withoutReturn_cut (line : List Char) :
    ∃ mark, line = withoutReturn line ++ mark ∧ ∀ c ∈ mark, isBlank c = true := by
  rw [withoutReturn]
  split
  · next last => exact ⟨['\r'], (List.dropLast_append_getLast? '\r' last).symm, by simp; decide⟩
  · exact ⟨[], by simp⟩

theorem trim_after (before : List Char) {text : List Char} (oneLine : '\n' ∉ text) :
    (Fragment.after before text).trim =
      .after (before ++ text.takeWhile isBlank) (trim text) := by
  rw [Fragment.trim, Fragment.trimStart, Fragment.dropWhile_after before oneLine]
  rfl

/-- The labels of a text without comments, and the body after them. -/
theorem labels_code {before text : List Char} (oneLine : '\n' ∉ text) (code : InCode before text) :
    ∃ lead named body trail,
      labels (Fragment.after before text).trim = (named, .after (before ++ lead) body) ∧
        text = lead ++ body ++ trail ∧ (body ≠ [] → Solid body) ∧
        (∀ c ∈ trail, isBlank c = true) ∧ Tiles before lead (named.map .label) := by
  obtain ⟨trail, whole, trailing⟩ := trim_cut text
  have inside : InCode (before ++ text.takeWhile isBlank) (trim text) := by
    rw [← whole] at code
    exact code.left.right
  obtain ⟨named, read, body, read_eq, split, tight, tiles⟩ :=
    tiles_labels (solid_trim oneLine) inside
  refine ⟨text.takeWhile isBlank ++ read, named, body, trail, ?_, ?_, tight, trailing, ?_⟩
  · rw [trim_after before oneLine, read_eq, List.append_assoc before]
  · rw [List.append_assoc _ read, ← split, whole]
  · exact (Tiles.blank before (blank_takeWhile text)).append tiles

/-- The labels and the body of a text without comments fill it up to the blanks around them. -/
theorem tiles_code {before text : List Char} (oneLine : '\n' ∉ text) (code : InCode before text) :
    Tiles before text ((labels (Fragment.after before text).trim).1.map .label ++
      (Item.ofBody? (labels (Fragment.after before text).trim).2).toList) := by
  obtain ⟨lead, named, body, trail, read_eq, rfl, tight, trailing, tiles⟩ :=
    labels_code oneLine code
  have all := (tiles.append (tiles_body tight code.left.right)).append (.blank _ trailing)
  rw [List.append_nil] at all
  rwa [read_eq]

theorem tiles_ofLine {before text : List Char} (start : lastLine before = [])
    (oneLine : '\n' ∉ text) : Tiles before text (Item.ofLine (.after before text)) := by
  obtain ⟨comment, cut, -, begun⟩ := Quotation.outside.uncommented_cut text
  have short : '\n' ∉ Quotation.outside.uncommented text := fun member =>
    oneLine (cut ▸ List.mem_append_left _ member)
  have tiles := (tiles_code short (inCode_uncommented start oneLine)).append
    (tiles_comment start oneLine cut begun)
  rwa [← cut, List.append_nil] at tiles

theorem tiles_line {before line : List Char} (start : lastLine before = [])
    (oneLine : '\n' ∉ line) :
    Tiles before line (Item.ofLine (.after before (withoutReturn line))) := by
  obtain ⟨mark, cut, blank⟩ := withoutReturn_cut line
  have short : '\n' ∉ withoutReturn line := fun member =>
    oneLine (cut ▸ List.mem_append_left _ member)
  have tiles := (tiles_ofLine start short).append (.blank _ blank)
  rwa [← cut, List.append_nil] at tiles

end Source

end Mips
