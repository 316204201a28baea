import Mips.Proofs.Source.Items
import Mips.Proofs.Source.Written

/-!
Items further down. What is read from a fragment does not depend on where the fragment stands: on a
later line and further along the source the same items are found, with their spans moved as far.
Reading is therefore a homomorphism: a text after a newline is read as if it stood alone.
-/
namespace Mips

/-- How far something is moved in a source. -/
structure Shift where
  lines : Nat
  bytes : Nat

/-- What stands behind a text and a newline is moved by both. -/
def Shift.past (text : String) : Shift where
  lines := text.toList.count '\n' + 1
  bytes := text.utf8ByteSize + 1

def Span.shift (d : Shift) (span : Span) : Span where
  line := span.line + d.lines
  first := span.first + d.bytes
  last := span.last + d.bytes

namespace Fragment

variable (d : Shift)

def shift (f : Fragment) : Fragment where
  line := f.line + d.lines
  start := f.start + d.bytes
  text := f.text

theorem span_shift (f : Fragment) : (f.shift d).span = f.span.map (Span.shift d) := by
  by_cases empty : f.text = []
  · simp [span, shift, empty]
  · have positive := Text.utf8Length_pos empty
    simp only [span, shift, stop, List.isEmpty_iff, empty, if_false, Option.map_some, Span.shift,
      Option.some.injEq, Span.mk.injEq, true_and]
    omega

theorem dropWhile_shift (p : Char → Bool) (f : Fragment) :
    (f.shift d).dropWhile p = (f.dropWhile p).shift d := by
  simp only [dropWhile, shift, Nat.add_right_comm]

theorem drop_shift (count : Nat) (f : Fragment) :
    (f.shift d).drop count = (f.drop count).shift d := by
  simp only [drop, shift, Nat.add_right_comm]

theorem trim_shift (f : Fragment) : (f.shift d).trim = f.trim.shift d := by
  rw [trim, trimStart, dropWhile_shift]
  rfl

theorem spread_shift (line start : Nat) (texts : List (List Char)) :
    spread (line + d.lines) (start + d.bytes) texts = (spread line start texts).map (shift d) := by
  induction texts generalizing start with
  | nil => rfl
  | cons text more ih =>
      rw [spread, Nat.add_right_comm start, Nat.add_right_comm _ d.bytes, ih]
      rfl

end Fragment

namespace Source

open Text

variable (d : Shift)

def OperandNode.shift (node : OperandNode) : OperandNode :=
  { node with span := node.span.map (Span.shift d) }

def OperandList.shift (list : OperandList) : OperandList where
  operands := list.operands.map (OperandNode.shift d)
  span := list.span.map (Span.shift d)

def LabelNode.shift (node : LabelNode) : LabelNode :=
  { node with span := node.span.map (Span.shift d) }

/-- The item with every span in it moved, and nothing else changed. -/
def Item.shift : Item → Item
  | .marker node => .marker { node with
      span := node.span.map (Span.shift d), operands := node.operands.map (OperandList.shift d) }
  | .label node => .label (node.shift d)
  | .directive node => .directive { node with
      span := node.span.map (Span.shift d), operands := node.operands.map (OperandList.shift d) }
  | .statement node => .statement { node with
      mnemonicSpan := node.mnemonicSpan.map (Span.shift d)
      span := node.span.map (Span.shift d), operands := node.operands.map (OperandList.shift d) }
  | .unknown node => .unknown { node with span := node.span.map (Span.shift d) }

/-- A missing operand is placed by its piece alone, so its place moves too. -/
theorem OperandNode.ofPiece_shift (piece : Fragment) :
    ofPiece (piece.shift d) = (ofPiece piece).shift d := by
  have place : (piece.shift d).trim.span.getD
      ⟨(piece.shift d).line, (piece.shift d).start, (piece.shift d).start⟩ =
        (piece.trim.span.getD ⟨piece.line, piece.start, piece.start⟩).shift d := by
    rw [Fragment.trim_shift, Fragment.span_shift]
    cases piece.trim.span <;> rfl
  simp only [ofPiece, place]
  rw [Fragment.trim_shift]
  simp only [Fragment.shift, Fragment.string]
  cases Form.ofText piece.trim.text <;> rfl

theorem OperandList.ofFragment?_shift (f : Fragment) :
    ofFragment? (f.shift d) = (ofFragment? f).map (OperandList.shift d) := by
  by_cases empty : f.text.isEmpty = true
  · simp [ofFragment?, Fragment.shift, empty]
  · have nodes : (Fragment.spread (f.line + d.lines) (f.start + d.bytes)
        (operandPieces f.text)).map OperandNode.ofPiece =
          ((Fragment.spread f.line f.start (operandPieces f.text)).map OperandNode.ofPiece).map
            (OperandNode.shift d) := by
      rw [Fragment.spread_shift, List.map_map, List.map_map]
      exact List.map_congr_left fun piece _ => OperandNode.ofPiece_shift d piece
    have moved : ¬(f.shift d).text.isEmpty = true := empty
    rw [ofFragment?, ofFragment?, if_neg empty, if_neg moved, Fragment.span_shift]
    exact congrArg (fun nodes => some (OperandList.mk nodes _)) nodes

theorem LabelNode.ofFragment?_shift (f : Fragment) :
    ofFragment? (f.shift d) =
      (ofFragment? f).map (Prod.map (LabelNode.shift d) (Fragment.shift d)) := by
  have text : (f.shift d).text = f.text := rfl
  simp only [ofFragment?, Fragment.takeWhile, Fragment.dropWhile, text]
  split
  · simp only [Option.map_some, Prod.map, Fragment.drop_shift, Fragment.trimStart,
      Fragment.dropWhile_shift, LabelNode.shift, ← Fragment.span_shift]
    rfl
  · rfl

theorem labels_shift (f : Fragment) :
    labels (f.shift d) = ((labels f).1.map (LabelNode.shift d), (labels f).2.shift d) := by
  induction f using labels.induct with
  | case1 f none =>
      have moved := LabelNode.ofFragment?_shift d f
      rw [none] at moved
      rw [labels_of_none none, labels_of_none moved]
      rfl
  | case2 f label rest found more body _ ih =>
      have moved := LabelNode.ofFragment?_shift d f
      rw [found] at moved
      rw [labels_of_some found, labels_of_some moved, ih]
      rfl

namespace Item

theorem ofDirective_shift (f head : Fragment) (operands : Option OperandList) :
    ofDirective (f.shift d) (head.shift d) (operands.map (OperandList.shift d)) =
      (ofDirective f head operands).shift d := by
  have string : (head.shift d).string = head.string := rfl
  simp only [ofDirective, string, Fragment.span_shift]
  split <;> rfl

theorem ofBody?_shift (f : Fragment) : ofBody? (f.shift d) = (ofBody? f).map (shift d) := by
  have operands : OperandList.ofFragment?
      ((f.shift d).dropWhile fun c => !isBlank c).trimStart =
        (OperandList.ofFragment? (f.dropWhile fun c => !isBlank c).trimStart).map
          (OperandList.shift d) := by
    rw [Fragment.dropWhile_shift, Fragment.trimStart, Fragment.dropWhile_shift,
      OperandList.ofFragment?_shift]
    rfl
  have head : (f.shift d).takeWhile (fun c => !isBlank c) =
      (f.takeWhile fun c => !isBlank c).shift d := rfl
  have text (g : Fragment) : (g.shift d).text = g.text := rfl
  simp only [ofBody?, operands, head, text, Fragment.span_shift, ofDirective_shift]
  split
  · rfl
  · split
    · rfl
    · split <;> rfl

theorem ofLine_shift (line : Fragment) :
    ofLine (line.shift d) = (ofLine line).map (shift d) := by
  have code : Fragment.trim { line.shift d with
      text := Quotation.outside.uncommented (line.shift d).text } =
        (Fragment.trim { line with text := Quotation.outside.uncommented line.text }).shift d :=
    Fragment.trim_shift d { line with text := Quotation.outside.uncommented line.text }
  simp only [ofLine, code, labels_shift, ofBody?_shift, List.map_append, List.map_map]
  cases ofBody? _ <;> rfl

end Item

theorem itemsFrom_shift (number start : Nat) (texts : List (List Char)) :
    itemsFrom (number + d.lines) (start + d.bytes) texts =
      (itemsFrom number start texts).map (Item.shift d) := by
  induction texts generalizing number start with
  | nil => rfl
  | cons text more ih =>
      have first := Item.ofLine_shift d ⟨number, start, withoutReturn text⟩
      rw [itemsFrom, itemsFrom, List.map_append, ← first, ← ih, Nat.add_right_comm number,
        Nat.add_right_comm start, Nat.add_right_comm _ d.bytes]
      rfl

/-- Lines that follow others are read after the text and the newline that end before them. -/
theorem itemsAfter_append (before : List Char) {texts : List (List Char)} (nonempty : texts ≠ [])
    (oneLine : ∀ text ∈ texts, '\n' ∉ text) (more : List (List Char)) :
    itemsAfter before (texts ++ more) =
      itemsAfter before texts ++
        itemsAfter (before ++ ['\n'].intercalate texts ++ ['\n']) more := by
  induction texts generalizing before with
  | nil => exact absurd rfl nonempty
  | cons text rest ih =>
      obtain ⟨here, later⟩ := List.forall_mem_cons.mp oneLine
      rw [List.cons_append, itemsAfter_cons before text _ here, itemsAfter_cons before text _ here]
      cases rest with
      | nil => simp [itemsAfter, itemsFrom]
      | cons next rest =>
          rw [ih _ (List.cons_ne_nil next rest) later, List.append_assoc,
            List.intercalate_cons_cons]
          simp only [List.append_assoc]

/-- Two texts with a newline between them are read one after the other: first the items of the one,
then those of the other, moved by the lines and bytes before them. -/
theorem items_append_newline (a b : String) :
    items (a ++ "\n" ++ b) = items a ++ (items b).map (Item.shift (.past a)) := by
  have whole : (a ++ "\n" ++ b).toList = a.toList ++ '\n' :: b.toList := by
    simp
  have oneLine : ∀ line ∈ Text.lines a.toList, '\n' ∉ line := fun _ => oneLine_of_mem_lines
  have nonempty : Text.lines a.toList ≠ [] := pieces_ne_nil _ _ _ _
  have first := itemsAfter_append [] nonempty oneLine (Text.lines b.toList)
  have past : (Shift.past a).lines = (a.toList ++ ['\n']).count '\n' ∧
      (Shift.past a).bytes = utf8Length (a.toList ++ ['\n']) := by
    constructor
    · rw [List.count_append]
      rfl
    · rw [utf8Length_append, utf8Length_toList]
      rfl
  have second : itemsAfter (a.toList ++ ['\n']) (Text.lines b.toList) =
      (items b).map (Item.shift (.past a)) := by
    rw [itemsAfter, ← past.1, ← past.2, Nat.add_comm, items, ← itemsFrom_shift, Nat.zero_add]
  rw [intercalate_lines, List.nil_append, second] at first
  rw [items, whole, lines_append]
  exact first

end Source

end Mips
