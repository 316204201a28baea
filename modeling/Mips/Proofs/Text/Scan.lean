import Mips.Text.Blank
import Mips.Text.Quotation
import Mathlib.Data.List.TakeWhile

/-!
How texts that are put together are taken apart. A text is trimmed, cut into pieces and freed from
its comment part by part: what is done to a part depends on the parts before it only through the
state of the scan.
-/
namespace Mips.Text

section Trim

theorem first_dropWhile (p : Char → Bool) (text : List Char) :
    ∀ c ∈ (text.dropWhile p).head?, p c = false := by
  intro c first
  have other := List.head?_dropWhile_not p text
  rwa [show (text.dropWhile p).head? = some c from first] at other

theorem blank_takeWhile (text : List Char) : ∀ c ∈ text.takeWhile isBlank, isBlank c = true :=
  fun _ member => List.mem_takeWhile_imp member

theorem trimEnd_cut (text : List Char) :
    ∃ trail, trimEnd text ++ trail = text ∧ ∀ c ∈ trail, isBlank c = true := by
  refine ⟨(text.reverse.takeWhile isBlank).reverse, ?_, ?_⟩
  · rw [trimEnd, ← List.reverse_append, List.takeWhile_append_dropWhile, List.reverse_reverse]
  · intro c member
    exact blank_takeWhile _ c (List.mem_reverse.mp member)

/-- The end of a text decides how it is trimmed, unless the end is blank altogether. -/
theorem trimEnd_append (a b : List Char) :
    trimEnd (a ++ b) = if trimEnd b = [] then trimEnd a else a ++ trimEnd b := by
  simp only [trimEnd, List.reverse_append, List.dropWhile_append, List.isEmpty_iff,
    List.reverse_eq_nil_iff]
  split <;> simp

theorem trimEnd_eq_nil_iff {text : List Char} :
    trimEnd text = [] ↔ ∀ c ∈ text, isBlank c = true := by
  simp [trimEnd, List.dropWhile_eq_nil_iff]

theorem trim_eq_nil_iff {text : List Char} : trim text = [] ↔ trimEnd text = [] := by
  rw [trim, trimEnd_eq_nil_iff, trimEnd_eq_nil_iff, trimStart]
  constructor
  · intro rest c member
    rw [← List.takeWhile_append_dropWhile (p := isBlank) (l := text)] at member
    obtain front | back := List.mem_append.mp member
    · exact blank_takeWhile text c front
    · exact rest c back
  · exact fun all c member => all c ((List.dropWhile_sublist isBlank).subset member)

theorem trimEnd_of_last {text : List Char} (h : ∀ c ∈ text.getLast?, isBlank c = false) :
    trimEnd text = text := by
  have other : text.reverse.dropWhile isBlank = text.reverse := by
    cases reversed : text.reverse with
    | nil => rfl
    | cons c rest =>
        have last := h c (by simp [List.getLast?_eq_head?_reverse, reversed])
        exact List.dropWhile_cons_of_neg (by simp [last])
  rw [trimEnd, other, List.reverse_reverse]

theorem trimEnd_append_of_last {a : List Char} (h : ∀ c ∈ a.getLast?, isBlank c = false)
    (b : List Char) : trimEnd (a ++ b) = a ++ trimEnd b := by
  rw [trimEnd_append, trimEnd_of_last h]
  split
  · next nothing => rw [nothing, List.append_nil]
  · rfl

theorem trimStart_of_first {text : List Char} (h : ∀ c ∈ text.head?, isBlank c = false) :
    trimStart text = text := by
  cases text with
  | nil => rfl
  | cons c rest => exact List.dropWhile_cons_of_neg (by simp [h c rfl])

theorem trim_of_ends {text : List Char} (first : ∀ c ∈ text.head?, isBlank c = false)
    (last : ∀ c ∈ text.getLast?, isBlank c = false) : trim text = text := by
  rw [trim, trimStart_of_first first, trimEnd_of_last last]

theorem trim_of_ink {text : List Char} (h : ∀ c ∈ text, isBlank c = false) : trim text = text :=
  trim_of_ends (fun c first => h c (List.mem_of_mem_head? first))
    fun c last => h c (List.mem_of_mem_getLast? last)

theorem head?_trimEnd {text : List Char} : ∀ c ∈ (trimEnd text).head?, c ∈ text.head? := by
  intro c first
  obtain ⟨trail, whole, -⟩ := trimEnd_cut text
  rw [← whole, List.head?_append, Option.mem_def.mp first]
  rfl

/-- Both ends of a text are trimmed without regard to each other. -/
theorem takeWhile_trimEnd {text : List Char} (h : trim text ≠ []) :
    (trimEnd text).takeWhile isBlank = text.takeWhile isBlank ∧
      (trimEnd text).dropWhile isBlank = trim text := by
  have blank := blank_takeWhile text
  have first : ∀ c ∈ (trim text).head?, isBlank c = false :=
    fun c member => first_dropWhile isBlank text c (head?_trimEnd c member)
  have cut : trimEnd text = text.takeWhile isBlank ++ trim text := by
    have whole := trimEnd_append (text.takeWhile isBlank) (text.dropWhile isBlank)
    rw [List.takeWhile_append_dropWhile] at whole
    exact whole.trans (if_neg h)
  cases inner : trim text with
  | nil => exact absurd inner h
  | cons c rest =>
      have ink : isBlank c = false := first c (by rw [inner]; rfl)
      rw [cut, inner, List.takeWhile_append_of_pos blank, List.dropWhile_append_of_pos blank,
        List.takeWhile_cons_of_neg (by simp [ink]), List.dropWhile_cons_of_neg (by simp [ink]),
        List.append_nil]
      exact ⟨rfl, rfl⟩

theorem dropWhile_trimEnd (text : List Char) : (trimEnd text).dropWhile isBlank = trim text := by
  by_cases blank : trim text = []
  · rw [blank, trim_eq_nil_iff.mp blank, List.dropWhile_nil]
  · exact (takeWhile_trimEnd blank).2

end Trim

section Pieces

variable {State : Type} {cuts : State → Char → Bool} {next : State → Char → State}

/-- Nowhere in the text does the scan cut. -/
def Uncut (cuts : State → Char → Bool) (next : State → Char → State) : State → List Char → Prop
  | _, [] => True
  | s, c :: rest => cuts s c = false ∧ Uncut cuts next (next s c) rest

theorem uncut_of_forall {text : List Char} (h : ∀ s, ∀ c ∈ text, cuts s c = false) (s : State) :
    Uncut cuts next s text := by
  induction text generalizing s with
  | nil => trivial
  | cons c rest ih =>
      have later : ∀ s, ∀ d ∈ rest, cuts s d = false :=
        fun s d member => h s d (List.mem_cons_of_mem _ member)
      exact ⟨h s c List.mem_cons_self, ih later _⟩

theorem uncut_append {s : State} {a b : List Char} (first : Uncut cuts next s a)
    (last : Uncut cuts next (a.foldl next s) b) : Uncut cuts next s (a ++ b) := by
  induction a generalizing s with
  | nil => exact last
  | cons c rest ih => exact ⟨first.1, ih first.2 last⟩

theorem pieces_append {s : State} {a : List Char} (uncut : Uncut cuts next s a) (b : List Char) :
    ∃ piece more, pieces cuts next (a.foldl next s) b = piece :: more ∧
      pieces cuts next s (a ++ b) = (a ++ piece) :: more := by
  induction a generalizing s with
  | nil =>
      obtain ⟨piece, more, split⟩ := List.exists_cons_of_ne_nil (pieces_ne_nil cuts next s b)
      exact ⟨piece, more, split, split⟩
  | cons c rest ih =>
      obtain ⟨piece, more, split, whole⟩ := ih uncut.2
      refine ⟨piece, more, split, ?_⟩
      simp [pieces, whole, uncut.1]

theorem pieces_of_uncut {s : State} {a : List Char} (uncut : Uncut cuts next s a) :
    pieces cuts next s a = [a] := by
  obtain ⟨piece, more, split, whole⟩ := pieces_append uncut []
  obtain ⟨rfl, rfl⟩ := List.cons.inj split
  simpa using whole

/-- A text up to its first cut is the first piece. -/
theorem pieces_cut {s : State} {a : List Char} (uncut : Uncut cuts next s a) {c : Char}
    (cut : cuts (a.foldl next s) c = true) (b : List Char) :
    pieces cuts next s (a ++ c :: b) = a :: pieces cuts next (next (a.foldl next s) c) b := by
  obtain ⟨piece, more, split, whole⟩ := pieces_append uncut (c :: b)
  obtain ⟨first, later, rest⟩ :=
    List.exists_cons_of_ne_nil (pieces_ne_nil cuts next (next (a.foldl next s) c) b)
  rw [pieces, rest] at split
  simp only [cut, if_true] at split
  obtain ⟨rfl, rfl⟩ := List.cons.inj split
  rw [whole, rest, List.append_nil]

theorem uncut_line {line : List Char} (h : '\n' ∉ line) :
    Uncut (fun _ c => c == '\n') (fun _ _ => ()) () line :=
  uncut_of_forall (fun _ _ member => beq_false_of_ne (ne_of_mem_of_not_mem member h)) ()

theorem lines_line {line : List Char} (h : '\n' ∉ line) : lines line = [line] :=
  pieces_of_uncut (uncut_line h)

theorem lines_cons {line : List Char} (h : '\n' ∉ line) (rest : List Char) :
    lines (line ++ '\n' :: rest) = line :: lines rest :=
  pieces_cut (uncut_line h) rfl rest

theorem lines_append (a b : List Char) : lines (a ++ '\n' :: b) = lines a ++ lines b := by
  induction a with
  | nil => exact lines_cons List.not_mem_nil b
  | cons c rest ih =>
      obtain ⟨piece, more, first⟩ := List.exists_cons_of_ne_nil
        (pieces_ne_nil (fun _ c => c == '\n') (fun _ _ => ()) () rest)
      rw [lines, lines] at ih
      rw [List.cons_append, lines, lines, pieces, ih, pieces, first]
      by_cases newline : c = '\n' <;> simp [newline, lines]

theorem lines_intercalate {texts : List (List Char)} (nonempty : texts ≠ [])
    (oneLine : ∀ text ∈ texts, '\n' ∉ text) : lines (['\n'].intercalate texts) = texts := by
  induction texts with
  | nil => exact absurd rfl nonempty
  | cons text more ih =>
      obtain ⟨here, later⟩ := List.forall_mem_cons.mp oneLine
      cases more with
      | nil =>
          rw [List.intercalate_singleton]
          exact lines_line here
      | cons next more =>
          rw [List.intercalate_cons_cons, List.append_assoc, List.singleton_append, lines_cons here,
            ih (List.cons_ne_nil _ _) later]

end Pieces

/-- A text without the quotes of either kind of literal. -/
def Unquoted (text : List Char) : Prop :=
  ∀ c ∈ text, c ≠ '"' ∧ c ≠ '\''

section Unquoted

variable {a b text : List Char}

theorem Unquoted.append (h : Unquoted a) (more : Unquoted b) : Unquoted (a ++ b) :=
  fun c member => (List.mem_append.mp member).elim (h c) (more c)

/-- A class of characters without the quotes makes texts without quotes. -/
theorem unquoted_of_class {p : Char → Bool} (double : p '"' = false) (single : p '\'' = false)
    (h : ∀ c ∈ text, p c = true) : Unquoted text := by
  intro c member
  have inside := h c member
  constructor
  · rintro rfl
    rw [double] at inside
    cases inside
  · rintro rfl
    rw [single] at inside
    cases inside

theorem unquoted_of_blank (h : ∀ c ∈ text, isBlank c = true) : Unquoted text :=
  unquoted_of_class (by decide) (by decide) h

end Unquoted

namespace Quotation

variable {q : Quotation} {text : List Char}

theorem after_append (q : Quotation) (a b : List Char) : q.after (a ++ b) = (q.after a).after b :=
  List.foldl_append

/-- Without a comment in its first part a text is read on in the second. -/
theorem uncommented_append {a : List Char} (h : q.uncommented a = a) (b : List Char) :
    q.uncommented (a ++ b) = a ++ (q.after a).uncommented b := by
  induction a generalizing q with
  | nil => rfl
  | cons c rest ih =>
      rw [uncommented] at h
      split at h
      · cases h
      · next free =>
          rw [List.cons_append, uncommented, if_neg free, ih (List.cons.inj h).2]
          rfl

theorem head?_uncommented (q : Quotation) (text : List Char) :
    ∀ c ∈ (q.uncommented text).head?, c ∈ text.head? := by
  cases text with
  | nil => simp [uncommented]
  | cons c rest =>
      rw [uncommented]
      split
      · simp
      · simp

/-- After a text without quotes the scan is outside of literals as before. -/
theorem after_unquoted (h : Unquoted text) : outside.after text = outside := by
  induction text with
  | nil => rfl
  | cons c rest ih =>
      obtain ⟨⟨double, single⟩, later⟩ := List.forall_mem_cons.mp h
      have stays : outside.next c = outside := by simp [next, double, single]
      rw [after, List.foldl_cons, stays]
      exact ih later

theorem uncommented_of_not_mem (h : '#' ∉ text) : q.uncommented text = text := by
  induction text generalizing q with
  | nil => rfl
  | cons c rest ih =>
      obtain ⟨other, later⟩ := List.ne_and_not_mem_of_not_mem_cons h
      rw [uncommented, if_neg fun start => other start.2.symm, ih later]

theorem uncommented_blank (h : ∀ c ∈ text, isBlank c = true) : q.uncommented text = text :=
  uncommented_of_not_mem fun member => absurd (h _ member) (by decide)

end Quotation

end Mips.Text
