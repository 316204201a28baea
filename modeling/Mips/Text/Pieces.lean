/-!
Cutting a text into pieces. A scanner state runs along the text and says at each character
whether it separates two pieces; the separators belong to no piece. `intercalate_pieces` says
that nothing else is lost.
-/
namespace Mips.Text

/-- The pieces of a text; there is always at least one, and a cut at an end leaves an empty one. -/
def pieces {State : Type} (cuts : State → Char → Bool) (next : State → Char → State) :
    State → List Char → List (List Char)
  | _, [] => [[]]
  | s, c :: rest =>
      match pieces cuts next (next s c) rest with
      | [] => [[]]
      | piece :: more =>
          if cuts s c then [] :: piece :: more else (c :: piece) :: more

theorem pieces_ne_nil {State : Type} (cuts : State → Char → Bool) (next : State → Char → State)
    (s : State) (text : List Char) : pieces cuts next s text ≠ [] := by
  cases text with
  | nil => simp [pieces]
  | cons c rest =>
      simp only [pieces]
      split
      · simp
      · split <;> simp

theorem intercalate_pieces {State : Type} {cuts : State → Char → Bool}
    {next : State → Char → State} {separator : Char}
    (h : ∀ s c, cuts s c = true → c = separator) (s : State) (text : List Char) :
    [separator].intercalate (pieces cuts next s text) = text := by
  induction text generalizing s with
  | nil => rfl
  | cons c rest ih =>
      have tail := ih (next s c)
      simp only [pieces]
      split
      · next empty => exact absurd empty (pieces_ne_nil _ _ _ _)
      · next piece more split =>
          rw [split] at tail
          split
          · next cut =>
              rw [h s c cut, ← tail]
              simp [List.intercalate]
          · rw [← tail]
            cases more <;> simp [List.intercalate]

/-- The lines of a source, without the newlines between them. -/
def lines (source : List Char) : List (List Char) :=
  pieces (fun _ c => c == '\n') (fun _ _ => ()) () source

end Mips.Text
