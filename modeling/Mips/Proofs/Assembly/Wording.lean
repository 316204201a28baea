import Mips.Assembly.Issue

/-!
The wording of labels that are declared again, and of those that are left over. It tells the names,
and no other problem is worded like it, so that the problems of either kind can be found by their
text.
-/
namespace Mips

theorem Text.EscapeError.head?_message (error : Text.EscapeError) :
    error.message.toList.head?.any ['t', 'T'].contains = false := by
  cases error with
  | unknown escape =>
      unfold message
      simp only [String.toList_append, List.head?_append]
      rfl
  | dangling => rfl

theorem Text.IntegerError.head?_message (text : String) (error : Text.IntegerError) :
    (error.message text).toList.head?.any ['t', 'T'].contains = false := by
  cases error with
  | escape error => exact error.head?_message
  | malformed | tooLarge | characterCount =>
      unfold message
      simp only [String.toList_append, List.head?_append]
      rfl

theorem Source.OperandError.head?_message (error : Source.OperandError) :
    error.message.toList.head?.any ['t', 'T'].contains = false := by
  cases error with
  | integer text error => exact error.head?_message text
  | string error => exact error.head?_message
  | malformed _ _ | unrecognised _ | registerWithoutSign _ | unknownRegister _ =>
      unfold message
      simp only [String.toList_append, List.head?_append]
      rfl

namespace Assembly.Issue

theorem message_labelTaken (name : String) :
    (labelTaken name).message = "the label name: \"" ++ name ++ "\" is taken" := by
  unfold message
  rfl

theorem message_unboundLabels (names : List String) :
    (unboundLabels names).message =
      "These labels could not be assigned to addresses because the end of the program was " ++
        "reached: \"" ++ "\", \"".intercalate names ++ "\"" := by
  unfold message
  rfl

/-- The first letter tells the problems of labels apart from all others. -/
theorem head?_message (issue : Issue) :
    match issue with
    | labelTaken _ | undefinedLabel _ => issue.message.toList.head? = some 't'
    | entryOutsideText | missingEntry | unboundLabels _ => issue.message.toList.head? = some 'T'
    | _ => issue.message.toList.head?.any ['t', 'T'].contains = false := by
  cases issue with
  | operand error => exact error.head?_message
  | directiveInText | directiveOutside | statementOutsideText => rfl
  | directiveMisuse directive =>
      unfold message Directive.misuseMessage
      simp only [String.toList_append, List.head?_append]
      rfl
  | _ =>
      unfold message
      simp only [String.toList_append, List.head?_append]
      rfl

/-- A wording that starts like that of a label that is taken is about a label. -/
theorem about_label {issue : Issue} (same : issue.message.toList.head? = some 't') :
    ∃ name, issue = .labelTaken name ∨ issue = .undefinedLabel name := by
  have first := issue.head?_message
  cases issue with
  | labelTaken name => exact ⟨name, .inl rfl⟩
  | undefinedLabel name => exact ⟨name, .inr rfl⟩
  | _ =>
      rw [same] at first
      simp at first

/-- No other problem is worded like a label that is taken. -/
theorem message_eq_labelTaken_iff (issue : Issue) (name : String) :
    issue.message = (labelTaken name).message ↔ issue = labelTaken name := by
  constructor
  · intro same
    have starts : issue.message.toList.head? = some 't' := by
      rw [same, message_labelTaken, String.toList_append, String.toList_append]
      rfl
    obtain ⟨other, rfl | rfl⟩ := about_label starts
    · rw [message_labelTaken, message_labelTaken, String.append_left_inj,
        String.append_right_inj] at same
      rw [same]
    · -- The two wordings part at the end of their common start.
      have apart := congrArg (fun text => text.toList[10]?) same
      unfold message at apart
      simp only [String.toList_append, List.append_assoc] at apart
      exact absurd (Option.some.inj apart) (by decide)
  · intro same
    rw [same]

/-- How a problem begins that tells the labels left over at the end of a source. -/
def leftoverWording : String :=
  "These labels could not be assigned to addresses"

/-- No other problem begins like one that tells the labels left over. -/
theorem isPrefixOf_message_iff (issue : Issue) :
    leftoverWording.toList.isPrefixOf issue.message.toList = true ↔
      ∃ names, issue = unboundLabels names := by
  rw [List.isPrefixOf_iff_prefix]
  constructor
  · rintro ⟨rest, same⟩
    have first := issue.head?_message
    have letters (index : Nat) (inside : index < 8) :
        issue.message.toList[index]? = leftoverWording.toList[index]? := by
      rw [← same, List.getElem?_append_left (Nat.lt_of_lt_of_le inside (by decide))]
    cases issue with
    | unboundLabels names => exact ⟨names, rfl⟩
    | entryOutsideText | missingEntry => exact absurd (letters 3 (by decide)) (by decide)
    | _ =>
        have starts : leftoverWording.toList[0]? = some 'T' := by decide
        rw [List.head?_eq_getElem?, letters 0 (by decide), starts] at first
        simp at first
  · rintro ⟨names, rfl⟩
    rw [message_unboundLabels]
    simp only [String.toList_append, List.append_assoc]
    have start : leftoverWording.toList <+:
        "These labels could not be assigned to addresses because the end of the program was ".toList :=
      List.isPrefixOf_iff_prefix.mp (by decide)
    exact start.trans (List.prefix_append _ _)

end Assembly.Issue

end Mips
