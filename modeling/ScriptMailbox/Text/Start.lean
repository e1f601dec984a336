/-!
# Starts and ends

A text may start or end with another one; what is left of it then is what follows that start or
stands before that end (`dropStart?_eq_some_iff`, `dropEnd?_eq_some_iff`).
-/

namespace ScriptMailbox.Text

variable {α : Type} [DecidableEq α]

/-- What follows a start of a text, if the text starts so. -/
def dropStart? : List α → List α → Option (List α)
  | [], text => some text
  | _ :: _, [] => none
  | a :: start, b :: text => if a = b then dropStart? start text else none

/-- A text starts with another one exactly when it is that one followed by the rest. -/
theorem dropStart?_eq_some_iff {start text rest : List α} :
    dropStart? start text = some rest ↔ text = start ++ rest := by
  induction start generalizing text with
  | nil => simp [dropStart?, eq_comm]
  | cons a start ih =>
    cases text with
    | nil => simp [dropStart?]
    | cons b text =>
      by_cases h : a = b
      · simp [dropStart?, h, ih]
      · simp [dropStart?, h, Ne.symm h]

/-- What stands before an end of a text, if the text ends so. -/
def dropEnd? (ending text : List α) : Option (List α) :=
  (dropStart? ending.reverse text.reverse).map List.reverse

/-- A text ends with another one exactly when it is the rest followed by that one. -/
theorem dropEnd?_eq_some_iff {ending text rest : List α} :
    dropEnd? ending text = some rest ↔ text = rest ++ ending := by
  simp only [dropEnd?, Option.map_eq_some_iff, dropStart?_eq_some_iff]
  constructor
  · rintro ⟨back, hback, rfl⟩
    rw [← List.reverse_reverse text, hback]
    simp
  · rintro rfl
    exact ⟨rest.reverse, by simp, by simp⟩

end ScriptMailbox.Text
