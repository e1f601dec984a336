import ScriptMailbox.Text.Start

/-!
# Marks

A mark cuts a text at the first place where it stands: `cutAt?` yields what stands before the mark
and what stands behind it.
-/

namespace ScriptMailbox.Text

variable {α : Type} [DecidableEq α]

/-- What stands before and behind the first place where a mark stands. -/
def cutAt? (mark : List α) : List α → Option (List α × List α)
  | [] => none
  | a :: rest =>
    match dropStart? mark (a :: rest) with
    | some after => some ([], after)
    | none => (cutAt? mark rest).map fun (before, after) => (a :: before, after)

/-- Cutting at a mark that is not empty leaves less behind it. -/
theorem length_lt_of_cutAt? {mark text before after : List α} (hmark : mark ≠ [])
    (h : cutAt? mark text = some (before, after)) : after.length < text.length := by
  induction text generalizing before with
  | nil => simp [cutAt?] at h
  | cons a rest ih =>
    unfold cutAt? at h
    split at h
    · rename_i heq
      have hlength := congrArg List.length (dropStart?_eq_some_iff.mp heq)
      have := List.length_pos_iff.mpr hmark
      simp only [Option.some.injEq, Prod.mk.injEq] at h
      rw [← h.2]
      simp only [List.length_append] at hlength
      omega
    · obtain ⟨⟨b, a⟩, hcut, heq⟩ := Option.map_eq_some_iff.mp h
      simp only [Prod.mk.injEq] at heq
      have := ih (heq.2 ▸ hcut)
      simp
      omega

end ScriptMailbox.Text
