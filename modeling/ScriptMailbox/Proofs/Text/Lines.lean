import ScriptMailbox.Text.Lines
import Mathlib.Data.List.Basic

/-!
# Texts and their lines

A line ends with its only line feed, and only the last line of a text may lack it. Lists of such
lines and texts are two views of the same thing: a text is cut into its lines, and the lines of a
list are those of the text that they make up (`lines_flatten`). A text that ends with a line feed
does not run into the lines of the text behind it (`lines_append`).
-/

namespace ScriptMailbox.Text

variable {text more line : List Char} {before after : List (List Char)}

/-- Whether lines can follow one another in a text: no line goes on behind its line feed, and all
but the last one end with a line feed. -/
structure AreLines (lines : List (List Char)) : Prop where
  single : ∀ line ∈ lines, '\n' ∉ line.dropLast
  closed : ∀ line ∈ lines.dropLast, line.getLast? = some '\n'

/-! ## Cutting -/

/-- A line feed at the start is a line of its own. -/
theorem lines_line_feed (rest : List Char) : lines ('\n' :: rest) = ['\n'] :: lines rest := by
  rw [lines, if_pos rfl]

/-- The first line feed ends the first line. -/
theorem lines_closed (h : '\n' ∉ line) (rest : List Char) :
    lines (line ++ '\n' :: rest) = (line ++ ['\n']) :: lines rest := by
  induction line with
  | nil => exact lines_line_feed rest
  | cons c line ih =>
    obtain ⟨hc, hline⟩ := not_or.mp (mt List.mem_cons.mpr h)
    rw [List.cons_append, lines, if_neg (Ne.symm hc), ih hline]
    rfl

/-- A text without line feed is its only line. -/
theorem lines_open (hne : line ≠ []) (h : '\n' ∉ line) : lines line = [line] := by
  induction line with
  | nil => exact absurd rfl hne
  | cons c line ih =>
    obtain ⟨hc, hline⟩ := not_or.mp (mt List.mem_cons.mpr h)
    rw [lines, if_neg (Ne.symm hc)]
    cases line with
    | nil => rfl
    | cons d line => rw [ih (List.cons_ne_nil d line) hline]

/-- A text that ends with a line feed keeps its lines to itself. -/
theorem lines_append (h : text.getLast? = some '\n') (more : List Char) :
    lines (text ++ more) = lines text ++ lines more := by
  induction text with
  | nil => cases h
  | cons c text ih =>
    by_cases htext : text = []
    · subst htext
      obtain rfl : c = '\n' := by simpa using h
      rw [List.singleton_append, lines_line_feed, lines_line_feed]
      rfl
    · have hlast : text.getLast? = some '\n' := by
        rwa [List.getLast?_cons_of_ne_nil htext] at h
      rw [List.cons_append, lines, lines, ih hlast]
      split_ifs
      · rfl
      · rcases hlines : lines text with _ | ⟨first, others⟩
        · have hflat := flatten_lines text
          rw [hlines] at hflat
          exact absurd hflat.symm htext
        · rfl

/-- The lines of a text have the shape of lines. -/
theorem areLines_lines (text : List Char) : AreLines (lines text) := by
  induction text with
  | nil => exact ⟨List.forall_mem_nil _, List.forall_mem_nil _⟩
  | cons c text ih =>
    rw [lines]
    split_ifs with hc
    · subst hc
      refine ⟨List.forall_mem_cons.mpr ⟨by simp, ih.single⟩, ?_⟩
      rcases hlines : lines text with _ | ⟨first, others⟩
      · exact List.forall_mem_nil _
      · rw [List.dropLast_cons_cons, ← hlines]
        exact List.forall_mem_cons.mpr ⟨rfl, ih.closed⟩
    · rcases hlines : lines text with _ | ⟨first, others⟩
      · exact ⟨by simp, List.forall_mem_nil _⟩
      · have hne : first ≠ [] := ne_nil_of_mem_lines (hlines ▸ List.mem_cons_self)
        rw [hlines] at ih
        have hsingle := List.forall_mem_cons.mp ih.single
        refine ⟨List.forall_mem_cons.mpr ⟨?_, hsingle.2⟩, ?_⟩
        · rw [List.dropLast_cons_of_ne_nil hne, List.mem_cons, not_or]
          exact ⟨Ne.symm hc, hsingle.1⟩
        · cases others with
          | nil => exact List.forall_mem_nil _
          | cons second others =>
            have hclosed := List.forall_mem_cons.mp ih.closed
            refine List.forall_mem_cons.mpr ⟨?_, hclosed.2⟩
            rw [List.getLast?_cons_of_ne_nil hne, hclosed.1]

/-! ## Lists of lines -/

/-- The first of some lines are lines. -/
theorem AreLines.left (h : AreLines (before ++ after)) : AreLines before := by
  refine ⟨fun line hmem => h.single line (List.mem_append_left _ hmem), fun line hmem => ?_⟩
  cases after with
  | nil =>
    rw [List.append_nil] at h
    exact h.closed line hmem
  | cons first after =>
    refine h.closed line ?_
    rw [List.dropLast_append_of_ne_nil (List.cons_ne_nil first after)]
    exact List.mem_append_left _ (List.dropLast_subset _ hmem)

/-- So are the last. -/
theorem AreLines.right (h : AreLines (before ++ after)) : AreLines after := by
  refine ⟨fun line hmem => h.single line (List.mem_append_right _ hmem), fun line hmem => ?_⟩
  refine h.closed line ?_
  rw [List.dropLast_append_of_ne_nil (List.ne_nil_of_mem (List.dropLast_subset _ hmem))]
  exact List.mem_append_right _ hmem

/-- Lines in front of others end with a line feed. -/
theorem AreLines.closed_left (h : AreLines (before ++ after)) (hafter : after ≠ []) :
    ∀ line ∈ before, line.getLast? = some '\n' := by
  intro line hmem
  refine h.closed line ?_
  rw [List.dropLast_append_of_ne_nil hafter]
  exact List.mem_append_left _ hmem

/-- So does the text that they make up. -/
theorem getLast?_flatten_of_closed (hne : before ≠ [])
    (h : ∀ line ∈ before, line.getLast? = some '\n') : before.flatten.getLast? = some '\n' := by
  obtain ⟨init, last, rfl⟩ := List.eq_nil_or_concat' before |>.resolve_left hne
  have hlast := h last (by simp)
  have hne : last ≠ [] := by
    rintro rfl
    cases hlast
  rw [List.flatten_append, List.flatten_singleton, List.getLast?_append_of_ne_nil _ hne, hlast]

/-- All lines of a text that ends with a line feed end with one. -/
theorem getLast?_of_mem_lines (h : text.getLast? = some '\n') :
    ∀ line ∈ lines text, line.getLast? = some '\n' := by
  rcases List.eq_nil_or_concat' (lines text) with hlines | ⟨init, last, hlines⟩
  · rw [hlines]
    exact List.forall_mem_nil _
  · have hare := hlines ▸ areLines_lines text
    have hne : last ≠ [] := ne_nil_of_mem_lines (hlines ▸ List.mem_concat_self)
    rw [← flatten_lines text, hlines, List.flatten_append, List.flatten_singleton,
      List.getLast?_append_of_ne_nil _ hne] at h
    rw [hlines]
    refine List.forall_mem_append.mpr ⟨hare.closed_left (List.cons_ne_nil last []), ?_⟩
    exact List.forall_mem_singleton.mpr h

/-- Closed lines in front of a text are its first lines. -/
theorem lines_flatten_append (h : ∀ line ∈ before, line.getLast? = some '\n')
    (more : List Char) : lines (before.flatten ++ more) = lines before.flatten ++ lines more := by
  by_cases hbefore : before = []
  · subst hbefore
    rfl
  · exact lines_append (getLast?_flatten_of_closed hbefore h) more

/-- The lines of a list are those of the text that they make up; an empty one leaves no trace. -/
theorem lines_flatten {list : List (List Char)} (h : AreLines list) :
    lines list.flatten = list.filter (· ≠ []) := by
  induction list with
  | nil => rfl
  | cons line list ih =>
    have hlist : AreLines ([line] ++ list) := h
    have hsingle := h.single line List.mem_cons_self
    rw [List.flatten_cons, List.filter_cons]
    by_cases hclosed : line.getLast? = some '\n'
    · obtain ⟨body, rfl⟩ := List.getLast?_eq_some_iff.mp hclosed
      rw [List.dropLast_concat] at hsingle
      rw [List.append_assoc, List.singleton_append, lines_closed hsingle,
        ih hlist.right]
      simp
    · -- only the last line may lack its line feed
      obtain rfl : list = [] := by
        by_contra hne
        exact hclosed (hlist.closed_left hne line List.mem_cons_self)
      by_cases hempty : line = []
      · subst hempty
        rfl
      · have hopen : '\n' ∉ line := by
          rw [← List.dropLast_append_getLast hempty, List.mem_append, List.mem_singleton, not_or]
          refine ⟨hsingle, fun hlast => hclosed ?_⟩
          rw [List.getLast?_eq_some_getLast hempty, hlast]
        simp [lines_open hempty hopen, hempty]

/-- Lines are the lines of their text, provided that none is empty. -/
theorem lines_flatten_of_ne_nil {list : List (List Char)} (h : AreLines list)
    (hne : ∀ line ∈ list, line ≠ []) : lines list.flatten = list := by
  rw [lines_flatten h, List.filter_eq_self]
  simpa using hne

end ScriptMailbox.Text
