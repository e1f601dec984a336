import ScriptMailbox.Text.Blank
import Mathlib.Data.List.Basic
import Mathlib.Data.List.TakeWhile

/-!
# The ends of a text

A text that is not blank at an end keeps that end when it is trimmed (`trim_eq_self`), and a trimmed
text is of this kind. A text is taken apart at the last separator in it, if the part behind has none
(`splitAtLast`).
-/

namespace ScriptMailbox.Text

variable {text : List Char} {c : Char}

/-! ## Trimming -/

/-- A text that is not blank at its start. -/
def StartsSolid (text : List Char) : Prop :=
  ∃ c ∈ text.head?, isBlank c = false

/-- A text that is not blank at its end. -/
def EndsSolid (text : List Char) : Prop :=
  ∃ c ∈ text.getLast?, isBlank c = false

/-- A text with a first letter that is no blank is not empty. -/
theorem StartsSolid.ne_nil (h : StartsSolid text) : text ≠ [] := by
  rintro rfl
  obtain ⟨c, hc, -⟩ := h
  cases hc

/-- A text without blanks starts with none. -/
theorem startsSolid_of_forall (hne : text ≠ []) (h : ∀ c ∈ text, isBlank c = false) :
    StartsSolid text :=
  ⟨text.head hne, List.head?_eq_some_head hne, h _ (List.head_mem hne)⟩

/-- It ends with none, either. -/
theorem endsSolid_of_forall (hne : text ≠ []) (h : ∀ c ∈ text, isBlank c = false) :
    EndsSolid text :=
  ⟨text.getLast hne, List.getLast?_eq_some_getLast hne, h _ (List.getLast_mem hne)⟩

/-- Where no blank is at the start, none is taken away. -/
theorem trimStart_eq_self (h : StartsSolid text) : trimStart text = text := by
  obtain ⟨c, hc, hsolid⟩ := h
  obtain ⟨rest, rfl⟩ := List.head?_eq_some_iff.mp hc
  exact List.dropWhile_cons_of_neg (by simp [hsolid])

/-- The same at the end. -/
theorem trimEnd_eq_self (h : EndsSolid text) : trimEnd text = text := by
  obtain ⟨c, hc, hsolid⟩ := h
  have hreversed : StartsSolid text.reverse := ⟨c, by rwa [List.head?_reverse], hsolid⟩
  rw [trimEnd, ← trimStart, trimStart_eq_self hreversed, List.reverse_reverse]

/-- A trimmed text starts with no blank, unless nothing is left. -/
theorem startsSolid_trimStart (h : trimStart text ≠ []) : StartsSolid (trimStart text) := by
  have hhead := List.head?_dropWhile_not isBlank text
  rw [← trimStart, List.head?_eq_some_head h] at hhead
  exact ⟨_, List.head?_eq_some_head h, hhead⟩

/-- What is left without the blanks at the end does not end with one. -/
theorem endsSolid_trimEnd (h : trimEnd text ≠ []) : EndsSolid (trimEnd text) := by
  have hreversed : trimStart text.reverse ≠ [] := by simpa [trimEnd, trimStart] using h
  obtain ⟨c, hc, hsolid⟩ := startsSolid_trimStart hreversed
  exact ⟨c, by rwa [trimEnd, List.getLast?_reverse], hsolid⟩

/-- What is left of a text after its end is trimmed is a start of it. -/
theorem trimEnd_prefix (text : List Char) : trimEnd text <+: text := by
  have h := List.dropWhile_suffix isBlank (l := text.reverse)
  simpa [trimEnd] using List.reverse_prefix.mpr h

/-- A trimmed text does not start with a blank, unless it is empty. -/
theorem startsSolid_trim (h : trim text ≠ []) : StartsSolid (trim text) := by
  obtain ⟨rest, hrest⟩ : trim text <+: trimStart text := trimEnd_prefix (trimStart text)
  have hne : trimStart text ≠ [] := by
    rw [← hrest]
    exact List.append_ne_nil_of_left_ne_nil h _
  obtain ⟨c, hc, hsolid⟩ := startsSolid_trimStart hne
  have hhead : (trim text).head? = (trimStart text).head? := by
    rw [← hrest, List.head?_append_of_ne_nil _ h]
  exact ⟨c, hhead ▸ hc, hsolid⟩

/-- It does not end with one, either. -/
theorem endsSolid_trim (h : trim text ≠ []) : EndsSolid (trim text) :=
  endsSolid_trimEnd h

/-- A text without blanks at its ends is trimmed already. -/
theorem trim_eq_self (hstart : StartsSolid text) (hend : EndsSolid text) : trim text = text := by
  rw [trim, trimStart_eq_self hstart, trimEnd_eq_self hend]

/-! ## The last separator -/

/-- Read backwards, a text is first what stands behind its last separator. -/
theorem splitAtLast (before : List Char) {after : List Char} (h : c ∉ after) :
    (before ++ c :: after).reverse.takeWhile (· != c) = after.reverse ∧
      (before ++ c :: after).reverse.dropWhile (· != c) = c :: before.reverse := by
  have hpass : ∀ d ∈ after.reverse, (d != c) = true := fun d hd =>
    bne_iff_ne.mpr (ne_of_mem_of_not_mem (List.mem_reverse.mp hd) h)
  rw [List.reverse_append, List.reverse_cons, List.append_assoc, List.singleton_append,
    List.takeWhile_append_of_pos hpass, List.dropWhile_append_of_pos hpass]
  simp

/-- What is found in this way are the parts of the text around its last separator. -/
theorem eq_of_dropWhile_reverse {rest : List Char}
    (h : text.reverse.dropWhile (· != c) = c :: rest) :
    text = rest.reverse ++ c :: (text.reverse.takeWhile (· != c)).reverse ∧
      c ∉ (text.reverse.takeWhile (· != c)).reverse := by
  constructor
  · have hwhole := List.takeWhile_append_dropWhile (p := (· != c)) (l := text.reverse)
    rw [h] at hwhole
    simpa using (congrArg List.reverse hwhole).symm
  · intro hmem
    have hne := List.mem_takeWhile_imp (List.mem_reverse.mp hmem)
    simp at hne

end ScriptMailbox.Text
