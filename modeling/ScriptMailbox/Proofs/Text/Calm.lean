import ScriptMailbox.Proofs.Text.Places

/-!
# Calm texts

A text is calm when it has no doubled bracket and does not end with a bracket, so that no doubled
bracket arises at its end either, whatever follows. Calm texts can be put together. Behind a calm
text, the first doubled bracket is the one that follows it, and so is every mark that has one.
-/

namespace ScriptMailbox.Text

variable {α : Type} {bracket : α} {text lead rest : List α}

/-- Every bracket of the text is followed by something else in it. -/
def Calm (bracket : α) : List α → Prop
  | [] => True
  | a :: rest => (a = bracket → ∃ next ∈ rest.head?, next ≠ bracket) ∧ Calm bracket rest

instance Calm.decidable [DecidableEq α] (bracket : α) :
    (text : List α) → Decidable (Calm bracket text)
  | [] => inferInstanceAs (Decidable True)
  | _ :: rest =>
    have := Calm.decidable bracket rest
    inferInstanceAs (Decidable (_ ∧ _))

/-- Calm texts make a calm text, for neither ends with a bracket. -/
theorem Calm.append (hlead : Calm bracket lead) (htext : Calm bracket text) :
    Calm bracket (lead ++ text) := by
  induction lead with
  | nil => exact htext
  | cons a lead ih =>
    constructor
    · intro ha
      obtain ⟨next, hnext, hne⟩ := hlead.1 ha
      exact ⟨next, List.mem_head?_append_of_mem_head? hnext, hne⟩
    · exact ih hlead.2

/-- A text without brackets is calm. -/
theorem calm_of_not_mem (h : bracket ∉ text) : Calm bracket text := by
  induction text with
  | nil => trivial
  | cons a rest ih =>
    rw [List.mem_cons, not_or] at h
    exact ⟨fun ha => absurd ha.symm h.1, ih h.2⟩

/-- Calm means that there is no doubled bracket and no bracket at the end. -/
theorem calm_iff :
    Calm bracket text ↔ ¬[bracket, bracket] <:+: text ∧ text.getLast? ≠ some bracket := by
  induction text with
  | nil => simp [Calm]
  | cons a rest ih =>
    rw [Calm, ih, List.infix_cons_iff]
    cases rest with
    | nil => simp
    | cons b rest =>
      simp only [List.head?_cons, Option.mem_def, Option.some.injEq, exists_eq_left',
        List.cons_prefix_cons, List.nil_prefix, and_true, List.getLast?_cons_cons]
      grind

/-- A doubled bracket does not start inside a calm text, whatever follows. -/
theorem Calm.not_stands {place : ℕ} (h : Calm bracket lead) (hplace : place < lead.length) :
    ¬Stands [bracket, bracket] (lead ++ rest) place := by
  induction lead generalizing place with
  | nil => simp at hplace
  | cons a lead ih =>
    cases place with
    | zero =>
      intro hstands
      rw [Stands, List.drop_zero, List.cons_append, List.cons_prefix_cons] at hstands
      obtain ⟨next, hnext, hne⟩ := h.1 hstands.1.symm
      obtain ⟨more, rfl⟩ := List.head?_eq_some_iff.mp hnext
      rw [List.cons_append, List.cons_prefix_cons] at hstands
      exact hne hstands.2.1.symm
    | succ place => exact ih h.2 (by simpa using hplace)

/-! ## Marks with a doubled bracket -/

variable {mark start finish : List α}

/-- A mark with a doubled bracket does not start inside a calm text so early that its bracket
would start there too. -/
theorem Calm.not_stands_mark {place : ℕ} (h : Calm bracket lead)
    (hmark : mark = start ++ [bracket, bracket] ++ finish)
    (hplace : place + start.length < lead.length) : ¬Stands mark (lead ++ rest) place := by
  intro hstands
  rw [hmark] at hstands
  exact h.not_stands hplace hstands.part

/-- A mark with a doubled bracket stands nowhere in a calm text. -/
theorem Calm.stands_nowhere {place : ℕ} (h : Calm bracket text)
    (hmark : mark = start ++ [bracket, bracket] ++ finish) : ¬Stands mark text place := by
  intro hstands
  have hend := hstands.end_le (by simp [hmark])
  simp only [hmark, List.length_append, List.length_cons, List.length_nil] at hend
  rw [← List.append_nil text] at hstands
  exact h.not_stands_mark hmark (by omega) hstands

variable [DecidableEq α]

/-- Behind a calm text, a text is cut at the mark whose doubled bracket follows it. -/
theorem Calm.cutAt?_eq (h : Calm bracket (lead ++ start))
    (hmark : mark = start ++ [bracket, bracket] ++ finish) :
    cutAt? mark (lead ++ mark ++ rest) = some (lead, rest) := by
  have hsplit : lead ++ mark ++ rest =
      (lead ++ start) ++ ([bracket, bracket] ++ finish ++ rest) := by
    simp [hmark]
  rw [cutAt?_eq_some_iff (by simp [hmark])]
  constructor
  · rfl
  · intro place hplace
    rw [hsplit]
    apply h.not_stands_mark hmark
    rw [List.length_append]
    omega

/-- Calm parts stay calm when each is replaced by a calm one that starts with a bracket only if the
part did. -/
theorem Calm.flatMap {β : Type} {mark : β} {f : α → List β} (h : Calm bracket text)
    (hbracket : f bracket = [mark]) (hother : ∀ a, a ≠ bracket → mark ∉ f a)
    (hne : ∀ a, f a ≠ []) : Calm mark (text.flatMap f) := by
  induction text with
  | nil => trivial
  | cons a rest ih =>
    rw [List.flatMap_cons]
    by_cases ha : a = bracket
    · obtain ⟨next, hnext, hnextne⟩ := h.1 ha
      obtain ⟨more, rfl⟩ := List.head?_eq_some_iff.mp hnext
      obtain ⟨b, bs, hb⟩ := List.exists_cons_of_ne_nil (hne next)
      rw [ha, hbracket, List.singleton_append]
      have hbmark : b ≠ mark := by
        rintro rfl
        exact hother next hnextne (by simp [hb])
      exact ⟨fun _ => ⟨b, by simp [hb], hbmark⟩, ih h.2⟩
    · exact (calm_of_not_mem (hother a ha)).append (ih h.2)

end ScriptMailbox.Text
