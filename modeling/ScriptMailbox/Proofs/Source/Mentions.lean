import ScriptMailbox.Proofs.Source.Kinds

/-!
# Names in a line

A line declares a name if the word `function`, blanks and the name stand in it one after the other,
with a word boundary behind the name (`declares_iff`). So a line in which `function` is no word
declares nothing.
-/

namespace ScriptMailbox.Source

variable {name line text : List Char} {before : Option Char}

/-- Whether the word `function` stands in a line. -/
def MentionsFunction (line : List Char) : Prop :=
  ∃ lead rest, line = lead ++ functionWord ++ rest ∧
    Text.isBoundary lead.getLast? functionWord.head? = true ∧
    Text.isBoundary functionWord.getLast? rest.head? = true

/-- Whether the word `function`, at least one blank and a name stand in a line, and a word boundary
behind the name. -/
def HasName (name line : List Char) : Prop :=
  ∃ lead gap rest, line = lead ++ functionWord ++ gap ++ name ++ rest ∧
    gap ≠ [] ∧ (∀ c ∈ gap, Text.isBlank c = true) ∧
    Text.isBoundary lead.getLast? functionWord.head? = true ∧
    Text.isBoundary name.getLast? rest.head? = true

/-- Behind a word, a blank makes a boundary. -/
theorem isBoundary_blank {c blank : Char} (hc : Text.isWord c = true)
    (hblank : Text.isBlank blank = true) : Text.isBoundary (some c) (some blank) = true := by
  rw [Text.isBoundary, Text.isWordAt, Text.isWordAt, hc, isWord_of_isBlank hblank]
  rfl

/-- A line that has a name mentions a function. -/
theorem HasName.mentions (h : HasName name line) : MentionsFunction line := by
  obtain ⟨lead, gap, rest, rfl, hgap, hblank, hbefore, -⟩ := h
  obtain ⟨blank, gap, rfl⟩ := List.exists_cons_of_ne_nil hgap
  refine ⟨lead, blank :: gap ++ name ++ rest, by simp, hbefore, ?_⟩
  exact isBoundary_blank (by decide) (hblank blank List.mem_cons_self)

/-- A line that mentions a function has that word in it. -/
theorem MentionsFunction.isInfix (h : MentionsFunction line) : functionWord <:+: line := by
  obtain ⟨lead, rest, heq, -⟩ := h
  exact ⟨lead, rest, heq.symm⟩

/-- A name follows after at least one blank, as a word of its own. -/
theorem startsWithName_iff :
    startsWithName name text = true ↔
      ∃ gap rest, text = gap ++ rest ∧ gap ≠ [] ∧ (∀ c ∈ gap, Text.isBlank c = true) ∧
        startsWithWord name rest = true := by
  induction text with
  | nil =>
    simp only [startsWithName, Bool.false_eq_true, false_iff]
    rintro ⟨gap, rest, heq, hgap, -⟩
    exact hgap (List.append_eq_nil_iff.mp heq.symm).1
  | cons c text ih =>
    rw [startsWithName, Bool.and_eq_true, Bool.or_eq_true, ih]
    constructor
    · rintro ⟨hc, hstarts | ⟨gap, rest, rfl, -, hblank, hstarts⟩⟩
      · exact ⟨[c], text, rfl, List.cons_ne_nil c [], List.forall_mem_singleton.mpr hc, hstarts⟩
      · exact ⟨c :: gap, rest, rfl, List.cons_ne_nil c gap,
          List.forall_mem_cons.mpr ⟨hc, hblank⟩, hstarts⟩
    · rintro ⟨gap, rest, heq, hgap, hblank, hstarts⟩
      obtain ⟨d, gap, rfl⟩ := List.exists_cons_of_ne_nil hgap
      obtain ⟨rfl, rfl⟩ := List.cons_eq_cons.mp heq
      obtain ⟨hc, hblank⟩ := List.forall_mem_cons.mp hblank
      refine ⟨hc, ?_⟩
      by_cases hempty : gap = []
      · subst hempty
        exact .inl hstarts
      · exact .inr ⟨gap, rest, rfl, hempty, hblank, hstarts⟩

/-- The scan of a line finds `function` at the first place behind which the name stands. -/
theorem declaresAfter_iff :
    declaresAfter name before line = true ↔
      ∃ lead rest, line = lead ++ functionWord ++ rest ∧
        Text.isBoundary (lead.getLast?.or before) functionWord.head? = true ∧
        startsWithName name rest = true := by
  -- on the line: the word stands here or further on, and what is before it moves along
  induction line generalizing before with
  | nil =>
    simp only [declaresAfter, Bool.false_eq_true, false_iff]
    rintro ⟨lead, rest, heq, -⟩
    have hlength := congrArg List.length heq
    simp [functionWord] at hlength
  | cons c line ih =>
    rw [declaresAfter, Bool.or_eq_true, ih]
    constructor
    · rintro (hhere | ⟨lead, rest, rfl, hboundary, hname⟩)
      · cases hdrop : Text.dropStart? functionWord (c :: line) with
        | none =>
          rw [hdrop] at hhere
          cases hhere
        | some rest =>
          rw [hdrop, Bool.and_eq_true] at hhere
          have hline := Text.dropStart?_eq_some_iff.mp hdrop
          obtain ⟨rfl, -⟩ := List.cons_eq_cons.mp hline
          exact ⟨[], rest, hline, hhere⟩
      · refine ⟨c :: lead, rest, rfl, ?_, hname⟩
        rwa [List.getLast?_cons, Option.some_or, ← Option.or_some]
    · rintro ⟨lead, rest, heq, hboundary, hname⟩
      cases lead with
      | nil =>
        rw [List.nil_append] at heq
        rw [Text.dropStart?_eq_some_iff.mpr heq]
        obtain ⟨rfl, -⟩ := List.cons_eq_cons.mp heq
        exact .inl (Bool.and_eq_true_iff.mpr ⟨hboundary, hname⟩)
      | cons d lead =>
        obtain ⟨rfl, rfl⟩ := List.cons_eq_cons.mp heq
        refine .inr ⟨lead, rest, rfl, ?_, hname⟩
        rwa [List.getLast?_cons, Option.some_or, ← Option.or_some] at hboundary

/-- A line declares a name exactly if it has it behind the word for functions. -/
theorem declares_iff : declares name line = true ↔ HasName name line := by
  simp only [declares, declaresAfter_iff, startsWithName_iff, startsWithWord_iff, Option.or_none]
  constructor
  · rintro ⟨lead, _, rfl, hbefore, gap, _, rfl, hgap, hblank, rest, rfl, hbehind⟩
    exact ⟨lead, gap, rest, by simp, hgap, hblank, hbefore, hbehind⟩
  · rintro ⟨lead, gap, rest, rfl, hgap, hblank, hbefore, hbehind⟩
    exact ⟨lead, gap ++ (name ++ rest), by simp, hbefore, gap, name ++ rest, rfl, hgap, hblank,
      rest, rfl, hbehind⟩

end ScriptMailbox.Source
