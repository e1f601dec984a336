import ScriptMailbox.Source.LineKind
import ScriptMailbox.Proofs.Text.Lines

/-!
# Kinds of lines and the blanks around them

A line means the same whatever blanks stand in front of it and at its end, its line feed among them,
both for the nesting of functions (`ofLine_indent`, `ofLine_concat`) and for the names that it
declares (`declares_indent`, `declares_concat`). So a text that is inserted as lines of its own has
lines of the kinds that it had before.
-/

namespace ScriptMailbox.Source

variable {word name line text lead indent : List Char} {blank : Char}

/-! ## Words and blanks -/

/-- A text starts with a word exactly when the word stands there and a word boundary behind it. -/
theorem startsWithWord_iff :
    startsWithWord word text = true ↔
      ∃ rest, text = word ++ rest ∧ Text.isBoundary word.getLast? rest.head? = true := by
  rw [startsWithWord]
  cases hdrop : Text.dropStart? word text with
  | some rest =>
    rw [Text.dropStart?_eq_some_iff] at hdrop
    subst hdrop
    simp
  | none =>
    simp only [Bool.false_eq_true, false_iff, not_exists, not_and]
    rintro rest rfl
    rw [Text.dropStart?_eq_some_iff.mpr rfl] at hdrop
    cases hdrop

/-- The empty text starts with no word. -/
theorem startsWithWord_nil (word : List Char) : startsWithWord word [] = false := by
  cases word with
  | nil => decide
  | cons => rfl

/-- The code points of the blanks. -/
def blankCodes : List ℕ :=
  List.range' 9 5 ++ [0x20, 0x85, 0xA0, 0x1680] ++ List.range' 0x2000 11 ++
    [0x2028, 0x2029, 0x202F, 0x205F, 0x3000]

/-- The blanks are those of a finite list. -/
theorem toNat_mem_blankCodes (hblank : Text.isBlank blank = true) : blank.toNat ∈ blankCodes := by
  simp only [Text.isBlank, Bool.or_eq_true, Bool.and_eq_true, decide_eq_true_eq, beq_iff_eq]
    at hblank
  simp only [blankCodes, List.mem_append, List.mem_range'_1, List.mem_cons, List.not_mem_nil]
  omega

/-- No blank belongs to a word. -/
theorem isWord_of_isBlank (hblank : Text.isBlank blank = true) : Text.isWord blank = false := by
  have hcodes : ∀ code ∈ blankCodes, Text.isWord (Char.ofNat code) = false := by decide +kernel
  have hword := hcodes blank.toNat (toNat_mem_blankCodes hblank)
  rwa [Char.ofNat_toNat] at hword

/-- The word for functions consists of letters of words. -/
theorem isWord_functionWord : ∀ c ∈ functionWord, Text.isWord c = true :=
  List.all_eq_true.mp (by decide)

/-- So does the word for what is local. -/
theorem isWord_localWord : ∀ c ∈ localWord, Text.isWord c = true :=
  List.all_eq_true.mp (by decide)

/-- A word has no blanks. -/
theorem not_mem_of_isBlank (hblank : Text.isBlank blank = true)
    (hword : ∀ c ∈ word, Text.isWord c = true) : blank ∉ word := by
  intro hmem
  have hfalse := isWord_of_isBlank hblank
  rw [hword blank hmem] at hfalse
  cases hfalse

/-! ## Blanks at the end -/

section

variable (hblank : Text.isBlank blank = true)
include hblank

/-- To a word, a blank is as good as the end. -/
theorem isWordAt_head?_concat (rest : List Char) :
    Text.isWordAt (rest ++ [blank]).head? = Text.isWordAt rest.head? := by
  cases rest with
  | nil => exact isWord_of_isBlank hblank
  | cons => rfl

/-- A blank at the end of a line changes nothing for the words at its start. -/
theorem startsWithWord_concat (word text : List Char) :
    startsWithWord word (text ++ [blank]) = startsWithWord word text := by
  rw [Bool.eq_iff_iff, startsWithWord_iff, startsWithWord_iff]
  constructor
  · rintro ⟨rest, heq, hboundary⟩
    rcases List.eq_nil_or_concat' rest with rfl | ⟨rest, c, rfl⟩
    · -- a word that ends with a blank has no boundary at the end of the text
      rw [List.append_nil] at heq
      rw [← heq, List.getLast?_concat, Text.isBoundary, Text.isWordAt,
        isWord_of_isBlank hblank] at hboundary
      cases hboundary
    · rw [← List.append_assoc] at heq
      obtain ⟨rfl, hc⟩ := List.append_inj' heq rfl
      obtain rfl : blank = c := List.singleton_inj.mp hc
      rw [Text.isBoundary, isWordAt_head?_concat hblank] at hboundary
      exact ⟨rest, rfl, hboundary⟩
  · rintro ⟨rest, rfl, hboundary⟩
    refine ⟨rest ++ [blank], List.append_assoc .., ?_⟩
    rwa [Text.isBoundary, isWordAt_head?_concat hblank]

/-- A word is dropped from the start of a line, whatever blank is at its end. -/
theorem dropStart?_concat (hword : ∀ c ∈ word, Text.isWord c = true) (text : List Char) :
    Text.dropStart? word (text ++ [blank]) = (Text.dropStart? word text).map (· ++ [blank]) := by
  induction word generalizing text with
  | nil => rfl
  | cons c word ih =>
    have hc : c ≠ blank := by
      rintro rfl
      exact not_mem_of_isBlank hblank hword List.mem_cons_self
    cases text with
    | nil => simp [Text.dropStart?, hc]
    | cons d text =>
      rw [List.cons_append, Text.dropStart?, Text.dropStart?]
      split_ifs
      · exact ih (List.forall_mem_cons.mp hword).2 text
      · rfl

/-- Trimming the start leaves a blank at the end, unless nothing else is there. -/
theorem trimStart_concat (text : List Char) :
    Text.trimStart text = [] ∧ Text.trimStart (text ++ [blank]) = [] ∨
      Text.trimStart (text ++ [blank]) = Text.trimStart text ++ [blank] := by
  induction text with
  | nil => exact .inl ⟨rfl, List.dropWhile_cons_of_pos hblank⟩
  | cons c text ih =>
    simp only [Text.trimStart, List.cons_append, List.dropWhile_cons] at ih ⊢
    by_cases hc : Text.isBlank c = true
    · simpa only [hc, if_true] using ih
    · exact .inr (by simp only [hc, Bool.false_eq_true, if_false, List.cons_append])

/-- So the first word of a line is the same with a blank at its end. -/
theorem startsWithWord_trimStart_concat (word text : List Char) :
    startsWithWord word (Text.trimStart (text ++ [blank])) =
      startsWithWord word (Text.trimStart text) := by
  rcases trimStart_concat hblank text with ⟨hempty, hconcat⟩ | hconcat
  · rw [hconcat, hempty]
  · rw [hconcat, startsWithWord_concat hblank]

/-- A line stays a header, or none, with a blank at its end. -/
theorem isHeader_concat (line : List Char) : isHeader (line ++ [blank]) = isHeader line := by
  rw [isHeader, isHeader, startsWithWord_trimStart_concat hblank]
  rcases trimStart_concat hblank line with ⟨hempty, hconcat⟩ | hconcat
  · rw [hconcat, hempty]
  · rw [hconcat, dropStart?_concat hblank isWord_localWord]
    rcases Text.dropStart? localWord (Text.trimStart line) with _ | ⟨_ | ⟨c, rest⟩⟩
    · rfl
    · have hnil : startsWithWord functionWord (Text.trimStart []) = false := startsWithWord_nil _
      simp only [Option.map_some, List.nil_append, hnil, Bool.and_false]
    · simp only [Option.map_some, List.cons_append, startsWithWord_trimStart_concat hblank]

/-- It stays of its kind. -/
theorem ofLine_concat (line : List Char) :
    LineKind.ofLine (line ++ [blank]) = LineKind.ofLine line := by
  rw [LineKind.ofLine, LineKind.ofLine, isHeader_concat hblank, isTerminator, isTerminator,
    startsWithWord_trimStart_concat hblank]

/-- It goes on starting with a name, or not. -/
theorem startsWithName_concat (name text : List Char) :
    startsWithName name (text ++ [blank]) = startsWithName name text := by
  induction text with
  | nil => simp [startsWithName, startsWithWord_nil]
  | cons c text ih =>
    rw [List.cons_append, startsWithName, startsWithName, startsWithWord_concat hblank, ih]

/-- It goes on declaring a name from some place on, or not. -/
theorem declaresAfter_concat (name line : List Char) (before : Option Char) :
    declaresAfter name before (line ++ [blank]) = declaresAfter name before line := by
  induction line generalizing before with
  | nil =>
    have hf : 'f' ≠ blank := by
      rintro rfl
      cases hblank
    simp [declaresAfter, functionWord, Text.dropStart?, hf]
  | cons c line ih =>
    rw [List.cons_append, declaresAfter, declaresAfter, ih, ← List.cons_append,
      dropStart?_concat hblank isWord_functionWord]
    cases Text.dropStart? functionWord (c :: line) with
    | none => rfl
    | some after => simp only [Option.map_some, startsWithName_concat hblank]

/-- It goes on declaring a name, or not. -/
theorem declares_concat (name line : List Char) :
    declares name (line ++ [blank]) = declares name line :=
  declaresAfter_concat hblank ..

end

/-! ## Blanks at the start -/

/-- Of what stands in front of a text, only whether it ends with a word matters. -/
theorem declaresAfter_congr {before before' : Option Char}
    (h : Text.isWordAt before = Text.isWordAt before') (name line : List Char) :
    declaresAfter name before line = declaresAfter name before' line := by
  cases line with
  | nil => rfl
  | cons c line => simp only [declaresAfter, Text.isBoundary, h]

/-- Where `function` cannot begin, no name is declared. -/
theorem declaresAfter_append (hlead : 'f' ∉ lead) (name text : List Char) (before : Option Char) :
    declaresAfter name before (lead ++ text) =
      declaresAfter name (lead.getLast?.or before) text := by
  induction lead generalizing before with
  | nil => rfl
  | cons c lead ih =>
    obtain ⟨hc, hlead⟩ := not_or.mp (mt List.mem_cons.mpr hlead)
    have hnone : Text.dropStart? functionWord (c :: (lead ++ text)) = none := if_neg hc
    rw [List.cons_append, declaresAfter, hnone, Bool.false_or, ih hlead]
    cases lead with
    | nil => rfl
    | cons d lead => rw [List.getLast?_cons_cons, List.getLast?_eq_some_getLast (by simp)]; rfl

section

variable (hindent : ∀ c ∈ indent, Text.isBlank c = true)
include hindent

/-- Blanks in front of a line end no word. -/
theorem isWordAt_getLast?_blank : Text.isWordAt indent.getLast? = false := by
  cases hlast : indent.getLast? with
  | none => rfl
  | some c => exact isWord_of_isBlank (hindent c (List.mem_of_getLast? hlast))

/-- Blanks in front of a line are trimmed away. -/
theorem trimStart_indent (line : List Char) :
    Text.trimStart (indent ++ line) = Text.trimStart line :=
  List.dropWhile_append_of_pos hindent

/-- A line stays a header, or none, with other blanks in front. -/
theorem isHeader_indent (line : List Char) : isHeader (indent ++ line) = isHeader line := by
  rw [isHeader, isHeader, trimStart_indent hindent]

/-- It stays of its kind. -/
theorem ofLine_indent (line : List Char) :
    LineKind.ofLine (indent ++ line) = LineKind.ofLine line := by
  rw [LineKind.ofLine, LineKind.ofLine, isHeader_indent hindent, isTerminator, isTerminator,
    trimStart_indent hindent]

/-- No declaration starts among the blanks. -/
theorem f_not_mem_blanks : 'f' ∉ indent := by
  intro hmem
  cases hindent 'f' hmem

/-- A line declares the same names with other blanks in front. -/
theorem declares_indent (name line : List Char) :
    declares name (indent ++ line) = declares name line := by
  rw [declares, declaresAfter_append (f_not_mem_blanks hindent), Option.or_none]
  exact declaresAfter_congr (isWordAt_getLast?_blank hindent) name line

/-- Behind blanks a scan is as good as new. -/
theorem declaresAfter_blanks (hne : indent ≠ []) (name line : List Char) (before : Option Char) :
    declaresAfter name before (indent ++ line) = declares name line := by
  rw [declaresAfter_append (f_not_mem_blanks hindent), List.getLast?_eq_some_getLast hne,
    Option.some_or, ← List.getLast?_eq_some_getLast hne]
  exact declaresAfter_congr (isWordAt_getLast?_blank hindent) name line

end

/-! ## A line feed at the end of a text -/

/-- Closing a text with a line feed changes none of its lines but for that line feed. -/
theorem mem_lines_concat (h : line ∈ Text.lines (text ++ ['\n'])) :
    line ∈ Text.lines text ∨ ∃ start, (start = [] ∨ start ∈ Text.lines text) ∧
      line = start ++ ['\n'] := by
  by_cases hclosed : text.getLast? = some '\n'
  · rw [Text.lines_append hclosed, List.mem_append] at h
    refine h.imp_right fun hline => ⟨[], .inl rfl, ?_⟩
    simpa [Text.lines] using hline
  -- only the last line is open, and the line feed closes it
  rcases List.eq_nil_or_concat' (Text.lines text) with hlines | ⟨init, last, hlines⟩
  · have htext := Text.flatten_lines text
    rw [hlines] at htext
    subst htext
    exact .inr ⟨[], .inl rfl, by simpa [Text.lines] using h⟩
  · have hare := hlines ▸ Text.areLines_lines text
    have htext : text = init.flatten ++ last := by
      rw [← Text.flatten_lines text, hlines, List.flatten_append, List.flatten_singleton]
    have hinit := hare.closed_left (List.cons_ne_nil last [])
    have hlast : '\n' ∉ last := by
      have hne : last ≠ [] := Text.ne_nil_of_mem_lines (hlines ▸ List.mem_concat_self)
      have hsingle := hare.single last List.mem_concat_self
      rw [← List.dropLast_append_getLast hne, List.mem_append, List.mem_singleton, not_or]
      refine ⟨hsingle, fun heq => hclosed ?_⟩
      rw [htext, List.getLast?_append_of_ne_nil _ hne, List.getLast?_eq_some_getLast hne, heq]
    rw [htext, List.append_assoc, Text.lines_flatten_append hinit, List.mem_append,
      Text.lines_closed hlast] at h
    rw [hlines]
    rcases h with h | h
    · left
      rw [Text.lines_flatten_of_ne_nil hare.left fun line hmem => Text.ne_nil_of_mem_lines
        (hlines ▸ List.mem_append_left _ hmem)] at h
      exact List.mem_append_left _ h
    · right
      exact ⟨last, .inr List.mem_concat_self, by simpa [Text.lines] using h⟩

end ScriptMailbox.Source
