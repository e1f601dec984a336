import ScriptMailbox.Failure
import ScriptMailbox.Proofs.Source.Depths
import ScriptMailbox.Proofs.Source.Nesting

/-!
# Functions by their names

The name that opens a function is an identifier, with fields behind it and maybe a method. A name
asks for the first function that opens with it, or with a longer name in which `.` or `:` follows it
(`locate_declared`): the scan takes these separators for the end of a word. So where no function of
such a longer name comes first, it is the first one of exactly that name that is located.
-/

namespace ScriptMailbox.Source

/-! ## Declared names -/

/-- A word. -/
abbrev Identifier :=
  { text : List Char // text ≠ [] ∧ ∀ c ∈ text, Text.isWord c = true }

/-- The name under which a script declares a function. -/
structure DeclaredName where
  base : Identifier
  fields : List Identifier
  method : Option Identifier

/-- The field of a table, as it stands behind the name of the table. -/
def fieldText (field : Identifier) : List Char :=
  '.' :: field.val

/-- The method of an object, as it stands behind the name of the object. -/
def methodText (method : Identifier) : List Char :=
  ':' :: method.val

namespace DeclaredName

/-- A declared name as it stands in a script. -/
def text (name : DeclaredName) : List Char :=
  name.base.val ++ name.fields.flatMap fieldText ++ (name.method.map methodText).getD []

/-- The query for a declared name. -/
def query (name : DeclaredName) : Query :=
  .name (String.ofList name.text)

end DeclaredName

/-- Whether a name is another one with fields or a method behind it. -/
def GoesBeyond (longer name : DeclaredName) : Prop :=
  ∃ separator more, longer.text = name.text ++ separator :: more ∧
    (separator = '.' ∨ separator = ':')

variable {name longer : DeclaredName} {text more tail front lead rest found : List Char} {c : Char}

/-- A text that starts with an identifier starts with a letter of words. -/
theorem Identifier.isWordAt_head? (word : Identifier) (rest : List Char) :
    Text.isWordAt (word.val ++ rest).head? = true := by
  obtain ⟨hne, hword⟩ := word.property
  obtain ⟨c, more, heq⟩ := List.exists_cons_of_ne_nil hne
  rw [heq, List.cons_append, List.head?_cons]
  exact hword c (heq ▸ List.mem_cons_self)

/-- One that ends with an identifier ends with such a letter. -/
theorem Identifier.isWordAt_getLast? (word : Identifier) (before : List Char) :
    Text.isWordAt (before ++ word.val).getLast? = true := by
  obtain ⟨hne, hword⟩ := word.property
  rw [List.getLast?_append_of_ne_nil _ hne, List.getLast?_eq_some_getLast hne]
  exact hword _ (List.getLast_mem hne)

namespace DeclaredName

/-- A text that starts with the name of a function starts with a letter of words. -/
theorem isWordAt_head? (name : DeclaredName) (rest : List Char) :
    Text.isWordAt (name.text ++ rest).head? = true := by
  rw [text, List.append_assoc, List.append_assoc]
  exact name.base.isWordAt_head? _

/-- No name is empty. -/
theorem ne_nil (name : DeclaredName) : name.text ≠ [] := by
  intro hnil
  have hword := name.isWordAt_head? []
  rw [hnil] at hword
  cases hword

/-- A name ends with a letter of words. -/
theorem isWordAt_getLast? (name : DeclaredName) : Text.isWordAt name.text.getLast? = true := by
  obtain ⟨base, fields, method⟩ := name
  rw [text]
  cases method with
  | some method =>
    rw [Option.map_some, Option.getD_some, methodText, List.append_cons]
    exact method.isWordAt_getLast? _
  | none =>
    rw [Option.map_none, Option.getD_none, List.append_nil]
    rcases List.eq_nil_or_concat' fields with rfl | ⟨fields, field, rfl⟩
    · rw [List.flatMap_nil, List.append_nil]
      exact base.isWordAt_getLast? []
    · rw [List.flatMap_append, List.flatMap_singleton, fieldText, ← List.append_assoc,
        List.append_cons]
      exact field.isWordAt_getLast? _

/-- A name consists of words and separators. -/
theorem isWord_or_separator (hc : c ∈ name.text) :
    Text.isWord c = true ∨ c = '.' ∨ c = ':' := by
  rw [text, List.mem_append, List.mem_append, List.mem_flatMap] at hc
  rcases hc with (hbase | ⟨field, -, hfield⟩) | hmethod
  · exact .inl (name.base.property.2 c hbase)
  · rcases List.mem_cons.mp hfield with rfl | hmem
    · exact .inr (.inl rfl)
    · exact .inl (field.property.2 c hmem)
  · cases hcase : name.method with
    | none =>
      rw [hcase] at hmethod
      cases hmethod
    | some method =>
      rw [hcase] at hmethod
      rcases List.mem_cons.mp hmethod with rfl | hmem
      · exact .inr (.inr rfl)
      · exact .inl (method.property.2 c hmem)

/-- A name has no blanks. -/
theorem isBlank_eq_false (hc : c ∈ name.text) : Text.isBlank c = false := by
  rcases isWord_or_separator hc with hword | rfl | rfl
  · by_contra hblank
    rw [isWord_of_isBlank (Bool.not_eq_false _ ▸ hblank)] at hword
    cases hword
  · rfl
  · rfl

/-- A name has no parenthesis. -/
theorem not_mem_paren (name : DeclaredName) : '(' ∉ name.text := by
  intro hmem
  rcases isWord_or_separator hmem with hword | heq | heq
  · exact absurd hword (by decide +kernel)
  · exact absurd heq (by decide)
  · exact absurd heq (by decide)

end DeclaredName

/-! ## Where a name ends -/

/-- At a name stands another one exactly if the two are the same or a separator follows. -/
theorem startsWithWord_name_iff :
    startsWithWord name.text longer.text = true ↔
      longer.text = name.text ∨ GoesBeyond longer name := by
  rw [startsWithWord_iff]
  constructor
  · rintro ⟨rest, heq, hboundary⟩
    cases rest with
    | nil => exact .inl (by rw [heq, List.append_nil])
    | cons separator more =>
      refine .inr ⟨separator, more, heq, ?_⟩
      have hmem : separator ∈ longer.text := by rw [heq]; simp
      rcases DeclaredName.isWord_or_separator hmem with hword | hseparator
      · rw [Text.isBoundary, name.isWordAt_getLast?, List.head?_cons, Text.isWordAt, hword]
          at hboundary
        cases hboundary
      · exact hseparator
  · rintro (heq | ⟨separator, more, heq, hseparator⟩)
    · refine ⟨[], by rw [heq, List.append_nil], ?_⟩
      rw [Text.isBoundary, name.isWordAt_getLast?]
      rfl
    · refine ⟨separator :: more, heq, ?_⟩
      rw [Text.isBoundary, name.isWordAt_getLast?, List.head?_cons, Text.isWordAt]
      rcases hseparator with rfl | rfl
      · decide +kernel
      · decide +kernel

/-- Blanks in front of a name end where the name starts. -/
theorem startsWithName_gap {gap : List Char} (hgap : gap ≠ [])
    (hblank : ∀ c ∈ gap, Text.isBlank c = true) :
    startsWithName name.text (gap ++ longer.text) = startsWithWord name.text longer.text := by
  have htrim (name : DeclaredName) (rest : List Char) :
      Text.trimStart (name.text ++ rest) = name.text ++ rest := by
    obtain ⟨c, more, heq⟩ := List.exists_cons_of_ne_nil name.ne_nil
    have hmem : c ∈ name.text := heq ▸ List.mem_cons_self
    have hc := DeclaredName.isBlank_eq_false hmem
    rw [heq, List.cons_append, Text.trimStart, List.dropWhile_cons_of_neg (by simp [hc])]
  rw [Bool.eq_iff_iff, startsWithName_iff]
  constructor
  · rintro ⟨other, rest, heq, -, hother, hstarts⟩
    obtain ⟨rest, rfl, -⟩ := startsWithWord_iff.mp hstarts
    have htrimmed := congrArg Text.trimStart heq
    have hlonger := htrim longer []
    rw [List.append_nil] at hlonger
    rw [trimStart_indent hblank, trimStart_indent hother, htrim, hlonger] at htrimmed
    rwa [htrimmed]
  · exact fun hstarts => ⟨gap, longer.text, rfl, hgap, hblank, hstarts⟩

/-! ## Openings -/

/-- Blanks, at least one. -/
abbrev Gap :=
  { text : List Char // text ≠ [] ∧ ∀ c ∈ text, Text.isBlank c = true }

/-- A line that opens a function: maybe `local`, then `function`, a name and a parameter list. The
word `function` stands nowhere else in it. -/
structure Opening where
  indent : { text : List Char // ∀ c ∈ text, Text.isBlank c = true }
  /-- The blanks behind `local`. -/
  localGap : Option Gap
  gap : Gap
  name : DeclaredName
  /-- What follows the opening parenthesis. -/
  tail : { text : List Char // ¬MentionsFunction text }

namespace Opening

/-- What stands in front of the word `function`. -/
def start (opening : Opening) : List Char :=
  opening.indent.val ++ (opening.localGap.map (localWord ++ ·.val)).getD []

/-- The line of an opening. -/
def line (opening : Opening) : List Char :=
  opening.start ++ functionWord ++ opening.gap.val ++ opening.name.text ++ '(' :: opening.tail.val

/-- The name of an opening stands in its line, and the parenthesis behind it. -/
theorem isInfix_line (opening : Opening) : opening.name.text ++ ['('] <:+: opening.line :=
  ⟨opening.start ++ functionWord ++ opening.gap.val, opening.tail.val, by simp [line]⟩

/-- The word for functions is a word by itself, for a blank follows it. -/
theorem startsWithWord_functionWord (gap : Gap) (rest : List Char) :
    startsWithWord functionWord (functionWord ++ gap.val ++ rest) = true := by
  obtain ⟨blank, more, heq⟩ := List.exists_cons_of_ne_nil gap.property.1
  refine startsWithWord_iff.mpr ⟨gap.val ++ rest, List.append_assoc .., ?_⟩
  rw [heq, List.cons_append, List.head?_cons]
  exact isBoundary_blank (by decide) (gap.property.2 blank (heq ▸ List.mem_cons_self))

/-- A line that opens a function is a header. -/
theorem ofLine_line (opening : Opening) : LineKind.ofLine opening.line = .header := by
  suffices hheader : isHeader opening.line = true by rw [LineKind.ofLine, if_pos hheader]
  obtain ⟨indent, localGap, gap, name, tail⟩ := opening
  simp only [line, start, List.append_assoc, isHeader_indent indent.property]
  rw [← List.append_assoc functionWord]
  have hfunction := startsWithWord_functionWord gap (name.text ++ '(' :: tail.val)
  cases localGap with
  | none =>
    have htrim : Text.trimStart (functionWord ++ gap.val ++ (name.text ++ '(' :: tail.val)) =
        functionWord ++ gap.val ++ (name.text ++ '(' :: tail.val) :=
      List.dropWhile_cons_of_neg (by decide)
    rw [Option.map_none, Option.getD_none, List.nil_append, isHeader, htrim, hfunction,
      Bool.true_or]
  | some localGap =>
    obtain ⟨blank, more, heq⟩ := List.exists_cons_of_ne_nil localGap.property.1
    have hblank := localGap.property.2
    rw [heq, List.forall_mem_cons] at hblank
    rw [Option.map_some, Option.getD_some, List.append_assoc, heq, List.cons_append]
    set function := functionWord ++ gap.val ++ (name.text ++ '(' :: tail.val) with hset
    have htrim (rest : List Char) : Text.trimStart (localWord ++ rest) = localWord ++ rest :=
      List.dropWhile_cons_of_neg (by decide)
    have htrim' : Text.trimStart function = function := List.dropWhile_cons_of_neg (by decide)
    rw [isHeader, htrim, Text.dropStart?_eq_some_iff.mpr rfl]
    simp only [hblank.1, trimStart_indent hblank.2, htrim', hfunction, Bool.and_self,
      Bool.or_true]

/-- No declaration starts in front of it. -/
theorem not_mem_start (opening : Opening) : 'f' ∉ opening.start := by
  rw [start, List.mem_append, not_or]
  refine ⟨f_not_mem_blanks opening.indent.property, ?_⟩
  cases opening.localGap with
  | none => exact List.not_mem_nil
  | some gap =>
    rw [Option.map_some, Option.getD_some, List.mem_append, not_or]
    exact ⟨by decide, f_not_mem_blanks gap.property.2⟩

/-- What is in front of it ends no word. -/
theorem isWordAt_getLast?_start (opening : Opening) :
    Text.isWordAt opening.start.getLast? = false := by
  rw [start]
  cases opening.localGap with
  | none =>
    rw [Option.map_none, Option.getD_none, List.append_nil]
    exact isWordAt_getLast?_blank opening.indent.property
  | some gap =>
    rw [Option.map_some, Option.getD_some, ← List.append_assoc,
      List.getLast?_append_of_ne_nil _ gap.property.1]
    exact isWordAt_getLast?_blank gap.property.2

end Opening

/-! ## Names in an opening -/

/-- Where a letter does not occur in some text, that text stands in front of it or behind it. -/
theorem append_cons_eq_append (hfound : c ∉ found)
    (heq : front ++ c :: tail = lead ++ found ++ rest) :
    (∃ more, front = lead ++ found ++ more ∧ rest = more ++ c :: tail) ∨
      ∃ more, lead = front ++ c :: more ∧ tail = more ++ found ++ rest := by
  rcases List.append_eq_append_iff.mp heq with ⟨behind, hleft, hright⟩ | ⟨more, rfl, rfl⟩
  · cases behind with
    | nil => exact .inl ⟨[], by simpa using hleft.symm, by simpa using hright.symm⟩
    | cons d behind =>
      obtain ⟨rfl, rfl⟩ := List.cons_eq_cons.mp hright
      rcases List.append_eq_append_iff.mp hleft with ⟨more, rfl, rfl⟩ | ⟨more, rfl, hcons⟩
      · exact absurd (List.mem_append_right more List.mem_cons_self) hfound
      · cases more with
        | nil =>
          rw [List.nil_append] at hcons
          exact absurd (hcons ▸ List.mem_cons_self) hfound
        | cons d more =>
          obtain ⟨rfl, rfl⟩ := List.cons_eq_cons.mp hcons
          exact .inr ⟨more, rfl, by simp⟩
  · exact .inl ⟨more, rfl, rfl⟩

/-- Behind the parenthesis no name is found. -/
theorem hasName_append_paren (htail : ¬MentionsFunction tail) :
    HasName name.text (front ++ '(' :: tail) ↔ HasName name.text front := by
  have hparen : Text.isWordAt (some '(') = Text.isWordAt none := by decide +kernel
  constructor
  · rintro ⟨lead, gap, rest, heq, hgap, hblank, hbefore, hbehind⟩
    have hfound : '(' ∉ functionWord ++ gap ++ name.text := by
      rw [List.mem_append, List.mem_append, not_or, not_or]
      exact ⟨⟨by decide, fun hmem => by cases hblank '(' hmem⟩, name.not_mem_paren⟩
    rcases append_cons_eq_append hfound (by simpa using heq) with
      ⟨more, rfl, rfl⟩ | ⟨more, rfl, rfl⟩
    · refine ⟨lead, gap, more, by simp, hgap, hblank, hbefore, ?_⟩
      cases more with
      | nil => rwa [List.nil_append, List.head?_cons, Text.isBoundary, hparen] at hbehind
      | cons => exact hbehind
    · refine absurd (HasName.mentions ⟨more, gap, rest, by simp, hgap, hblank, ?_, hbehind⟩) htail
      rw [List.getLast?_append_of_ne_nil _ (List.cons_ne_nil '(' more)] at hbefore
      cases more with
      | nil => rwa [List.getLast?_singleton, Text.isBoundary, hparen] at hbefore
      | cons => rwa [List.getLast?_cons_cons] at hbefore
  · rintro ⟨lead, gap, rest, rfl, hgap, hblank, hbefore, hbehind⟩
    refine ⟨lead, gap, rest ++ '(' :: tail, by simp, hgap, hblank, hbefore, ?_⟩
    cases rest with
    | nil => rwa [List.nil_append, List.head?_cons, Text.isBoundary, hparen]
    | cons => exact hbehind

/-- Behind the word for functions a line declares the name that follows, or one further on. -/
theorem declares_functionWord (text : List Char) :
    declares name.text (functionWord ++ text) =
      (startsWithName name.text text || declaresAfter name.text (some 'n') text) := by
  have hdrop : Text.dropStart? functionWord ('f' :: ("unction".toList ++ text)) = some text :=
    Text.dropStart?_eq_some_iff.mpr rfl
  have hboundary : Text.isBoundary none (some 'f') = true := by decide
  have hword : functionWord ++ text = 'f' :: ("unction".toList ++ text) := rfl
  rw [hword, declares, declaresAfter, declaresAfter_append (by decide)]
  simp only [hdrop, hboundary, Bool.true_and]
  rfl

/-- Without blanks in it, a name declares nothing. -/
theorem declares_text (name longer : DeclaredName) : declares name.text longer.text = false := by
  rw [← Bool.not_eq_true, declares_iff]
  rintro ⟨lead, gap, rest, heq, hgap, hblank, -⟩
  obtain ⟨blank, gap, rfl⟩ := List.exists_cons_of_ne_nil hgap
  have hmem : blank ∈ longer.text := by rw [heq]; simp
  have hfalse := DeclaredName.isBlank_eq_false hmem
  rw [hblank blank List.mem_cons_self] at hfalse
  cases hfalse

/-- An opening declares its own name and every name that its own goes beyond. -/
theorem Opening.declares_line_iff (opening : Opening) :
    declares name.text opening.line = true ↔
      opening.name.text = name.text ∨ GoesBeyond opening.name name := by
  obtain ⟨hne, hblank⟩ := opening.gap.property
  have hstart : Text.isWordAt opening.start.getLast? = Text.isWordAt none :=
    opening.isWordAt_getLast?_start
  rw [line, declares_iff, hasName_append_paren opening.tail.property, ← declares_iff,
    List.append_assoc, List.append_assoc, declares, declaresAfter_append opening.not_mem_start,
    Option.or_none, declaresAfter_congr hstart, ← declares, declares_functionWord,
    declaresAfter_blanks hblank hne, declares_text, Bool.or_false, startsWithName_gap hne hblank,
    startsWithWord_name_iff]

/-! ## Functions of a script -/

section

variable {source : String} {script : Script} {line : List Char} {before after : List (List Char)}

/-- A line that opens a function is the header of a definition. -/
theorem Script.exists_has (hlines : script.lines = before ++ line :: after)
    (hheader : LineKind.ofLine line = .header) :
    ∃ definition behind, script.Has before definition behind ∧ definition.header.val = line := by
  -- on the script: the line is its first one, or stands in a body or behind it
  induction script generalizing before after with
  | empty => simp [Script.lines] at hlines
  | plain other more ih =>
    rw [Script.lines] at hlines
    cases before with
    | nil =>
      obtain ⟨rfl, -⟩ := List.cons_eq_cons.mp hlines
      exact absurd (other.property.symm.trans hheader) (by decide)
    | cons first before =>
      obtain ⟨rfl, hmore⟩ := List.cons_eq_cons.mp hlines
      obtain ⟨definition, behind, hhas, hline⟩ := ih hmore
      exact ⟨definition, behind, .behindPlain hhas, hline⟩
  | function header body terminator more ihbody ihmore =>
    rw [Script.lines, List.cons_append] at hlines
    cases before with
    | nil =>
      obtain ⟨rfl, -⟩ := List.cons_eq_cons.mp hlines
      exact ⟨⟨header, body, terminator⟩, more.lines, .here ⟨header, body, terminator⟩ more, rfl⟩
    | cons first before =>
      obtain ⟨rfl, hinner⟩ := List.cons_eq_cons.mp hlines
      have hterminator : terminator.val ≠ line := by
        rintro rfl
        exact absurd (terminator.property.symm.trans hheader) (by decide)
      rcases List.append_eq_append_iff.mp hinner with ⟨others, rfl, hrest⟩ | ⟨others, hbody, hrest⟩
      · -- the line stands behind the body
        cases others with
        | nil => exact absurd (List.cons_eq_cons.mp hrest).1 hterminator
        | cons first others =>
          obtain ⟨rfl, hmore⟩ := List.cons_eq_cons.mp hrest
          obtain ⟨definition, behind, hhas, hline⟩ := ihmore hmore
          exact ⟨definition, behind, .behindFunction hhas, hline⟩
      · -- the line stands in the body
        cases others with
        | nil => exact absurd (List.cons_eq_cons.mp hrest).1.symm hterminator
        | cons first others =>
          obtain ⟨rfl, -⟩ := List.cons_eq_cons.mp hrest
          obtain ⟨definition, behind, hhas, hline⟩ := ihbody hbody
          exact ⟨definition, _, .inside hhas, hline⟩

/-- Whether the word `function` stands in a script only where it opens a function. -/
def Script.OnlyOpens (script : Script) : Prop :=
  ∀ line ∈ script.lines, MentionsFunction line → ∃ opening : Opening, opening.line = line

/-- Whether a line opens a function of a name. -/
def Opens (name : DeclaredName) (line : List Char) : Prop :=
  ∃ opening : Opening, opening.line = line ∧ opening.name.text = name.text

/-- Whether a line opens a function of a longer name. -/
def OpensBeyond (name : DeclaredName) (line : List Char) : Prop :=
  ∃ opening : Opening, opening.line = line ∧ GoesBeyond opening.name name

/-- Whether every function of a longer name stands behind one of exactly that name. -/
def Script.NamesFirst (script : Script) (name : DeclaredName) : Prop :=
  ∀ before line after, script.lines = before ++ line :: after → OpensBeyond name line →
    ∃ other ∈ before, Opens name other

/-- Whether a query selects the first definition of a script whose header is wanted, and finds
nothing if there is none. -/
def SelectsFirst (source : String) (script : Script) (query : Query)
    (wanted : List Char → Prop) : Prop :=
  (∃ before definition after, script.Has before definition after ∧
    wanted definition.header ∧ (∀ line ∈ before, ¬wanted line) ∧
    locate source query = .ok (definition.spanBehind before)) ∨
  ((∀ line ∈ script.lines, ¬wanted line) ∧
    (locate source query).mapError Failure.ofMiss = .error (.notFound query.describe))

/-- A line that opens a function of a name has the name and a parenthesis. -/
theorem Opens.isInfix (h : Opens name line) : name.text ++ ['('] <:+: line := by
  obtain ⟨opening, rfl, hname⟩ := h
  exact hname ▸ opening.isInfix_line

/-- A line that opens a function of a longer name has the name and a dot or a colon. -/
theorem OpensBeyond.isInfix (h : OpensBeyond name line) :
    name.text ++ ['.'] <:+: line ∨ name.text ++ [':'] <:+: line := by
  obtain ⟨opening, rfl, separator, more, hname, hseparator⟩ := h
  have hline : name.text ++ [separator] <:+: opening.line := by
    refine List.IsInfix.trans ⟨[], more ++ ['('], ?_⟩ opening.isInfix_line
    simp [hname]
  rcases hseparator with rfl | rfl
  · exact .inl hline
  · exact .inr hline

/-- So in such sources a line declares a name if it opens a function of that name or of a longer
one. -/
theorem Script.OnlyOpens.declares_iff (h : script.OnlyOpens) (hline : line ∈ script.lines) :
    declares name.text line = true ↔ Opens name line ∨ OpensBeyond name line := by
  constructor
  · intro hdeclares
    obtain ⟨opening, rfl⟩ := h line hline (Source.declares_iff.mp hdeclares).mentions
    exact (opening.declares_line_iff.mp hdeclares).imp (⟨opening, rfl, ·⟩) (⟨opening, rfl, ·⟩)
  · rintro (⟨opening, rfl, hname⟩ | ⟨opening, rfl, hname⟩)
    · exact opening.declares_line_iff.mpr (.inl hname)
    · exact opening.declares_line_iff.mpr (.inr hname)

/-- What a name asks for is the first line that declares it. -/
theorem selectsFirst_of_declares {wanted : List Char → Prop}
    (hlines : Text.lines source.toList = script.lines)
    (hopens : ∀ line ∈ script.lines, wanted line → LineKind.ofLine line = .header)
    (hwanted : ∀ line ∈ script.lines, declares name.text line = true ↔ wanted line) :
    SelectsFirst source script name.query wanted := by
  have hname : (String.ofList name.text).toList = name.text := String.toList_ofList
  -- on the first line that declares the name, which must be a header of the script
  cases hfirst : script.lines.find? (declares name.text) with
  | none =>
    have hnone : ∀ line ∈ script.lines, ¬wanted line := fun line hline hline' =>
      List.find?_eq_none.mp hfirst line hline ((hwanted line hline).mpr hline')
    refine .inr ⟨hnone, ?_⟩
    rw [locate_absent]
    · rfl
    · intro first hstart
      obtain ⟨line, hget, hhas⟩ := hstart.hasName
      rw [hname, ← declares_iff] at hhas
      rw [hlines] at hget
      have hline := List.mem_of_getElem? hget
      exact hnone line hline ((hwanted line hline).mp hhas)
  | some line =>
    obtain ⟨hline, before, rest, hsplit, hbefore⟩ := List.find?_eq_some_iff_append.mp hfirst
    have hmem : line ∈ script.lines := hsplit ▸ List.mem_append_right _ List.mem_cons_self
    have hheader := (hwanted line hmem).mp hline
    obtain ⟨definition, after, hhas, rfl⟩ := Script.exists_has hsplit (hopens _ hmem hheader)
    refine .inl ⟨before, definition, after, hhas, hheader, fun other hother hwanted' => ?_, ?_⟩
    · have hmem' : other ∈ script.lines := hsplit ▸ List.mem_append_left _ hother
      have hfalse := hbefore other hother
      rw [(hwanted other hmem').mpr hwanted'] at hfalse
      cases hfalse
    · rw [← definition.spanOfLines_eq]
      refine locate_of_locates (hlines.trans hhas.lines_eq) (locates_name_iff.mpr ⟨?_, ?_, ?_⟩)
      · intro hempty
        rw [hempty] at hname
        exact name.ne_nil hname.symm
      · intro other hother
        simpa [hname] using hbefore other hother
      · rw [hname]
        exact ⟨definition.header, _, rfl, hline, body?_definition definition⟩

/-- A name selects the first function that opens with it or with a longer name. Where no longer name
comes first, it selects the first function of exactly that name. -/
theorem locate_declared (hlines : Text.lines source.toList = script.lines)
    (hopens : script.OnlyOpens) (name : DeclaredName) :
    SelectsFirst source script name.query (fun line => Opens name line ∨ OpensBeyond name line) ∧
      (script.NamesFirst name → SelectsFirst source script name.query (Opens name)) := by
  have hheader (line : List Char) (_ : line ∈ script.lines)
      (h : Opens name line ∨ OpensBeyond name line) : LineKind.ofLine line = .header := by
    rcases h with ⟨opening, rfl, -⟩ | ⟨opening, rfl, -⟩
    · exact opening.ofLine_line
    · exact opening.ofLine_line
  have hselects := selectsFirst_of_declares hlines hheader fun line => hopens.declares_iff
  refine ⟨hselects, fun hfirst => ?_⟩
  rcases hselects with ⟨before, definition, after, hhas, hname, hbefore, hlocate⟩ |
    ⟨hnone, hlocate⟩
  · have hnot (line : List Char) (hline : line ∈ before) : ¬Opens name line :=
      fun h => hbefore line hline (.inl h)
    refine .inl ⟨before, definition, after, hhas, hname.resolve_right fun hbeyond => ?_, hnot,
      hlocate⟩
    have hsplit := hhas.lines_eq
    rw [Definition.lines, List.append_assoc, List.cons_append] at hsplit
    obtain ⟨line, hline, hline'⟩ := hfirst _ _ _ hsplit hbeyond
    exact hnot line hline hline'
  · exact .inr ⟨fun line hline h => hnone line hline (.inl h), hlocate⟩

/-- The table comes before its field. -/
theorem locate_declared_table :
    let source := "function M()\nend\nlocal function M.run(é)\n  M()\nend\n"
    let base : Identifier := ⟨"M".toList, by decide, List.all_eq_true.mp (by decide)⟩
    let name : DeclaredName := ⟨base, [], none⟩
    let close : LineOf .terminator := ⟨"end\n".toList, by decide⟩
    let script : Script :=
      .function ⟨"function M()\n".toList, by decide⟩ .empty close
        (.function ⟨"local function M.run(é)\n".toList, by decide⟩
          (.plain ⟨"  M()\n".toList, by decide⟩ .empty) close .empty)
    Text.lines source.toList = script.lines ∧ script.OnlyOpens ∧ script.NamesFirst name ∧
      SelectsFirst source script name.query (Opens name) := by
  intro source base name close script
  let field : Identifier := ⟨"run".toList, by decide, List.all_eq_true.mp (by decide)⟩
  let run : DeclaredName := ⟨base, [field], none⟩
  let gap : Gap := ⟨[' '], by decide, List.forall_mem_singleton.mpr rfl⟩
  let opening : Opening := ⟨⟨[], List.forall_mem_nil _⟩, none, gap, name,
    ⟨")\n".toList, mt MentionsFunction.isInfix (by decide)⟩⟩
  let second : Opening := ⟨⟨[], List.forall_mem_nil _⟩, some gap, gap, run,
    ⟨"é)\n".toList, mt MentionsFunction.isInfix (by decide)⟩⟩
  have hname : opening.line = "function M()\n".toList := by decide +kernel
  have hrun : second.line = "local function M.run(é)\n".toList := by decide +kernel
  have hlines : Text.lines source.toList = script.lines := by decide +kernel
  have hopens : script.OnlyOpens := by
    have hclose : ¬MentionsFunction close.val := mt MentionsFunction.isInfix (by decide)
    have hcall : ¬MentionsFunction "  M()\n".toList := mt MentionsFunction.isInfix (by decide)
    simp only [Script.OnlyOpens, script, Script.lines, List.forall_mem_cons, List.cons_append,
      List.nil_append]
    exact ⟨fun _ => ⟨_, hname⟩, fun h => absurd h hclose, fun _ => ⟨_, hrun⟩,
      fun h => absurd h hcall, fun h => absurd h hclose, fun _ h => absurd h List.not_mem_nil⟩
  have hfirst : script.NamesFirst name := by
    intro before line after hsplit hbeyond
    cases before with
    | nil =>
      obtain ⟨rfl, -⟩ := List.cons_eq_cons.mp hsplit
      rcases hbeyond.isInfix with h | h
      · exact absurd h (by decide)
      · exact absurd h (by decide)
    | cons first before =>
      obtain ⟨rfl, -⟩ := List.cons_eq_cons.mp hsplit
      exact ⟨_, List.mem_cons_self, opening, hname, rfl⟩
  exact ⟨hlines, hopens, hfirst, (locate_declared hlines hopens name).2 hfirst⟩

/-- A field of a table is passed off as the table. -/
theorem locate_declared_passed :
    let source := "function M.run()\nend\nfunction M()\nend\n"
    let base : Identifier := ⟨"M".toList, by decide, List.all_eq_true.mp (by decide)⟩
    let name : DeclaredName := ⟨base, [], none⟩
    let close : LineOf .terminator := ⟨"end\n".toList, by decide⟩
    let script : Script :=
      .function ⟨"function M.run()\n".toList, by decide⟩ .empty close
        (.function ⟨"function M()\n".toList, by decide⟩ .empty close .empty)
    Text.lines source.toList = script.lines ∧ script.OnlyOpens ∧
      ¬SelectsFirst source script name.query (Opens name) := by
  intro source base name close script
  let field : Identifier := ⟨"run".toList, by decide, List.all_eq_true.mp (by decide)⟩
  let run : DeclaredName := ⟨base, [field], none⟩
  let gap : Gap := ⟨[' '], by decide, List.forall_mem_singleton.mpr rfl⟩
  let opening (name : DeclaredName) : Opening := ⟨⟨[], List.forall_mem_nil _⟩, none, gap, name,
    ⟨")\n".toList, mt MentionsFunction.isInfix (by decide)⟩⟩
  have hrun : (opening run).line = "function M.run()\n".toList := by decide +kernel
  have hname : (opening name).line = "function M()\n".toList := by decide +kernel
  refine ⟨by decide +kernel, ?_, ?_⟩
  · have hclose : ¬MentionsFunction close.val := mt MentionsFunction.isInfix (by decide)
    simp only [Script.OnlyOpens, script, Script.lines, List.forall_mem_cons, List.cons_append,
      List.nil_append]
    exact ⟨fun _ => ⟨_, hrun⟩, fun h => absurd h hclose, fun _ => ⟨_, hname⟩,
      fun h => absurd h hclose, fun _ h => absurd h List.not_mem_nil⟩
  · rintro (⟨before, definition, after, -, hopens, -, hlocate⟩ | ⟨hnone, -⟩)
    · have hspan : locate source name.query = .ok ⟨0, 21, "function M.run()\nend\n"⟩ := by
        decide +kernel
      rw [hspan, Except.ok.injEq] at hlocate
      have htext : definition.lines.flatten = "function M.run()\nend\n".toList := by
        rw [← String.toList_ofList (l := definition.lines.flatten)]
        exact congrArg (fun span => span.text.toList) hlocate.symm
      have hheader : definition.header.val <:+: definition.lines.flatten :=
        ⟨[], (definition.body.lines ++ [definition.terminator.val]).flatten, rfl⟩
      have hinfix := hopens.isInfix.trans hheader
      rw [htext] at hinfix
      exact absurd hinfix (by decide)
    · refine hnone "function M()\n".toList ?_ ⟨opening name, hname, rfl⟩
      decide +kernel

end

end ScriptMailbox.Source
