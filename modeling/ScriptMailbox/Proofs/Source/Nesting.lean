import ScriptMailbox.Proofs.Source.Locating

/-!
# Well-nested scripts

A well-nested script is a forest: lines that neither open nor close anything, and definitions of
functions, each with a header, a script of its own, and a terminator. Counting the functions that
are open finds the end of every definition (`body?_script`), at any depth and among any siblings
(`locate_render`).
-/

namespace ScriptMailbox.Source

/-- A line of some kind. -/
abbrev LineOf (kind : LineKind) :=
  { line : List Char // LineKind.ofLine line = kind }

/-- A well-nested script. -/
inductive Script
  | empty
  /-- A line that belongs to no function but those around it. -/
  | plain (line : LineOf .other) (rest : Script)
  /-- The definition of a function, and what follows it. -/
  | function (header : LineOf .header) (body : Script) (terminator : LineOf .terminator)
    (rest : Script)

/-- The lines of a script, one after the other. -/
def Script.lines : Script → List (List Char)
  | empty => []
  | plain line rest => line.val :: rest.lines
  | function header body terminator rest =>
    header.val :: body.lines ++ terminator.val :: rest.lines

/-- The text of a script. -/
def Script.render (script : Script) : String :=
  String.ofList script.lines.flatten

/-- The definition of a function. -/
structure Definition where
  header : LineOf .header
  body : Script
  terminator : LineOf .terminator

namespace Definition

/-- The lines of a definition, its header and its terminator included. -/
def lines (definition : Definition) : List (List Char) :=
  definition.header.val :: (definition.body.lines ++ [definition.terminator.val])

/-- The text of a definition. -/
def render (definition : Definition) : String :=
  String.ofList definition.lines.flatten

/-- The span of a definition that stands behind some lines. -/
def spanBehind (definition : Definition) (before : List (List Char)) : Span where
  start := (String.ofList before.flatten).utf8ByteSize
  stop := (String.ofList before.flatten).utf8ByteSize + definition.render.utf8ByteSize
  text := definition.render

/-- The span of a definition is that of its lines. -/
theorem spanOfLines_eq (definition : Definition) (before : List (List Char)) :
    spanOfLines before definition.lines = definition.spanBehind before := by
  simp only [spanOfLines, spanBehind, render, byteLength_eq]

end Definition

/-- Where a definition stands in a script: behind some lines and before others, as a part of the
script itself or of the body of another definition. -/
inductive Script.Has : Script → List (List Char) → Definition → List (List Char) → Prop
  | here (definition : Definition) (rest : Script) :
    Has (.function definition.header definition.body definition.terminator rest) [] definition
      rest.lines
  | inside {header : LineOf .header} {body : Script} {terminator : LineOf .terminator}
    {rest : Script} {before after : List (List Char)} {definition : Definition}
    (h : Has body before definition after) :
    Has (.function header body terminator rest) (header.val :: before) definition
      (after ++ terminator.val :: rest.lines)
  | behindFunction {header : LineOf .header} {body : Script} {terminator : LineOf .terminator}
    {rest : Script} {before after : List (List Char)} {definition : Definition}
    (h : Has rest before definition after) :
    Has (.function header body terminator rest)
      (header.val :: body.lines ++ terminator.val :: before) definition after
  | behindPlain {line : LineOf .other} {rest : Script} {before after : List (List Char)}
    {definition : Definition} (h : Has rest before definition after) :
    Has (.plain line rest) (line.val :: before) definition after

variable {script : Script} {definition : Definition} {line : List Char}
  {before after : List (List Char)}

/-- The lines of a script are those around a definition and its own. -/
theorem Script.Has.lines_eq (h : script.Has before definition after) :
    script.lines = before ++ definition.lines ++ after := by
  induction h with
  | here definition rest => simp [Script.lines, Definition.lines]
  | inside _ ih => simp [Script.lines, ih]
  | behindFunction _ ih => simp [Script.lines, ih]
  | behindPlain _ ih => simp [Script.lines, ih]

/-! ## Counting -/

/-- Behind a script as many functions are open as before it. -/
theorem body?_script (script : Script) (inner : ℕ) (rest : List (List Char)) :
    body? inner (script.lines ++ rest) = (body? inner rest).map (script.lines ++ ·) := by
  induction script generalizing inner rest with
  | empty => exact Option.map_id'.symm
  | plain line more ih =>
    rw [Script.lines, List.cons_append, body?_other inner _ line.property, ih, Option.map_map]
    rfl
  | function header body terminator more ihbody ihmore =>
    rw [Script.lines, List.append_assoc, List.cons_append, body?_header inner _ header.property,
      ihbody, List.cons_append, body?_terminator_succ inner _ terminator.property, ihmore]
    simp [Option.map_map, Function.comp_def]

/-- The body of a definition ends with its terminator, for what is inside is balanced. -/
theorem body?_definition (definition : Definition) :
    body? 0 (definition.body.lines ++ [definition.terminator.val]) =
      some (definition.body.lines ++ [definition.terminator.val]) := by
  rw [body?_script, body?_terminator_zero [] definition.terminator.property, Option.map_some]

/-! ## The first line -/

/-- A line of the kind of headers is one. -/
theorem isHeader_of_ofLine (h : LineKind.ofLine line = .header) : isHeader line = true := by
  rw [LineKind.ofLine] at h
  split_ifs at h with hheader
  exact hheader

/-- A line that opens or closes something is not empty. -/
theorem ne_nil_of_ofLine (h : LineKind.ofLine line ≠ .other) : line ≠ [] := by
  rintro rfl
  exact h (by decide)

/-- The line of a header asks for that header. -/
theorem locates_line (definition : Definition) (before after : List (List Char)) :
    Locates (.line (before.length + 1)) before definition.lines after := by
  refine ⟨?_, definition.header, _, rfl, body?_definition definition⟩
  have hget : (before ++ definition.lines ++ after)[before.length]? =
      some definition.header.val := by
    simp [Definition.lines]
  rw [firstLine?, if_neg (by simp [Definition.lines]), lastHeader?, hget, Option.any_some,
    if_pos (isHeader_of_ofLine definition.header.property)]

/-- Only the last line of a script may be empty, and no definition ends with an empty line. -/
theorem Script.Has.lines_render (h : script.Has before definition after)
    (hlines : Text.AreLines script.lines) :
    Text.lines script.render.toList = before ++ definition.lines ++ after.filter (· ≠ []) := by
  rw [render, String.toList_ofList, Text.lines_flatten hlines, h.lines_eq, List.filter_append,
    List.append_left_inj, List.filter_eq_self]
  rw [h.lines_eq, Definition.lines, List.append_cons, ← List.append_assoc] at hlines
  have hclosed := hlines.left.closed_left (List.cons_ne_nil definition.terminator.val [])
  intro line hmem
  rw [Definition.lines, List.append_cons, ← List.append_assoc, List.mem_append,
    List.mem_singleton] at hmem
  rw [decide_eq_true_iff]
  rcases hmem with hmem | rfl
  · rintro rfl
    cases hclosed _ hmem
  · exact ne_nil_of_ofLine (by simp [definition.terminator.property])

/-- In a well-nested script every definition is located by the line of its header, and by every name
that its header is the first line to declare: the span starts behind the text in front of the
definition, and its text is that of the definition. -/
theorem locate_render (h : script.Has before definition after)
    (hlines : Text.AreLines script.lines) :
    locate script.render (.line (before.length + 1)) = .ok (definition.spanBehind before) ∧
      ∀ name : String, name ≠ "" → declares name.toList definition.header = true →
        (∀ line ∈ before, declares name.toList line = false) →
        locate script.render (.name name) = .ok (definition.spanBehind before) := by
  rw [← definition.spanOfLines_eq]
  refine ⟨?_, fun name hname hheader hbefore => ?_⟩
  · exact locate_of_locates (h.lines_render hlines)
      (locates_line definition before _)
  · exact locate_of_locates (h.lines_render hlines)
      (locates_name_iff.mpr ⟨hname, hbefore, definition.header, _, rfl, hheader,
        body?_definition definition⟩)

/-- A local function inside another one, behind a comment that is not ASCII; the last line of the
script lacks its line feed. -/
theorem locate_render_local :
    let body : Script := .plain ⟨"  return 1\n".toList, by decide⟩ .empty
    let inner : Definition := ⟨⟨"local function g()\n".toList, by decide⟩, body,
      ⟨"end\n".toList, by decide⟩⟩
    let outer : Definition := ⟨⟨"function f()\n".toList, by decide⟩,
      .function inner.header inner.body inner.terminator .empty, ⟨"end".toList, by decide⟩⟩
    let script : Script := .plain ⟨"-- é\n".toList, by decide⟩
      (.function outer.header outer.body outer.terminator .empty)
    script.render = "-- é\nfunction f()\nlocal function g()\n  return 1\nend\nend" ∧
      locate script.render (.line 3) = .ok ⟨19, 53, "local function g()\n  return 1\nend\n"⟩ ∧
      locate script.render (.name "g") =
        .ok ⟨19, 53, "local function g()\n  return 1\nend\n"⟩ := by
  intro body inner outer script
  have hhas : script.Has ["-- é\n".toList, "function f()\n".toList] inner ["end".toList] :=
    .behindPlain (.inside (.here inner .empty))
  have hlines : Text.AreLines script.lines := ⟨by decide, by decide⟩
  have hspan : inner.spanBehind ["-- é\n".toList, "function f()\n".toList] =
      ⟨19, 53, "local function g()\n  return 1\nend\n"⟩ := by decide +kernel
  obtain ⟨hline, hname⟩ := locate_render hhas hlines
  rw [hspan] at hline hname
  exact ⟨by decide +kernel, hline, hname "g" (by decide) (by decide) (by decide)⟩

end ScriptMailbox.Source
