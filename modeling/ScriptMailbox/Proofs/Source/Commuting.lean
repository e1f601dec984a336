import ScriptMailbox.Proofs.Source.Editing
import ScriptMailbox.Source.Patch

/-!
# Patches of different functions

A patch inserts its text inside one function. A function that lies elsewhere is located afresh with
the text that it had, whatever the inserted text opens or closes, as long as this text does not
declare the function's name: the search for its end starts behind the text or ends before it. So
patches of two disjoint functions can be made in either order (`patchContent_comm`).
-/

namespace ScriptMailbox.Source

open SourceTree (patchContent)

variable {source text name : String} {query : Query}
  {before found between after silent left right : List (List Char)}

/-! ## Silent lines -/

/-- Whether no line declares a name. The lines may open and close functions of other names. -/
def AreSilent (name : String) (lines : List (List Char)) : Prop :=
  ∀ line ∈ lines, declares name.toList line = false

/-- A text whose lines are silent is inserted as silent lines. -/
theorem AreSilent.concat {text : List Char} (h : AreSilent name (Text.lines text)) :
    AreSilent name (Text.lines (text ++ ['\n'])) := by
  intro line hline
  rcases mem_lines_concat hline with hline | ⟨start, hstart, rfl⟩
  · exact h line hline
  · rw [declares_concat (by decide)]
    rcases hstart with rfl | hstart
    · rfl
    · exact h start hstart

/-- What stands behind a function does not matter. -/
theorem Locates.with_after (h : Locates (.name name) before found after)
    (other : List (List Char)) : Locates (.name name) before found other :=
  locates_name_iff.mpr (locates_name_iff.mp h)

/-- Silent lines in front of a function do not matter either. -/
theorem Locates.insert_before (h : Locates (.name name) (left ++ between) found after)
    (hsilent : AreSilent name silent) :
    Locates (.name name) (left ++ silent ++ between) found after := by
  obtain ⟨hname, hbefore, hfound⟩ := locates_name_iff.mp h
  obtain ⟨hleft, hbetween⟩ := List.forall_mem_append.mp hbefore
  refine locates_name_iff.mpr ⟨hname, ?_, hfound⟩
  exact List.forall_mem_append.mpr ⟨List.forall_mem_append.mpr ⟨hleft, hsilent⟩, hbetween⟩

/-! ## Disjoint functions -/

/-- Of two stretches of a source, the one that starts behind the end of the other has it in
front. -/
theorem exists_between {before' found' after' : List (List Char)}
    (hlines : Text.lines source.toList = before ++ found ++ after)
    (hlines' : Text.lines source.toList = before' ++ found' ++ after')
    (hstop : (spanOfLines before found).stop ≤ (spanOfLines before' found').start) :
    ∃ between, before' = before ++ found ++ between := by
  have hboth : (before ++ found) ++ after = before' ++ (found' ++ after') := by
    rw [← hlines, hlines', List.append_assoc]
  rcases List.append_eq_append_iff.mp hboth with ⟨between, hbefore', -⟩ | ⟨last, hfound, -⟩
  · exact ⟨between, hbefore'⟩
  · -- then nothing can be left of the first stretch behind the start of the second one
    have hlength : byteLength (before ++ found).flatten =
        byteLength before'.flatten + byteLength last.flatten := by
      rw [hfound, List.flatten_append, byteLength_append]
    rw [List.flatten_append, byteLength_append] at hlength
    have hlast : byteLength last.flatten = 0 := by
      simp only [spanOfLines] at hstop
      omega
    have hempty : last = [] := by
      by_contra hne
      have hmem : ∀ line ∈ last, line ≠ [] := by
        intro line hline
        apply ne_nil_of_lines_eq hlines line
        rw [hfound]
        simp [hline]
      have hpos := byteLength_flatten_pos hne hmem
      omega
    exact ⟨[], by rw [hfound, hempty, List.append_nil, List.append_nil]⟩

/-! ## Patches -/

/-- A patch that does not go behind the last line of its function inserts its text between two
lines of it. -/
theorem patchContent_eq_ok (path : Path) (text : String)
    (hlines : Text.lines source.toList = before ++ (left ++ right) ++ after)
    (h : Locates query before (left ++ right) after) (hright : right ≠ []) :
    patchContent path source query text left.length =
      .ok ⟨path, sourceWith (before ++ left) text (right ++ after),
        spanOfLines before (left ++ right)⟩ := by
  have hinsert := insert_inside hlines hright text
  simp only [patchContent, locate_of_locates hlines h, hinsert]

/-- The text of a span is that of its lines, wherever they start. -/
theorem text_spanOfLines (before found : List (List Char)) :
    (spanOfLines before found).text = String.ofList found.flatten :=
  rfl

/-- Two functions, one behind the other, are patched in either order. The second one is located
behind the text that goes into the first, and the first as if nothing had happened. -/
theorem patchContent_in_order (path : Path) {first second text : String} (text' : String)
    {left' right' : List (List Char)}
    (hlines : Text.lines source.toList =
      before ++ (left ++ right) ++ between ++ (left' ++ right') ++ after)
    (hfirst : Locates (.name first) before (left ++ right) [])
    (hsecond : Locates (.name second) (before ++ (left ++ right) ++ between) (left' ++ right') [])
    (hright : right ≠ []) (hright' : right' ≠ [])
    (hsilent : AreSilent second (Text.lines text.toList)) :
    ∃ once once' both moved moved',
      patchContent path source (.name first) text left.length =
          .ok ⟨path, once, spanOfLines before (left ++ right)⟩ ∧
        patchContent path once (.name second) text' left'.length = .ok ⟨path, both, moved'⟩ ∧
        patchContent path source (.name second) text' left'.length =
          .ok ⟨path, once', spanOfLines (before ++ (left ++ right) ++ between)
            (left' ++ right')⟩ ∧
        patchContent path once' (.name first) text left.length = .ok ⟨path, both, moved⟩ ∧
        moved.text = (spanOfLines before (left ++ right)).text ∧
        moved'.text =
          (spanOfLines (before ++ (left ++ right) ++ between) (left' ++ right')).text := by
  let inserted := Text.lines (text.toList ++ ['\n'])
  let inserted' := Text.lines (text'.toList ++ ['\n'])
  have hlinesFirst : Text.lines source.toList =
      before ++ (left ++ right) ++ (between ++ (left' ++ right') ++ after) := by
    simp only [hlines, List.append_assoc]
  -- the first function, in the source as it is
  have honce := patchContent_eq_ok path text hlinesFirst (hfirst.with_after _) hright
  have hlinesOnce : Text.lines (sourceWith (before ++ left) text
      (right ++ (between ++ (left' ++ right') ++ after))).toList =
        before ++ left ++ inserted ++ (right ++ between) ++ (left' ++ right') ++ after := by
    have hsplit : Text.lines source.toList =
        (before ++ left) ++ (right ++ (between ++ (left' ++ right') ++ after)) := by
      simp only [hlines, List.append_assoc]
    rw [lines_sourceWith hsplit (List.append_ne_nil_of_left_ne_nil hright _)]
    simp only [inserted, List.append_assoc]
  -- the second function, behind what has been inserted
  have hmoved : Locates (.name second) (before ++ left ++ inserted ++ (right ++ between))
      (left' ++ right') after := by
    apply Locates.insert_before _ hsilent.concat
    have hbefore : before ++ left ++ (right ++ between) =
        before ++ (left ++ right) ++ between := by
      simp only [List.append_assoc]
    rw [hbefore]
    exact hsecond.with_after after
  have hboth := patchContent_eq_ok path text' hlinesOnce hmoved hright'
  -- the second function, in the source as it is
  have honce' := patchContent_eq_ok path text' hlines (hsecond.with_after after) hright'
  have hlinesOnce' : Text.lines (sourceWith (before ++ (left ++ right) ++ between ++ left') text'
      (right' ++ after)).toList =
        before ++ (left ++ right) ++ (between ++ left' ++ inserted' ++ right' ++ after) := by
    have hsplit : Text.lines source.toList =
        (before ++ (left ++ right) ++ between ++ left') ++ (right' ++ after) := by
      simp only [hlines, List.append_assoc]
    rw [lines_sourceWith hsplit (List.append_ne_nil_of_left_ne_nil hright' _)]
    simp only [inserted', List.append_assoc]
  -- the first function, in front of what has been inserted
  have hboth' := patchContent_eq_ok path text hlinesOnce' (hfirst.with_after _) hright
  have hsame : sourceWith (before ++ left ++ inserted ++ (right ++ between) ++ left') text'
      (right' ++ after) = sourceWith (before ++ left) text
        (right ++ (between ++ left' ++ inserted' ++ right' ++ after)) := by
    simp only [sourceWith, inserted, inserted', List.flatten_append, Text.flatten_lines]
    simp only [List.append_assoc, List.cons_append, List.nil_append]
  rw [hsame] at hboth
  exact ⟨_, _, _, _, _, honce, hboth, honce', hboth', text_spanOfLines .., text_spanOfLines ..⟩

/-- A part of a span in front of a line, and the rest of it. -/
theorem exists_split_of_lt {afterLine : ℕ} {lines : List (List Char)}
    (h : afterLine < lines.length) :
    ∃ left right, lines = left ++ right ∧ left.length = afterLine ∧ right ≠ [] := by
  refine ⟨lines.take afterLine, lines.drop afterLine, (List.take_append_drop ..).symm,
    List.length_take_of_le h.le, ?_⟩
  intro hnil
  have := List.drop_eq_nil_iff.mp hnil
  omega

/-- Patches of disjoint functions that are asked for by name can be made in either order, if neither
text declares the name of the other function; the texts may open and close functions as they like.
Both orders succeed and give the same content, and the function that is patched last is located
afresh with the text that it had. -/
theorem patchContent_comm (path : Path) {first second : String} {span span' : Span}
    {text text' : String} {afterLine afterLine' : ℕ}
    (hspan : locate source (.name first) = .ok span)
    (hspan' : locate source (.name second) = .ok span')
    (hdisjoint : span.stop ≤ span'.start ∨ span'.stop ≤ span.start)
    (hline : afterLine < span.lineCount) (hline' : afterLine' < span'.lineCount)
    (hsilent : ∀ line ∈ Text.lines text.toList, declares second.toList line = false)
    (hsilent' : ∀ line ∈ Text.lines text'.toList, declares first.toList line = false) :
    ∃ once once' both moved moved',
      patchContent path source (.name first) text afterLine = .ok ⟨path, once, span⟩ ∧
        patchContent path once (.name second) text' afterLine' = .ok ⟨path, both, moved'⟩ ∧
        patchContent path source (.name second) text' afterLine' = .ok ⟨path, once', span'⟩ ∧
        patchContent path once' (.name first) text afterLine = .ok ⟨path, both, moved⟩ ∧
        moved.text = span.text ∧ moved'.text = span'.text := by
  obtain ⟨before, found, after, hlines, hlocates, rfl⟩ := locate_eq_ok_iff.mp hspan
  obtain ⟨before', found', after', hlines', hlocates', rfl⟩ := locate_eq_ok_iff.mp hspan'
  rw [Span.lineCount, lines_spanOfLines hlines] at hline
  rw [Span.lineCount, lines_spanOfLines hlines'] at hline'
  obtain ⟨left, right, rfl, rfl, hright⟩ := exists_split_of_lt hline
  obtain ⟨left', right', rfl, rfl, hright'⟩ := exists_split_of_lt hline'
  rcases hdisjoint with hstop | hstop
  · obtain ⟨between, rfl⟩ := exists_between hlines hlines' hstop
    exact patchContent_in_order path text' hlines' (hlocates.with_after [])
      (hlocates'.with_after []) hright hright' hsilent
  · obtain ⟨between, rfl⟩ := exists_between hlines' hlines hstop
    obtain ⟨once', once, both, moved', moved, honce', hboth', honce, hboth, hmoved', hmoved⟩ :=
      patchContent_in_order path text hlines (hlocates'.with_after []) (hlocates.with_after [])
        hright' hright hsilent'
    exact ⟨once, once', both, moved, moved', honce, hboth, honce', hboth', hmoved, hmoved'⟩

/-- The texts close a function that they have not opened, and open one that they do not close. -/
theorem patchContent_comm_unbalanced :
    let source := "local function f()\nend\n-- between\nfunction g()\n  return 1\nend"
    let both := "local function f()\nend -- é\nend\n-- between\nfunction g()\n  return 1\n" ++
      "function h()\nend"
    ∃ once once' moved moved',
      patchContent ⟨"a.lua"⟩ source (.name "f") "end -- é" 1 =
          .ok ⟨⟨"a.lua"⟩, once, ⟨0, 23, "local function f()\nend\n"⟩⟩ ∧
        patchContent ⟨"a.lua"⟩ once (.name "g") "function h()" 2 = .ok ⟨⟨"a.lua"⟩, both, moved'⟩ ∧
        patchContent ⟨"a.lua"⟩ source (.name "g") "function h()" 2 =
          .ok ⟨⟨"a.lua"⟩, once', ⟨34, 61, "function g()\n  return 1\nend"⟩⟩ ∧
        patchContent ⟨"a.lua"⟩ once' (.name "f") "end -- é" 1 = .ok ⟨⟨"a.lua"⟩, both, moved⟩ ∧
        moved.text = "local function f()\nend\n" ∧
        moved'.text = "function g()\n  return 1\nend" := by
  intro source both
  have hfirst : locate source (.name "f") = .ok ⟨0, 23, "local function f()\nend\n"⟩ := by
    decide +kernel
  have hsecond : locate source (.name "g") =
      .ok ⟨34, 61, "function g()\n  return 1\nend"⟩ := by
    decide +kernel
  have hline : 1 < (⟨0, 23, "local function f()\nend\n"⟩ : Span).lineCount := by decide +kernel
  have hline' : 2 < (⟨34, 61, "function g()\n  return 1\nend"⟩ : Span).lineCount := by
    decide +kernel
  have hsilent : ∀ line ∈ Text.lines "end -- é".toList, declares "g".toList line = false := by
    decide +kernel
  have hsilent' : ∀ line ∈ Text.lines "function h()".toList,
      declares "f".toList line = false := by
    decide +kernel
  obtain ⟨once, once', result, moved, moved', honce, hboth, honce', hboth', hmoved, hmoved'⟩ :=
    patchContent_comm ⟨"a.lua"⟩ hfirst hsecond (by decide) hline hline' hsilent hsilent'
  have hresult : result = both := by
    have hfixed : patchContent ⟨"a.lua"⟩ source (.name "f") "end -- é" 1 >>= (fun patched =>
        patchContent ⟨"a.lua"⟩ patched.content (.name "g") "function h()" 2) >>=
          (fun patched => .ok patched.content) = .ok both := by
      decide +kernel
    rw [honce] at hfixed
    have hlast : (patchContent ⟨"a.lua"⟩ once (.name "g") "function h()" 2 >>= fun patched =>
        .ok patched.content) = .ok both := hfixed
    rw [hboth] at hlast
    exact Except.ok.inj hlast
  subst hresult
  exact ⟨once, once', moved, moved', honce, hboth, honce', hboth', hmoved, hmoved'⟩

end ScriptMailbox.Source
