import ScriptMailbox.Proofs.Source.Kinds
import ScriptMailbox.Proofs.Source.Splicing
import ScriptMailbox.Proofs.Text.Encoding

/-!
# Inserting does not disturb what is located

Lines that neither open nor close a function and do not declare a name are quiet: wherever they are
inserted, the name is located where it was, moved by their length if it stands behind them, and with
them inside if it stands around them (`locate_insert`).
-/

namespace ScriptMailbox.Source

variable {source text name : String} {inner : ℕ} {body rest quiet before found after left right :
  List (List Char)}

/-! ## Quiet lines -/

/-- Whether lines neither open nor close a function, nor declare a name. -/
def AreQuiet (name : String) (lines : List (List Char)) : Prop :=
  ∀ line ∈ lines, LineKind.ofLine line = .other ∧ declares name.toList line = false

/-- A text whose lines are quiet is inserted as quiet lines. -/
theorem AreQuiet.concat {text : List Char} (h : AreQuiet name (Text.lines text)) :
    AreQuiet name (Text.lines (text ++ ['\n'])) := by
  intro line hline
  rcases mem_lines_concat hline with hline | ⟨start, rfl | hstart, rfl⟩
  · exact h line hline
  · exact ⟨by decide, by rw [declares_concat (by decide)]; rfl⟩
  · rw [ofLine_concat (by decide), declares_concat (by decide)]
    exact h start hstart

/-- Quiet lines in a body make no difference to where it ends. -/
theorem body?_quiet_append (h : AreQuiet name quiet) (inner : ℕ) (rest : List (List Char)) :
    body? inner (quiet ++ rest) = (body? inner rest).map (quiet ++ ·) := by
  induction quiet with
  | nil => exact Option.map_id'.symm
  | cons line quiet ih =>
    obtain ⟨hline, hquiet⟩ := List.forall_mem_cons.mp h
    rw [List.cons_append, body?_other inner _ hline.1, ih hquiet, Option.map_map]
    rfl

/-- Quiet lines inside a function belong to it. -/
theorem body?_insert (hquiet : AreQuiet name quiet) (hright : right ≠ [])
    (h : body? inner (left ++ right) = some (left ++ right)) :
    body? inner (left ++ quiet ++ right) = some (left ++ quiet ++ right) := by
  induction left generalizing inner with
  | nil =>
    rw [List.nil_append] at h
    rw [List.nil_append, body?_quiet_append hquiet, h, Option.map_some]
  | cons line left ih =>
    simp only [List.cons_append] at h ⊢
    rcases body?_cons inner line with hends | ⟨deeper, hgoes⟩
    · rw [hends, Option.some.injEq, List.cons.injEq] at h
      exact absurd (List.append_eq_nil_iff.mp h.2.symm).2 hright
    · rw [hgoes, Option.map_eq_some_iff] at h
      obtain ⟨more, hmore, heq⟩ := h
      obtain rfl : more = left ++ right := List.cons_injective heq
      rw [hgoes, ih hmore, Option.map_some]

/-! ## Where a name is located afterwards -/

/-- What becomes of a located function when lines are inserted behind `left`: it moves, or stays, or
takes the lines in. -/
inductive Shifts (left quiet : List (List Char)) :
    List (List Char) → List (List Char) → List (List Char) → List (List Char) → Prop
  | moved (between found : List (List Char)) :
    Shifts left quiet (left ++ between) found (left ++ quiet ++ between) found
  | kept {before found : List (List Char)} (between : List (List Char))
    (h : left = before ++ found ++ between) :
    Shifts left quiet before found before found
  | grown {before first last : List (List Char)} (h : left = before ++ first) (hfirst : first ≠ [])
    (hlast : last ≠ []) :
    Shifts left quiet before (first ++ last) before (first ++ quiet ++ last)

/-- With quiet lines inserted anywhere the same function is located, shifted accordingly. -/
theorem Locates.insert (h : Locates (.name name) before found after)
    (hquiet : AreQuiet name quiet) (hlines : before ++ found ++ after = left ++ right) :
    ∃ before' found' after', left ++ quiet ++ right = before' ++ found' ++ after' ∧
      Locates (.name name) before' found' after' ∧
      Shifts left quiet before found before' found' := by
  obtain ⟨hname, hbefore, line, body, rfl, hline, hcloses⟩ := locates_name_iff.mp h
  have hquietly : ∀ line ∈ quiet, declares name.toList line = false :=
    fun line hmem => (hquiet line hmem).2
  rcases List.append_eq_append_iff.mp (List.append_assoc .. ▸ hlines) with
    ⟨upper, rfl, hstays⟩ | ⟨between, rfl, rfl⟩
  swap
  · -- the lines come before the function
    refine ⟨left ++ quiet ++ between, _, after, by simp, locates_name_iff.mpr ⟨hname, ?_, line,
      body, rfl, hline, hcloses⟩, .moved between _⟩
    obtain ⟨hleft, hbetween⟩ := List.forall_mem_append.mp hbefore
    exact List.forall_mem_append.mpr ⟨List.forall_mem_append.mpr ⟨hleft, hquietly⟩, hbetween⟩
  rcases List.append_eq_append_iff.mp hstays with ⟨between, rfl, rfl⟩ | ⟨last, hfound, rfl⟩
  · -- the lines come behind the function
    exact ⟨before, _, between ++ quiet ++ right, by simp, locates_name_iff.mpr ⟨hname, hbefore,
      line, body, rfl, hline, hcloses⟩, .kept between (by simp)⟩
  by_cases hlast : last = []
  · subst hlast
    rw [List.append_nil] at hfound
    subst hfound
    exact ⟨before, _, quiet ++ after, by simp, locates_name_iff.mpr ⟨hname, hbefore, line, body,
      rfl, hline, hcloses⟩, .kept [] (by simp)⟩
  cases upper with
  | nil =>
    obtain rfl : line :: body = last := hfound
    have hmoved : Shifts (before ++ []) quiet (before ++ [] ++ []) (line :: body)
        (before ++ [] ++ quiet ++ []) (line :: body) := .moved [] _
    simp only [List.append_nil] at hmoved ⊢
    exact ⟨before ++ quiet, _, after, by simp, locates_name_iff.mpr ⟨hname,
      List.forall_mem_append.mpr ⟨hbefore, hquietly⟩, line, body, rfl, hline, hcloses⟩, hmoved⟩
  | cons first upper =>
    -- the lines come inside the function, behind its first line
    obtain ⟨rfl, rfl⟩ := List.cons_eq_cons.mp hfound
    refine ⟨before, line :: upper ++ quiet ++ last, after, by simp, locates_name_iff.mpr ⟨hname,
      hbefore, line, upper ++ quiet ++ last, by simp, hline, body?_insert hquiet hlast hcloses⟩, ?_⟩
    exact .grown rfl (List.cons_ne_nil line upper) hlast

/-! ## Bytes -/

/-- The bytes of two texts come one after the other. -/
theorem encode_ofList_append (text more : List Char) :
    Text.Utf8.encode (String.ofList (text ++ more)) =
      Text.Utf8.encode (String.ofList text) ++ Text.Utf8.encode (String.ofList more) := by
  rw [Text.Utf8.encode_ofList, Text.Utf8.encode_ofList, Text.Utf8.encode_ofList,
    List.flatMap_append]

/-- A text has as many bytes as are counted for it. -/
theorem length_encode_ofList (text : List Char) :
    (Text.Utf8.encode (String.ofList text)).length = byteLength text :=
  (byteLength_eq text).symm

/-- The bytes of a source fall into those of its parts. -/
theorem encode_take_drop {before text after : List Char}
    (hsource : source.toList = before ++ text ++ after) :
    (Text.Utf8.encode source).take (byteLength before) =
        Text.Utf8.encode (String.ofList before) ∧
      ((Text.Utf8.encode source).take (byteLength (before ++ text))).drop (byteLength before) =
        Text.Utf8.encode (String.ofList text) ∧
      (Text.Utf8.encode source).drop (byteLength (before ++ text)) =
        Text.Utf8.encode (String.ofList after) := by
  have hbytes : Text.Utf8.encode source = Text.Utf8.encode (String.ofList before) ++
      (Text.Utf8.encode (String.ofList text) ++ Text.Utf8.encode (String.ofList after)) := by
    rw [← encode_ofList_append, ← encode_ofList_append, ← List.append_assoc, ← hsource,
      String.ofList_toList]
  rw [hbytes, byteLength_append, ← length_encode_ofList, ← length_encode_ofList]
  refine ⟨List.take_left, ?_, ?_⟩
  · rw [List.take_length_add_append, List.drop_left, List.take_left]
  · rw [← List.append_assoc, ← List.length_append, List.drop_left]

/-- The bytes of a source between the offsets of a span. -/
def bytesBetween (source : String) (span : Span) : Bytes :=
  ((Text.Utf8.encode source).take span.stop).drop span.start

/-- The text of a located span is what stands between its offsets. -/
theorem encode_text_spanOfLines (hlines : Text.lines source.toList = before ++ found ++ after) :
    Text.Utf8.encode (spanOfLines before found).text =
      bytesBetween source (spanOfLines before found) := by
  have hsource : source.toList = before.flatten ++ found.flatten ++ after.flatten := by
    rw [flatten_toList hlines, List.flatten_append, List.flatten_append]
  have hstop : (spanOfLines before found).stop = byteLength (before.flatten ++ found.flatten) :=
    (byteLength_append before.flatten found.flatten).symm
  rw [bytesBetween, hstop]
  exact (encode_take_drop hsource).2.1.symm

/-- An inserted text has one byte more, its line feed. -/
theorem byteLength_inserted (text : String) :
    byteLength (Text.lines (text.toList ++ ['\n'])).flatten = text.utf8ByteSize + 1 := by
  rw [Text.flatten_lines, byteLength_append, byteLength_eq, String.ofList_toList]
  rfl

/-- The offset at which a text is inserted behind some lines of a span. -/
def insertionOffset (span : Span) (afterLine : ℕ) : ℕ :=
  span.start + (String.ofList (span.lines.take afterLine).flatten).utf8ByteSize

/-- A text is inserted behind the lines that are named. -/
theorem insertionOffset_spanOfLines
    (hlines : Text.lines source.toList = before ++ (left ++ right) ++ after) :
    insertionOffset (spanOfLines before (left ++ right)) left.length =
      byteLength (before ++ left).flatten := by
  rw [insertionOffset, lines_spanOfLines hlines, List.take_left, ← byteLength_eq,
    List.flatten_append, byteLength_append]
  rfl

/-! ## Offsets afterwards -/

/-- A function has bytes. -/
theorem byteLength_flatten_pos (hne : found ≠ []) (h : ∀ line ∈ found, line ≠ []) :
    0 < byteLength found.flatten := by
  obtain ⟨line, rest, rfl⟩ := List.exists_cons_of_ne_nil hne
  have := byteLength_pos (h line List.mem_cons_self)
  rw [List.flatten_cons, byteLength_append]
  omega

/-- The spans of a function before and after an insertion, by where the lines are inserted. -/
theorem Shifts.spans {before' found' : List (List Char)}
    (h : Shifts left quiet before found before' found')
    (hne : found ≠ []) (hfound : ∀ line ∈ found, line ≠ []) :
    let span := spanOfLines before found
    let span' := spanOfLines before' found'
    let offset := byteLength left.flatten
    let width := byteLength quiet.flatten
    (span.stop ≤ offset → span' = span) ∧
      (offset ≤ span.start → span' = ⟨span.start + width, span.stop + width, span.text⟩) ∧
      (span.start < offset → offset < span.stop →
        span'.start = span.start ∧ span'.stop = span.stop + width) := by
  have hpos := byteLength_flatten_pos hne hfound
  cases h with
  | moved between =>
    simp only [spanOfLines, List.flatten_append, byteLength_append, Span.mk.injEq]
    exact ⟨fun _ => by omega, fun _ => ⟨by omega, by omega, trivial⟩, fun _ _ => by omega⟩
  | kept between hleft =>
    subst hleft
    simp only [spanOfLines, List.flatten_append, byteLength_append, Span.mk.injEq]
    exact ⟨fun _ => trivial, fun _ => by omega, fun _ _ => by omega⟩
  | @grown _ first last hleft hfirst hlast =>
    subst hleft
    obtain ⟨hlines, hlines'⟩ := List.forall_mem_append.mp hfound
    have hfirst' := byteLength_flatten_pos hfirst hlines
    have hlast' := byteLength_flatten_pos hlast hlines'
    simp only [spanOfLines, List.flatten_append, byteLength_append, Span.mk.injEq, true_and]
    exact ⟨fun _ => by omega, fun _ => by omega, fun _ _ => by omega⟩

/-- The bytes of the patched source are those of the text between those of the source. -/
theorem encode_sourceWith (hlines : Text.lines source.toList = left ++ right) (text : String) :
    Text.Utf8.encode (sourceWith left text right) =
      (Text.Utf8.encode source).take (byteLength left.flatten) ++ Text.Utf8.encode text ++
        10 :: (Text.Utf8.encode source).drop (byteLength left.flatten) := by
  have hsource : source.toList = [] ++ left.flatten ++ right.flatten := by
    rw [flatten_toList hlines, List.flatten_append, List.nil_append]
  obtain ⟨-, hfront, hback⟩ := encode_take_drop hsource
  have hfeed : '\n' :: right.flatten = ['\n'] ++ right.flatten := rfl
  rw [List.nil_append, byteLength, List.drop_zero] at hfront
  rw [List.nil_append] at hback
  rw [sourceWith, hfeed, hfront, hback]
  simp only [encode_ofList_append, String.ofList_toList]
  rfl

/-- Whatever the positions of two functions that are located by name, and of the line of the first
behind which a text of quiet lines is inserted: the other function is located where it was if it
ends before the insertion; it is moved by the length of what is inserted if it starts behind it; and
otherwise it grows by that length, and its text is what stands between its offsets then. -/
theorem locate_insert {name other : String} {span place : Span} {afterLine : ℕ}
    (hspan : locate source (.name name) = .ok span)
    (hplace : locate source (.name other) = .ok place) (hline : afterLine < span.lineCount)
    (hkind : ∀ line ∈ Text.lines text.toList, LineKind.ofLine line = .other)
    (hdeclares : ∀ line ∈ Text.lines text.toList, declares other.toList line = false) :
    let offset := insertionOffset span afterLine
    let width := text.utf8ByteSize + 1
    ∃ patched found, insert source span text afterLine = .ok patched ∧
      Text.Utf8.encode patched =
        (Text.Utf8.encode source).take offset ++ Text.Utf8.encode text ++
          10 :: (Text.Utf8.encode source).drop offset ∧
      locate patched (.name other) = .ok found ∧
      (place.stop ≤ offset → found = place) ∧
      (offset ≤ place.start → found = ⟨place.start + width, place.stop + width, place.text⟩) ∧
      (place.start < offset → offset < place.stop →
        found.start = place.start ∧ found.stop = place.stop + width ∧
          Text.Utf8.encode found.text = bytesBetween patched found) := by
  obtain ⟨before, lines, after, hlines, -, rfl⟩ := locate_eq_ok_iff.mp hspan
  obtain ⟨before', lines', after', hlines', hlocates, rfl⟩ := locate_eq_ok_iff.mp hplace
  rw [Span.lineCount, lines_spanOfLines hlines] at hline
  -- the insertion splits the lines of the span, and thereby those of the source
  obtain ⟨left, right, rfl, rfl⟩ : ∃ left right, lines = left ++ right ∧ left.length = afterLine :=
    ⟨lines.take afterLine, lines.drop afterLine, (List.take_append_drop ..).symm,
      List.length_take_of_le hline.le⟩
  have hright : right ≠ [] := by
    rintro rfl
    simp at hline
  have hoffset := insertionOffset_spanOfLines hlines
  have hsplit : Text.lines source.toList = (before ++ left) ++ (right ++ after) := by
    rw [hlines]
    simp [List.append_assoc]
  -- quiet lines close and open nothing, so the other function only shifts or grows
  have hquiet : AreQuiet other (Text.lines text.toList) :=
    fun line hmem => ⟨hkind line hmem, hdeclares line hmem⟩
  obtain ⟨before'', lines'', after'', hnew, hlocates', hshifts⟩ :=
    hlocates.insert hquiet.concat (hlines'.symm.trans hsplit)
  have hpatched := (lines_sourceWith hsplit (List.append_ne_nil_of_left_ne_nil hright after)
    text).trans hnew
  have hfound : ∀ line ∈ lines', line ≠ [] := fun line hmem =>
    ne_nil_of_lines_eq hlines' line (by simp [hmem])
  obtain ⟨hbefore, hbehind, haround⟩ := hshifts.spans hlocates.ne_nil hfound
  rw [byteLength_inserted] at hbehind haround
  intro offset width
  refine ⟨_, spanOfLines before'' lines'', insert_inside hlines hright text, ?_,
    locate_of_locates hpatched hlocates', ?_⟩
  · rw [show offset = byteLength (before ++ left).flatten from hoffset]
    exact encode_sourceWith hsplit text
  · rw [show offset = byteLength (before ++ left).flatten from hoffset]
    exact ⟨hbefore, hbehind, fun hstart hstop => ⟨(haround hstart hstop).1,
      (haround hstart hstop).2, encode_text_spanOfLines hpatched⟩⟩

/-- A line inserted into a function makes the function around it longer. -/
theorem locate_insert_nested :
    let source := "function f()\n  function g()\n  end\nend\n"
    let patched := "function f()\n  function g()\n    é()\n  end\nend\n"
    let inner : Span := ⟨13, 34, "  function g()\n  end\n"⟩
    insert source inner "    é()" 1 = .ok patched ∧
      ∃ outer, locate patched (.name "f") = .ok outer ∧ outer.start = 0 ∧ outer.stop = 47 ∧
        Text.Utf8.encode outer.text = bytesBetween patched outer := by
  intro source patched inner
  have hinner : locate source (.name "g") = .ok inner := by decide +kernel
  have houter : locate source (.name "f") = .ok ⟨0, 38, source⟩ := by decide +kernel
  have hpatched : insert source inner "    é()" 1 = .ok patched := by decide +kernel
  have hkind : ∀ line ∈ Text.lines "    é()".toList, LineKind.ofLine line = .other := by
    decide +kernel
  have hdeclares : ∀ line ∈ Text.lines "    é()".toList, declares "f".toList line = false := by
    decide +kernel
  obtain ⟨_, outer, hinsert, -, hlocate, -, -, haround⟩ :=
    locate_insert hinner houter (by decide +kernel : 1 < inner.lineCount) hkind hdeclares
  cases hpatched.symm.trans hinsert
  exact ⟨hpatched, outer, hlocate, haround (by decide +kernel) (by decide +kernel)⟩

end ScriptMailbox.Source
