import ScriptMailbox.Proofs.Source.Editing
import ScriptMailbox.Source.Patch

/-!
# Spans that fit a source

A span need not have been located in the source that a text is inserted into: its offsets may lie
anywhere, and its text may have changed since. A text is inserted exactly into the spans that fit
their source, and what comes out is the source with the text, and perhaps one line feed in front of
it, at one place (`insert_splices`).
-/

namespace ScriptMailbox.Source

variable {source patched : String} {span : Span} {text before after : List Char}
  {lines : List (List Char)} {offset afterLine : ℕ}

/-- Whether a span is a stretch between two characters of a source, with its text there. -/
structure Fits (source : String) (span : Span) : Prop where
  start_le_stop : span.start ≤ span.stop
  start_isValid : String.Pos.Raw.IsValid source ⟨span.start⟩
  stop_isValid : String.Pos.Raw.IsValid source ⟨span.stop⟩
  encode_text : Text.Utf8.encode span.text = bytesBetween source span

/-! ## Cutting a source -/

/-- A text is split at an offset exactly if so many bytes are in front of it. -/
theorem splitAtByte?_eq_some_iff :
    splitAtByte? offset text = some (before, after) ↔
      text = before ++ after ∧ byteLength before = offset := by
  constructor
  · intro h
    induction text generalizing offset before with
    | nil =>
      cases offset with
      | zero =>
        cases h
        exact ⟨rfl, rfl⟩
      | succ offset => cases h
    | cons c text ih =>
      cases offset with
      | zero =>
        cases h
        exact ⟨rfl, rfl⟩
      | succ offset =>
        rw [splitAtByte?] at h
        split_ifs at h with hsize
        obtain ⟨⟨start, rest⟩, hrest, heq⟩ := Option.map_eq_some_iff.mp h
        cases heq
        obtain ⟨rfl, hlength⟩ := ih hrest
        refine ⟨rfl, ?_⟩
        rw [byteLength, hlength]
        omega
  · rintro ⟨rfl, rfl⟩
    exact splitAtByte?_byteLength before after

/-- What is outside a span lies around its text. -/
theorem outside?_eq_some_iff :
    outside? text span = some (before, after) ↔
      text = before ++ span.text.toList ++ after ∧ byteLength before = span.start ∧
        byteLength (before ++ span.text.toList) = span.stop := by
  rw [outside?]
  constructor
  · intro h
    split_ifs at h with hstop
    simp only [Option.bind_eq_bind, Option.bind_eq_some_iff] at h
    obtain ⟨⟨front, rest⟩, hfront, ⟨inside, back⟩, hinside, h⟩ := h
    split_ifs at h with htext
    cases h
    obtain ⟨rfl, hstart⟩ := splitAtByte?_eq_some_iff.mp hfront
    obtain ⟨rfl, hlength⟩ := splitAtByte?_eq_some_iff.mp hinside
    subst htext
    have hback : span.start + (span.stop - span.start) = span.stop := by omega
    refine ⟨(List.append_assoc ..).symm, hstart, ?_⟩
    rw [byteLength_append, hlength, hstart, hback]
  · rintro ⟨rfl, hstart, hstop⟩
    rw [byteLength_append] at hstop
    rw [if_neg (by omega), List.append_assoc, splitAtByte?_eq_some_iff.mpr ⟨rfl, hstart⟩]
    have hinside : splitAtByte? (span.stop - span.start) (span.text.toList ++ after) =
        some (span.text.toList, after) :=
      splitAtByte?_eq_some_iff.mpr ⟨rfl, by omega⟩
    simp [hinside]

/-- The bytes of a text are counted as the core library counts them. -/
theorem byteLength_toList (text : String) : byteLength text.toList = text.utf8ByteSize := by
  rw [byteLength_eq, String.ofList_toList]

/-- Between two characters a source falls into two texts. -/
theorem isValid_iff :
    String.Pos.Raw.IsValid source ⟨offset⟩ ↔
      ∃ before after, source.toList = before ++ after ∧ byteLength before = offset := by
  rw [String.Pos.Raw.isValid_iff_exists_append]
  constructor
  · rintro ⟨start, rest, rfl, hoffset⟩
    refine ⟨start.toList, rest.toList, String.toList_append, ?_⟩
    rw [byteLength_toList]
    exact (congrArg String.Pos.Raw.byteIdx hoffset).symm
  · rintro ⟨before, after, hsource, rfl⟩
    refine ⟨String.ofList before, String.ofList after, ?_, ?_⟩
    · rw [← String.ofList_append, ← hsource, String.ofList_toList]
    · rw [byteLength_eq]
      rfl

/-- A span fits exactly if something is outside it. -/
theorem fits_iff : Fits source span ↔ ∃ before after,
    outside? source.toList span = some (before, after) := by
  simp only [outside?_eq_some_iff]
  constructor
  · rintro ⟨hle, hstart, hstop, htext⟩
    obtain ⟨before, rest, hsource, hbefore⟩ := isValid_iff.mp hstart
    obtain ⟨front, after, hsource', hfront⟩ := isValid_iff.mp hstop
    obtain ⟨inside, rfl, rfl⟩ : ∃ inside, front = before ++ inside ∧ rest = inside ++ after := by
      rcases List.append_eq_append_iff.mp (hsource.symm.trans hsource') with
        ⟨inside, hfront, hrest⟩ | ⟨inside, hbefore', hafter⟩
      · exact ⟨inside, hfront, hrest⟩
      · -- the second cut does not lie in front of the first one
        have hlength : byteLength inside = 0 := by
          rw [hbefore', byteLength_append] at hbefore
          omega
        obtain rfl : inside = [] := by
          by_contra hne
          exact (byteLength_pos hne).ne' hlength
        exact ⟨[], by simpa using hbefore'.symm, by simpa using hafter.symm⟩
    have hinside : Text.Utf8.encode span.text = Text.Utf8.encode (String.ofList inside) := by
      rw [htext, bytesBetween, ← hbefore, ← hfront]
      exact (encode_take_drop hsource').2.1
    obtain rfl : inside = span.text.toList := by
      rw [Text.Utf8.encode_injective hinside, String.toList_ofList]
    exact ⟨before, after, hsource', hbefore, hfront⟩
  · rintro ⟨before, after, hsource, hstart, hstop⟩
    refine ⟨?_, isValid_iff.mpr ⟨before, span.text.toList ++ after, ?_, hstart⟩,
      isValid_iff.mpr ⟨_, after, hsource, hstop⟩, ?_⟩
    · rw [← hstart, ← hstop, byteLength_append]
      exact Nat.le_add_right ..
    · rw [hsource, List.append_assoc]
    · rw [bytesBetween, ← hstart, ← hstop, (encode_take_drop hsource).2.1, String.ofList_toList]

/-! ## What is inserted -/

/-- The line feed that goes in front of a text because the line there, if any, lacks it. -/
def feedBehind (lines : List (List Char)) : ℕ → List Char
  | 0 => []
  | count + 1 => if (lines[count]?).all isClosed then [] else ['\n']

/-- What an insertion adds to a source. -/
def insertedText (span : Span) (text : String) (afterLine : ℕ) : String :=
  String.ofList (feedBehind span.lines afterLine) ++ text ++ "\n"

/-- A spliced text stands between two lines, with the line feeds that it needs. -/
theorem spliceLine_eq_append (hlines : ∀ line ∈ lines, line ≠ [])
    (hcount : afterLine ≤ lines.length) (text : List Char) :
    spliceLine lines text afterLine =
      (lines.take afterLine).flatten ++ (feedBehind lines afterLine ++ text ++ ['\n']) ++
        (lines.drop afterLine).flatten := by
  cases afterLine with
  | zero => simp [spliceLine, feedBehind]
  | succ count =>
    have htake : lines.take (count + 1) = lines.take count ++ [lines[count]] := by
      rw [List.take_add_one, List.getElem?_eq_getElem hcount, Option.toList_some]
    have hclose : closeLine (lines.take (count + 1)).flatten =
        (lines.take (count + 1)).flatten ++ feedBehind lines (count + 1) := by
      have hline : lines[count] ≠ [] := hlines _ (List.getElem_mem hcount)
      rw [htake, List.flatten_append, List.flatten_singleton, closeLine_append hline, feedBehind,
        List.getElem?_eq_getElem hcount, closeLine]
      split_ifs with hclosed hfeed <;> simp_all [isClosed]
    rw [spliceLine, if_neg (Nat.succ_ne_zero count), hclose]
    simp [List.append_assoc]

/-- No line of a span is empty. -/
theorem ne_nil_of_mem_span (span : Span) : ∀ line ∈ span.lines, line ≠ [] :=
  fun _ => Text.ne_nil_of_mem_lines

/-! ## Inserting into any span -/

/-- Into a source that a span does not fit nothing is inserted: the span is stale. -/
theorem insert_of_not_fits (h : ¬Fits source span) (text : String) (afterLine : ℕ) :
    insert source span text afterLine = .error (.stale span.start span.stop) := by
  rw [insert]
  cases houtside : outside? source.toList span with
  | none => rfl
  | some around =>
    obtain ⟨before, after⟩ := around
    exact absurd (fits_iff.mpr ⟨before, after, houtside⟩) h

/-- Behind the end of a function nothing is inserted. -/
theorem insert_of_lt (h : Fits source span) (hcount : span.lineCount < afterLine) (text : String) :
    insert source span text afterLine = .error (.pastEnd afterLine span.lineCount) := by
  obtain ⟨before, after, houtside⟩ := fits_iff.mp h
  simp only [insert, houtside, if_pos hcount]

/-- Where the text and its line feeds go, everything else stays. -/
theorem insert_of_le (h : Fits source span) (hcount : afterLine ≤ span.lineCount) (text : String) :
    ∃ patched, insert source span text afterLine = .ok patched ∧
      Text.Utf8.encode patched = (Text.Utf8.encode source).take span.start ++
        Text.Utf8.encode (String.ofList (span.lines.take afterLine).flatten) ++
          Text.Utf8.encode (insertedText span text afterLine) ++
            Text.Utf8.encode (String.ofList (span.lines.drop afterLine).flatten) ++
              (Text.Utf8.encode source).drop span.stop := by
  obtain ⟨before, after, houtside⟩ := fits_iff.mp h
  refine ⟨_, by simp only [insert, houtside, if_neg hcount.not_gt]; rfl, ?_⟩
  obtain ⟨hsource, hstart, hstop⟩ := outside?_eq_some_iff.mp houtside
  obtain ⟨hfront, -, hback⟩ := encode_take_drop hsource
  rw [← hstart, ← hstop, hfront, hback, insertedText,
    spliceLine_eq_append (ne_nil_of_mem_span span) hcount]
  have hinserted : String.ofList (feedBehind span.lines afterLine) ++ text ++ "\n" =
      String.ofList (feedBehind span.lines afterLine ++ text.toList ++ ['\n']) := by
    rw [String.ofList_append, String.ofList_append, String.ofList_toList]
  rw [hinserted]
  simp only [encode_ofList_append, List.append_assoc]

/-- The text of a span that fits falls into the lines in front of an insertion and those behind. -/
theorem encode_of_fits (h : Fits source span) (afterLine : ℕ) :
    Text.Utf8.encode source = (Text.Utf8.encode source).take span.start ++
      Text.Utf8.encode (String.ofList (span.lines.take afterLine).flatten) ++
        (Text.Utf8.encode (String.ofList (span.lines.drop afterLine).flatten) ++
          (Text.Utf8.encode source).drop span.stop) := by
  obtain ⟨before, after, houtside⟩ := fits_iff.mp h
  obtain ⟨hsource, hstart, hstop⟩ := outside?_eq_some_iff.mp houtside
  obtain ⟨hfront, -, hback⟩ := encode_take_drop hsource
  have hlines : (span.lines.take afterLine).flatten ++ (span.lines.drop afterLine).flatten =
      span.text.toList := by
    rw [← List.flatten_append, List.take_append_drop, Span.lines, Text.flatten_lines]
  rw [← hstart, ← hstop, hfront, hback]
  simp only [← encode_ofList_append]
  rw [List.append_assoc, ← List.append_assoc (span.lines.take afterLine).flatten, hlines,
    ← List.append_assoc, ← hsource, String.ofList_toList]

/-- The place of an insertion is counted in bytes from the start of the source. -/
theorem insertionOffset_of_fits (h : Fits source span) (afterLine : ℕ) :
    insertionOffset span afterLine = ((Text.Utf8.encode source).take span.start ++
      Text.Utf8.encode (String.ofList (span.lines.take afterLine).flatten)).length := by
  have hstart : span.start ≤ (Text.Utf8.encode source).length := h.start_isValid.le_rawEndPos
  rw [List.length_append, List.length_take_of_le hstart]
  rfl

/-- What is inserted stands at its offset, and the source is what remains without it. -/
theorem take_drop_of_insert (h : Fits source span) (hcount : afterLine ≤ span.lineCount)
    {text : String} (hinsert : insert source span text afterLine = .ok patched) :
    let inserted := Text.Utf8.encode (insertedText span text afterLine)
    let offset := insertionOffset span afterLine
    ((Text.Utf8.encode patched).drop offset).take inserted.length = inserted ∧
      (Text.Utf8.encode patched).take offset ++
        (Text.Utf8.encode patched).drop (offset + inserted.length) = Text.Utf8.encode source := by
  intro inserted offset
  obtain ⟨other, hother, hpatched⟩ := insert_of_le h hcount text
  obtain rfl : other = patched := Except.ok.inj (hother.symm.trans hinsert)
  -- what stands in front of the insertion and behind it makes up the source
  let front := (Text.Utf8.encode source).take span.start ++
    Text.Utf8.encode (String.ofList (span.lines.take afterLine).flatten)
  let back := Text.Utf8.encode (String.ofList (span.lines.drop afterLine).flatten) ++
    (Text.Utf8.encode source).drop span.stop
  have hsource : Text.Utf8.encode source = front ++ back := encode_of_fits h afterLine
  have hsplit : Text.Utf8.encode other = front ++ (inserted ++ back) := by
    rw [hpatched]
    simp only [front, back, inserted, List.append_assoc]
  have hoffset : offset = front.length := insertionOffset_of_fits h afterLine
  rw [hsplit, hoffset, hsource]
  refine ⟨?_, ?_⟩
  · rw [List.drop_left, List.take_left]
  · rw [List.take_left, List.drop_length_add_append, List.drop_left]

/-- Whatever the span, the text and the line are, an insertion ends in one of three ways. Unless the
span fits the source, the function is not found; if it fits, it has fewer lines than the line to
insert behind, or the text is inserted there. Then the bytes in front of the span, those of its
lines and those behind it stay as they are and where they are to one another; what is inserted is
the text with its line feed, and a line feed in front if it follows a line that lacks one; and the
source is what remains when that is removed. -/
theorem insert_splices (source : String) (span : Span) (text : String) (afterLine : ℕ) :
    let result := (insert source span text afterLine).mapError Failure.ofInsertionFault
    let bytes := Text.Utf8.encode source
    let inserted := Text.Utf8.encode (insertedText span text afterLine)
    let offset := insertionOffset span afterLine
    ((∃ wanted, result = .error (.notFound wanted)) ↔ ¬Fits source span) ∧
    (result = .error (.indexOutOfRange afterLine span.lineCount) ↔
      Fits source span ∧ span.lineCount < afterLine) ∧
    ((∃ patched, result = .ok patched) ↔ Fits source span ∧ afterLine ≤ span.lineCount) ∧
    ∀ patched, result = .ok patched →
      Text.Utf8.encode patched = bytes.take span.start ++
        Text.Utf8.encode (String.ofList (span.lines.take afterLine).flatten) ++ inserted ++
          Text.Utf8.encode (String.ofList (span.lines.drop afterLine).flatten) ++
            bytes.drop span.stop ∧
      ((Text.Utf8.encode patched).drop offset).take inserted.length = inserted ∧
      (Text.Utf8.encode patched).take offset ++
        (Text.Utf8.encode patched).drop (offset + inserted.length) = bytes := by
  intro result bytes inserted offset
  -- the three ways in turn: the span does not fit, the line is too far down, and the insertion
  by_cases hfits : Fits source span
  swap
  · have hresult : result = .error (.ofInsertionFault (.stale span.start span.stop)) := by
      simp only [result, insert_of_not_fits hfits]
      rfl
    simp [hresult, hfits, Failure.ofInsertionFault]
  rcases lt_or_ge span.lineCount afterLine with hcount | hcount
  · have hresult : result = .error (.indexOutOfRange afterLine span.lineCount) := by
      simp only [result, insert_of_lt hfits hcount]
      rfl
    simp [hresult, hfits, hcount]
  obtain ⟨patched, hinsert, hpatched⟩ := insert_of_le hfits hcount text
  have hresult : result = .ok patched := by
    simp only [result, hinsert]
    rfl
  refine ⟨by simp [hresult, hfits], by simp [hresult, hcount], by simp [hresult, hfits, hcount],
    fun other hother => ?_⟩
  obtain rfl : patched = other := Except.ok.inj (hresult.symm.trans hother)
  exact ⟨hpatched, take_drop_of_insert hfits hcount hinsert⟩

/-- The span ends inside a line, between a function and a comment. A span whose offsets are in the
wrong order, or inside a character, does not fit. -/
theorem insert_splices_open_line :
    let source := "é f()\nend -- tail"
    let span : Span := ⟨3, 10, "f()\nend"⟩
    Fits source span ∧ insert source span "g()" 2 = .ok "é f()\nend\ng()\n -- tail" ∧
      (Text.Utf8.encode "é f()\nend\ng()\n -- tail").take 10 ++
        (Text.Utf8.encode "é f()\nend\ng()\n -- tail").drop 15 = Text.Utf8.encode source ∧
      ¬Fits source ⟨10, 3, "f()\nend"⟩ ∧ ¬Fits source ⟨1, 1, ""⟩ := by
  intro source span
  have hinsert : insert source span "g()" 2 = .ok "é f()\nend\ng()\n -- tail" := by
    decide +kernel
  have hresult : (insert source span "g()" 2).mapError Failure.ofInsertionFault =
      .ok "é f()\nend\ng()\n -- tail" := by
    rw [hinsert]
    rfl
  have hreversed : insert source ⟨10, 3, "f()\nend"⟩ "g()" 2 = .error (.stale 10 3) := by
    decide +kernel
  have hinside : insert source ⟨1, 1, ""⟩ "g()" 0 = .error (.stale 1 1) := by
    decide +kernel
  have hoffset : insertionOffset span 2 = 10 := by decide +kernel
  have hlength : (Text.Utf8.encode (insertedText span "g()" 2)).length = 5 := by decide +kernel
  obtain ⟨-, -, hok, hsplices⟩ := insert_splices source span "g()" 2
  obtain ⟨-, -, hremoved⟩ := hsplices _ hresult
  rw [hoffset, hlength] at hremoved
  refine ⟨(hok.mp ⟨_, hresult⟩).1, hinsert, hremoved, ?_, ?_⟩
  · exact (insert_splices source ⟨10, 3, "f()\nend"⟩ "g()" 2).1.mp
      ⟨_, by rw [hreversed]; rfl⟩
  · exact (insert_splices source ⟨1, 1, ""⟩ "g()" 0).1.mp ⟨_, by rw [hinside]; rfl⟩

/-! ## Inserting into a located function -/

/-- A span that has been located fits its source. -/
theorem fits_of_locate {query : Query} (h : locate source query = .ok span) :
    Fits source span := by
  obtain ⟨before, found, after, hlines, -, rfl⟩ := locate_eq_ok_iff.mp h
  refine fits_iff.mpr ⟨before.flatten, after.flatten, ?_⟩
  rw [flatten_toList hlines, outside?_spanOfLines]

/-- A patch of a source misses the function, or the line in it, or inserts the text. -/
theorem patchContent_cases (path : Path) (source : String) (query : Query) (text : String)
    (afterLine : ℕ) :
    (∃ miss, locate source query = .error miss ∧
      SourceTree.patchContent path source query text afterLine = .error (.ofMiss miss)) ∨
    ∃ span, locate source query = .ok span ∧
      (SourceTree.patchContent path source query text afterLine =
          .error (.indexOutOfRange afterLine span.lineCount) ∨
        ∃ patched, insert source span text afterLine = .ok patched ∧
          SourceTree.patchContent path source query text afterLine =
            .ok ⟨path, patched, span⟩) := by
  cases hlocate : locate source query with
  | error miss => exact .inl ⟨miss, rfl, by simp only [SourceTree.patchContent, hlocate]⟩
  | ok span =>
    refine .inr ⟨span, rfl, ?_⟩
    have hfits := fits_of_locate hlocate
    rcases lt_or_ge span.lineCount afterLine with hcount | hcount
    · have hinsert := insert_of_lt hfits hcount text
      left
      simp only [SourceTree.patchContent, hlocate, hinsert, Failure.ofInsertionFault]
    · obtain ⟨patched, hinsert, -⟩ := insert_of_le hfits hcount text
      exact .inr ⟨patched, hinsert, by simp only [SourceTree.patchContent, hlocate, hinsert]⟩

end ScriptMailbox.Source
