import ScriptMailbox.Source.Insertion
import ScriptMailbox.Proofs.Source.Locating

/-!
# Inserting into located lines

A span that has been located stands in its source, so a text is inserted into it unless it has too
few lines (`insert_eq`). The text becomes lines of its own between two lines of the source
(`lines_sourceWith`).
-/

namespace ScriptMailbox.Source

variable {source text : String} {before left right after found : List (List Char)}

/-! ## Finding the span -/

/-- A text is split behind a part of it at the number of its bytes. -/
theorem splitAtByte?_byteLength (text more : List Char) :
    splitAtByte? (byteLength text) (text ++ more) = some (text, more) := by
  induction text with
  | nil => simp [byteLength, splitAtByte?]
  | cons c text ih =>
    obtain ⟨offset, hoffset⟩ : ∃ offset, byteLength (c :: text) = offset + 1 :=
      Nat.exists_eq_add_one.mpr (byteLength_pos (List.cons_ne_nil c text))
    have hrest : offset + 1 - c.utf8Size = byteLength text := by
      rw [← hoffset, byteLength]
      omega
    rw [hoffset, List.cons_append, splitAtByte?, if_pos (by rw [← hoffset, byteLength]; omega),
      hrest, ih, Option.map_some]

/-- What is outside a span of lines are the lines before and behind it. -/
theorem outside?_spanOfLines (before found after : List (List Char)) :
    outside? (before ++ found ++ after).flatten (spanOfLines before found) =
      some (before.flatten, after.flatten) := by
  have hsource : (before ++ found ++ after).flatten =
      before.flatten ++ (found.flatten ++ after.flatten) := by
    simp [List.append_assoc]
  rw [outside?, if_neg (by simp [spanOfLines]), hsource]
  simp [spanOfLines, splitAtByte?_byteLength]

/-- No line of a source is empty. -/
theorem ne_nil_of_lines_eq (hlines : Text.lines source.toList = found) :
    ∀ line ∈ found, line ≠ [] :=
  fun _ hmem => Text.ne_nil_of_mem_lines (hlines ▸ hmem)

/-- The span of some lines has these lines. -/
theorem lines_spanOfLines (hlines : Text.lines source.toList = before ++ found ++ after) :
    (spanOfLines before found).lines = found := by
  have hare := hlines ▸ Text.areLines_lines source.toList
  rw [Span.lines, spanOfLines, String.toList_ofList]
  refine Text.lines_flatten_of_ne_nil hare.left.right fun line hmem => ?_
  exact ne_nil_of_lines_eq hlines line (List.mem_append_left _ (List.mem_append_right _ hmem))

/-! ## Inserting -/

/-- A source is its lines. -/
theorem flatten_toList (hlines : Text.lines source.toList = found) :
    source.toList = found.flatten := by
  rw [← hlines, Text.flatten_lines]

/-- An insertion splices the text into the lines of the span, and leaves the others. -/
theorem insert_eq (hlines : Text.lines source.toList = before ++ found ++ after) (text : String)
    {afterLine : ℕ} (h : afterLine ≤ found.length) :
    insert source (spanOfLines before found) text afterLine =
      .ok (String.ofList
        (before.flatten ++ spliceLine found text.toList afterLine ++ after.flatten)) := by
  rw [insert, flatten_toList hlines, outside?_spanOfLines]
  simp only [Span.lineCount, lines_spanOfLines hlines]
  rw [if_neg (by omega)]

/-- A closed line is left as it is. -/
theorem closeLine_of_closed {text : List Char} (h : text.getLast? = some '\n') :
    closeLine text = text :=
  if_pos h

/-- Where the text follows a line that ends with a line feed, nothing but the text is inserted. -/
theorem spliceLine_eq (hclosed : ∀ line ∈ left, line.getLast? = some '\n') (text : List Char) :
    spliceLine (left ++ right) text left.length =
      left.flatten ++ text ++ '\n' :: right.flatten := by
  rw [spliceLine, List.take_left, List.drop_left]
  by_cases hleft : left = []
  · simp [hleft]
  · rw [if_neg (by simpa using hleft),
      closeLine_of_closed (Text.getLast?_flatten_of_closed hleft hclosed)]

/-- The source with a text as lines of its own behind some of its lines. -/
def sourceWith (left : List (List Char)) (text : String) (right : List (List Char)) : String :=
  String.ofList (left.flatten ++ text.toList ++ '\n' :: right.flatten)

/-- A text that does not follow the last line of a source goes between two of its lines. -/
theorem insert_inside (hlines : Text.lines source.toList = before ++ (left ++ right) ++ after)
    (hright : right ≠ []) (text : String) :
    insert source (spanOfLines before (left ++ right)) text left.length =
      .ok (sourceWith (before ++ left) text (right ++ after)) := by
  have hare := hlines ▸ Text.areLines_lines source.toList
  have hclosed : ∀ line ∈ left, line.getLast? = some '\n' :=
    hare.left.right.closed_left hright
  rw [insert_eq hlines text (by simp), spliceLine_eq hclosed]
  simp [sourceWith, List.append_assoc]

/-- Its lines are those of the source and of the text. -/
theorem lines_sourceWith (hlines : Text.lines source.toList = left ++ right)
    (hright : right ≠ []) (text : String) :
    Text.lines (sourceWith left text right).toList =
      left ++ Text.lines (text.toList ++ ['\n']) ++ right := by
  have hare := hlines ▸ Text.areLines_lines source.toList
  obtain ⟨hleft, hright'⟩ := List.forall_mem_append.mp (ne_nil_of_lines_eq hlines)
  have htext : left.flatten ++ text.toList ++ '\n' :: right.flatten =
      left.flatten ++ ((text.toList ++ ['\n']) ++ right.flatten) := by
    simp [List.append_assoc]
  rw [sourceWith, String.toList_ofList, htext,
    Text.lines_flatten_append (hare.closed_left hright), Text.lines_append List.getLast?_concat,
    Text.lines_flatten_of_ne_nil hare.left hleft, Text.lines_flatten_of_ne_nil hare.right hright',
    List.append_assoc]

/-! ## What an insertion keeps -/

/-- Only the last line can need closing. -/
theorem closeLine_append {more : List Char} (hmore : more ≠ []) (text : List Char) :
    closeLine (text ++ more) = text ++ closeLine more := by
  rw [closeLine, closeLine, List.getLast?_append_of_ne_nil text hmore]
  split_ifs
  · rfl
  · rw [List.append_assoc]

/-- The second text is the first one with a text as lines of its own between two of its lines, or
behind the last one, which gets the line feed that it may lack. -/
def Inserts (source text patched : String) : Prop :=
  ∃ left right, Text.lines source.toList = left ++ right ∧
    patched.toList = (if left = [] then [] else closeLine left.flatten) ++ text.toList ++
      '\n' :: right.flatten

/-- So an insertion puts the text between two lines of the source. -/
theorem inserts_of_insert {patched : String} {afterLine : ℕ}
    (hlines : Text.lines source.toList = before ++ found ++ after) (hfound : found ≠ [])
    (h : insert source (spanOfLines before found) text afterLine = .ok patched) :
    Inserts source text patched := by
  have hcount : afterLine ≤ found.length := by
    by_contra hmore
    rw [insert, flatten_toList hlines, outside?_spanOfLines] at h
    simp only [Span.lineCount, lines_spanOfLines hlines] at h
    rw [if_pos (by omega)] at h
    cases h
  have hare := hlines ▸ Text.areLines_lines source.toList
  have hne := ne_nil_of_lines_eq hlines
  rw [insert_eq hlines text hcount] at h
  cases h
  refine ⟨before ++ found.take afterLine, found.drop afterLine ++ after, ?_, ?_⟩
  · rw [hlines, List.append_assoc, List.append_assoc, ← List.append_assoc (found.take afterLine),
      List.take_append_drop]
  have hfront : before.flatten ++ (if afterLine = 0 then [] else
      closeLine (found.take afterLine).flatten) =
      if before ++ found.take afterLine = [] then [] else
        closeLine (before ++ found.take afterLine).flatten := by
    -- behind no line of the span, the line to close is the one in front of it
    by_cases hzero : afterLine = 0
    · subst hzero
      rw [if_pos rfl, List.take_zero, List.append_nil, List.append_nil]
      split_ifs with hbefore
      · rw [hbefore, List.flatten_nil]
      · have hclosed := hare.left.closed_left hfound
        rw [closeLine_of_closed (Text.getLast?_flatten_of_closed hbefore hclosed)]
    · obtain ⟨line, rest, rfl⟩ := List.exists_cons_of_ne_nil hfound
      obtain ⟨count, rfl⟩ := Nat.exists_eq_succ_of_ne_zero hzero
      have hline : line ≠ [] := hne line (by simp)
      rw [if_neg hzero, List.take_succ_cons, if_neg (by simp), List.flatten_append,
        closeLine_append (by simp [hline])]
  rw [String.toList_ofList, spliceLine, ← hfront]
  simp [List.append_assoc]

/-- Whether a line ends with its line feed. -/
def isClosed (line : List Char) : Bool :=
  line.getLast? == some '\n'

/-- A line that has been closed ends with a line feed. -/
theorem getLast?_closeLine (text : List Char) : (closeLine text).getLast? = some '\n' := by
  rw [closeLine]
  split_ifs with hclosed
  · exact hclosed
  · exact List.getLast?_concat

/-- Closing the last line leaves the lines as they are that are closed already. -/
theorem filter_isClosed_sublist (hleft : Text.AreLines left) (hne : ∀ line ∈ left, line ≠ []) :
    (left.filter isClosed).Sublist (Text.lines (closeLine left.flatten)) := by
  rcases List.eq_nil_or_concat' left with rfl | ⟨start, last, rfl⟩
  · exact List.nil_sublist _
  obtain ⟨hstart, hlast⟩ := List.forall_mem_append.mp hne
  have hclosed : ∀ line ∈ start, line.getLast? = some '\n' :=
    hleft.closed_left (List.cons_ne_nil last [])
  have hlines : Text.lines (closeLine (start ++ [last]).flatten) =
      start ++ Text.lines (closeLine last) := by
    have hflatten : (start ++ [last]).flatten = start.flatten ++ last := by simp
    rw [hflatten, closeLine_append (hlast last (List.mem_singleton_self last)),
      Text.lines_flatten_append hclosed, Text.lines_flatten_of_ne_nil hleft.left hstart]
  rw [hlines, List.filter_append]
  refine List.Sublist.append (List.filter_sublist ..) ?_
  by_cases hfeed : last.getLast? = some '\n'
  · rw [closeLine_of_closed hfeed]
    have hsingle : Text.lines last = [last] := by
      have hlines := Text.lines_flatten_of_ne_nil hleft.right hlast
      rwa [List.flatten_singleton] at hlines
    rw [hsingle]
    exact List.filter_sublist ..
  · rw [List.filter_cons_of_neg (by simpa [isClosed] using hfeed)]
    exact List.nil_sublist _

/-- The text stands between the closed lines of the source, and what follows it follows it. -/
theorem Inserts.lines_eq {patched : String} (h : Inserts source text patched) :
    ∃ left right front, Text.lines source.toList = left ++ right ∧
      (left.filter isClosed).Sublist front ∧
      Text.lines patched.toList = front ++ Text.lines (text.toList ++ ['\n']) ++ right := by
  obtain ⟨left, right, hlines, hpatched⟩ := h
  have hare := hlines ▸ Text.areLines_lines source.toList
  obtain ⟨hleft, hright⟩ := List.forall_mem_append.mp (ne_nil_of_lines_eq hlines)
  have htext : Text.lines (text.toList ++ '\n' :: right.flatten) =
      Text.lines (text.toList ++ ['\n']) ++ right := by
    rw [List.append_cons, Text.lines_append List.getLast?_concat,
      Text.lines_flatten_of_ne_nil hare.right hright]
  rw [List.append_assoc] at hpatched
  by_cases hempty : left = []
  · refine ⟨left, right, [], hlines, by simp [hempty], ?_⟩
    rw [hpatched, if_pos hempty, List.nil_append, List.nil_append, htext]
  · refine ⟨left, right, Text.lines (closeLine left.flatten), hlines,
      filter_isClosed_sublist hare.left hleft, ?_⟩
    rw [hpatched, if_neg hempty, Text.lines_append (getLast?_closeLine _), htext, List.append_assoc]

/-- Every closed line of the source is kept, and their order too. -/
theorem Inserts.keeps_closed {patched : String} (h : Inserts source text patched) :
    ((Text.lines source.toList).filter isClosed).Sublist (Text.lines patched.toList) := by
  obtain ⟨left, right, front, hlines, hfront, hpatched⟩ := h.lines_eq
  rw [hlines, hpatched, List.filter_append]
  exact (hfront.trans (List.sublist_append_left ..)).append (List.filter_sublist ..)

/-- The lines of the text are among the lines of the patched source, in their order. -/
theorem Inserts.text_sublist {patched : String} (h : Inserts source text patched) :
    (Text.lines (text.toList ++ ['\n'])).Sublist (Text.lines patched.toList) := by
  obtain ⟨left, right, front, -, -, hpatched⟩ := h.lines_eq
  rw [hpatched, List.append_assoc]
  exact (List.sublist_append_left ..).trans (List.sublist_append_right ..)

/-- With a line feed behind it a text has closed lines alone. -/
theorem filter_isClosed_concat (text : List Char) :
    (Text.lines (text ++ ['\n'])).filter isClosed = Text.lines (text ++ ['\n']) :=
  List.filter_eq_self.mpr fun line hmem =>
    beq_iff_eq.mpr (Text.getLast?_of_mem_lines List.getLast?_concat line hmem)

end ScriptMailbox.Source
