import ScriptMailbox.Failure
import ScriptMailbox.Proofs.Source.Enclosing
import ScriptMailbox.Proofs.Source.Mentions

/-!
# Where a function ends

Behind the line at which a function starts, one function is open; the lines behind it open and close
others. The function ends at the first line behind which none is open (`Closes`). A query is
answered exactly if some line starts the function and some line behind it leaves nothing open, and
then by the lines from the one to the first of the others (`locate_sound_complete`), whatever else
stands in the source.
-/

namespace ScriptMailbox.Source

variable {source : String} {query : Query} {span : Span} {first middle last number inner : ℕ}
  {header : List Char} {lines body rest before after : List (List Char)}

/-! ## Depth -/

/-- Lines one after the other open and close what all of them do. -/
theorem balance_append (lines more : List (List Char)) :
    balance (lines ++ more) = balance lines + balance more := by
  induction lines with
  | nil => simp
  | cons line lines ih => rw [List.cons_append, balance_cons, balance_cons, ih, Int.add_assoc]

/-- How many functions are open behind a line when an earlier one has opened the first of them;
lines count from zero. -/
def depth (lines : List (List Char)) (first last : ℕ) : ℤ :=
  1 + balance ((lines.drop (first + 1)).take (last - first))

/-- The header itself has opened one function. -/
@[simp]
theorem depth_self (lines : List (List Char)) (first : ℕ) : depth lines first first = 1 := by
  simp [depth]

/-- Counting can begin anew at a line in between. -/
theorem depth_add (hmiddle : first ≤ middle) (hlast : middle ≤ last) :
    depth lines first last + 1 = depth lines first middle + depth lines middle last := by
  have htake : last - first = (middle - first) + (last - middle) := by omega
  have hdrop : first + 1 + (middle - first) = middle + 1 := by omega
  rw [depth, depth, depth, htake, List.take_add, balance_append, List.drop_drop, hdrop]
  omega

/-- The next line changes the depth by what it opens or closes. -/
theorem depth_succ (hlast : last + 1 < lines.length) :
    depth lines last (last + 1) = 1 + (LineKind.ofLine lines[last + 1]).balance := by
  rw [depth, Nat.add_sub_cancel_left, List.drop_eq_getElem_cons hlast, List.take_succ_cons,
    List.take_zero, balance_cons, balance_nil, Int.add_zero]

/-- Whether a function that starts at a line ends at a later one: behind it, and behind no line
before it, nothing is open. -/
structure Closes (lines : List (List Char)) (first last : ℕ) : Prop where
  lt : first < last
  lt_length : last < lines.length
  closed : depth lines first last = 0
  isOpen : ∀ line, first < line → line < last → 0 < depth lines first line

/-- Counting stops exactly if at some line nothing is open any more. -/
theorem body?_eq_none_iff :
    body? inner rest = none ↔ ∀ count ≤ rest.length, 0 < inner + 1 + balance (rest.take count) := by
  induction rest generalizing inner with
  | nil =>
    simp only [body?, List.take_nil, balance_nil, true_iff]
    omega
  | cons line rest ih =>
    have hcount : (∀ count ≤ rest.length + 1,
        0 < inner + 1 + balance ((line :: rest).take count)) ↔ ∀ count ≤ rest.length,
          0 < inner + 1 + ((LineKind.ofLine line).balance + balance (rest.take count)) := by
      constructor
      · intro h count hcount
        exact h (count + 1) (by omega)
      · intro h count hcount
        cases count with
        | zero =>
          rw [List.take_zero, balance_nil]
          omega
        | succ count => exact h count (by omega)
    rw [List.length_cons, hcount]
    rcases body?_cons_balance inner line with ⟨hcloses, hends⟩ | ⟨deeper, hdeeper, hgoes⟩
    · rw [hends]
      simp only [reduceCtorEq, false_iff, not_forall]
      refine ⟨0, Nat.zero_le _, ?_⟩
      rw [List.take_zero, balance_nil]
      omega
    · rw [hgoes, Option.map_eq_none_iff, ih]
      refine forall₂_congr fun count _ => ?_
      omega

/-- The lines of a function in its source. -/
theorem closes_iff (hlines : lines = before ++ (header :: body) ++ after) :
    Closes lines before.length (before.length + body.length) ↔ body? 0 body = some body := by
  have hdepth (count : ℕ) (hcount : count ≤ body.length) :
      depth lines before.length (before.length + count) = 1 + balance (body.take count) := by
    have hdrop : lines.drop (before.length + 1) = body ++ after := by
      rw [hlines, List.append_assoc, List.drop_append, Nat.add_sub_cancel_left]
      simp
    rw [depth, hdrop, Nat.add_sub_cancel_left, List.take_append_of_le_length hcount]
  have hlength := congrArg List.length hlines
  simp only [List.length_append, List.length_cons] at hlength
  rw [body?_self_iff, Int.ofNat_zero, Int.zero_add]
  constructor
  · rintro ⟨hlt, -, hclosed, hopen⟩
    rw [hdepth _ le_rfl, List.take_length] at hclosed
    refine ⟨hclosed, fun count hcount => ?_⟩
    rcases Nat.eq_zero_or_pos count with rfl | hpos
    · simp
    · rw [← hdepth count hcount.le]
      exact hopen _ (by omega) (by omega)
  · rintro ⟨hclosed, hopen⟩
    have hpos : 0 < body.length := by
      by_contra hzero
      obtain rfl := List.eq_nil_of_length_eq_zero (Nat.eq_zero_of_not_pos hzero)
      cases hclosed
    refine ⟨by omega, by omega, ?_, fun line hfirst hlast => ?_⟩
    · rw [hdepth _ le_rfl, List.take_length, hclosed]
    · obtain ⟨count, rfl⟩ := Nat.exists_eq_add_of_lt hfirst
      rw [Nat.add_assoc, hdepth _ (by omega)]
      exact hopen _ (by omega)

/-- A function that is closed at all ends with the first line at which it is. -/
theorem exists_closes (hfirst : first < last) (hlast : last < lines.length)
    (hclosed : depth lines first last ≤ 0) : ∃ line, line ≤ last ∧ Closes lines first line := by
  have hsplit : lines = lines.take first ++ lines[first] :: lines.drop (first + 1) := by
    rw [← List.drop_eq_getElem_cons, List.take_append_drop]
  have hlength : (lines.take first).length = first := List.length_take_of_le (by omega)
  cases hbody : body? 0 (lines.drop (first + 1)) with
  | none =>
    have hopen := body?_eq_none_iff.mp hbody (last - first) (by rw [List.length_drop]; omega)
    rw [Int.ofNat_zero, Int.zero_add] at hopen
    rw [depth] at hclosed
    omega
  | some body =>
    obtain ⟨after, hdrop, hself⟩ := body?_eq_some hbody
    rw [hdrop, ← List.cons_append, ← List.append_assoc] at hsplit
    have hcloses := (closes_iff hsplit).mpr hself
    rw [hlength] at hcloses
    refine ⟨first + body.length, ?_, hcloses⟩
    by_contra hlt
    have := hcloses.isOpen last hfirst (not_le.mp hlt)
    omega

/-! ## Where a function starts -/

/-- Whether the line behind some of the first lines is the first one that has a name. -/
structure IsFirstNamed (source : String) (name : String) (first : ℕ) : Prop where
  ne_empty : name ≠ ""
  hasName : ∃ line, (Text.lines source.toList)[first]? = some line ∧ HasName name.toList line
  before : ∀ index line, index < first → (Text.lines source.toList)[index]? = some line →
    ¬HasName name.toList line

/-- Whether the function asked for starts behind some of the first lines. -/
def IsStart (source : String) : Query → ℕ → Prop
  | .line number => IsNearestHeader source number
  | .name name => IsFirstNamed source name

/-- Where no header is found, there is none. -/
theorem lastHeader?_eq_none {count : ℕ} (h : lastHeader? lines count = none) :
    ∀ index < count, lines[index]?.any isHeader = false := by
  induction count with
  | zero => intro index hindex; omega
  | succ count ih =>
    rw [lastHeader?] at h
    split_ifs at h with hheader
    intro index hindex
    rcases Nat.lt_succ_iff_lt_or_eq.mp hindex with hindex | rfl
    · exact ih h index hindex
    · exact Bool.not_eq_true _ ▸ hheader

/-- At most one header is the nearest. -/
theorem IsNearestHeader.unique {other : ℕ} (h : IsNearestHeader source number first)
    (h' : IsNearestHeader source number other) : first = other := by
  rcases lt_trichotomy first other with hlt | heq | hlt
  · exact absurd h'.header (h.last other hlt h'.lt)
  · exact heq
  · exact absurd h.header (h'.last first hlt h.lt)

/-- For a line the search starts at its nearest header. -/
theorem firstLine?_line_iff :
    firstLine? (Text.lines source.toList) (.line number) = some first ↔
      IsNearestHeader source number first := by
  refine ⟨isNearestHeader_of_firstLine?, fun h => ?_⟩
  cases hlast : firstLine? (Text.lines source.toList) (.line number) with
  | some other => rw [h.unique (isNearestHeader_of_firstLine? hlast)]
  | none =>
    rw [firstLine?, if_neg (not_lt.mpr h.le_length)] at hlast
    have hheader := lastHeader?_eq_none hlast first h.lt
    rw [any_isHeader_iff.mpr h.header] at hheader
    cases hheader

/-- For a name it starts at the first line that has it. -/
theorem firstLine?_named_iff {name : String} :
    firstLine? (Text.lines source.toList) (.name name) = some first ↔
      IsFirstNamed source name first := by
  rw [firstLine?]
  split_ifs with hname
  · exact ⟨False.elim, fun h => h.ne_empty hname⟩
  rw [List.findIdx?_eq_some_iff_getElem]
  constructor
  · rintro ⟨hlength, hfirst, hbefore⟩
    refine ⟨hname, ⟨_, List.getElem?_eq_getElem hlength, declares_iff.mp hfirst⟩, ?_⟩
    intro index line hindex hline hhas
    obtain ⟨hindex', rfl⟩ := List.getElem?_eq_some_iff.mp hline
    exact hbefore index hindex (declares_iff.mpr hhas)
  · rintro ⟨-, ⟨line, hline, hhas⟩, hbefore⟩
    obtain ⟨hlength, rfl⟩ := List.getElem?_eq_some_iff.mp hline
    refine ⟨hlength, declares_iff.mpr hhas, fun index hindex hdeclares => ?_⟩
    have hindex' : index < (Text.lines source.toList).length := hindex.trans hlength
    exact hbefore index _ hindex (List.getElem?_eq_getElem hindex') (declares_iff.mp hdeclares)

/-- Both kinds of search start where the function asked for starts. -/
theorem firstLine?_eq_some_iff :
    firstLine? (Text.lines source.toList) query = some first ↔ IsStart source query first := by
  cases query with
  | line number => exact firstLine?_line_iff
  | name name => exact firstLine?_named_iff

/-! ## Located lines -/

/-- The span of the lines of a source from one to another. -/
def spanBetween (lines : List (List Char)) (first last : ℕ) : Span :=
  spanOfLines (lines.take first) ((lines.drop first).take (last + 1 - first))

/-- The lines in front of a function, its first line, the lines behind that, and the others. -/
theorem lines_eq (hfirst : first ≤ last) (hlast : last < lines.length) :
    lines = lines.take first ++ (lines[first] :: (lines.drop (first + 1)).take (last - first)) ++
      lines.drop (last + 1) := by
  have hdrop : lines.drop (last + 1) = (lines.drop (first + 1)).drop (last - first) := by
    rw [List.drop_drop]
    congr 1
    omega
  rw [hdrop, List.append_assoc, List.cons_append, List.take_append_drop,
    ← List.drop_eq_getElem_cons, List.take_append_drop]

/-- A span between two lines is that of its lines. -/
theorem spanBetween_eq (hfirst : first ≤ last) (hlast : last < lines.length) :
    spanBetween lines first last =
      spanOfLines (lines.take first)
        (lines[first] :: (lines.drop (first + 1)).take (last - first)) := by
  have hcount : last + 1 - first = last - first + 1 := by omega
  rw [spanBetween, hcount, List.drop_eq_getElem_cons (by omega), List.take_succ_cons]

/-- A function is located exactly if it starts somewhere and is closed. -/
theorem locate_eq_ok_iff_closes :
    locate source query = .ok span ↔
      ∃ first last, IsStart source query first ∧ Closes (Text.lines source.toList) first last ∧
        span = spanBetween (Text.lines source.toList) first last := by
  rw [locate_eq_ok_iff]
  constructor
  · rintro ⟨before, found, after, hlines, ⟨hfirst, header, body, rfl, hbody⟩, rfl⟩
    have hcloses := (closes_iff hlines).mpr hbody
    rw [← hlines] at hfirst
    refine ⟨before.length, before.length + body.length, firstLine?_eq_some_iff.mp hfirst, hcloses,
      ?_⟩
    have hcount : before.length + body.length + 1 - before.length = (header :: body).length := by
      rw [List.length_cons]
      omega
    rw [spanBetween, hlines, List.append_assoc, List.take_left, List.drop_left, hcount,
      List.take_left]
  · rintro ⟨first, last, hfirst, hcloses, rfl⟩
    have hlines := lines_eq hcloses.lt.le hcloses.lt_length
    have hlength : ((Text.lines source.toList).take first).length = first :=
      List.length_take_of_le (hcloses.lt.trans hcloses.lt_length).le
    have hbody : (((Text.lines source.toList).drop (first + 1)).take (last - first)).length =
        last - first := by
      have := hcloses.lt_length
      rw [List.length_take, List.length_drop]
      omega
    refine ⟨_, _, _, hlines, ⟨?_, _, _, rfl, ?_⟩,
      spanBetween_eq hcloses.lt.le hcloses.lt_length⟩
    · rw [← hlines, hlength]
      exact firstLine?_eq_some_iff.mpr hfirst
    · rw [← closes_iff hlines, hlength, hbody, Nat.add_sub_cancel' hcloses.lt.le]
      exact hcloses

/-- It is absent if it starts nowhere. -/
theorem locate_absent (h : ∀ first, ¬IsStart source query first) :
    locate source query = .error (.absent query) := by
  have hnone : firstLine? (Text.lines source.toList) query = none := by
    rw [Option.eq_none_iff_forall_ne_some]
    exact fun first hfirst => h first (firstLine?_eq_some_iff.mp hfirst)
  simp only [locate, hnone]

/-- It is unclosed if no line closes it. -/
theorem locate_unclosed (h : IsStart source query first)
    (hopen : ∀ last, ¬Closes (Text.lines source.toList) first last) :
    locate source query = .error (.unclosed query) := by
  have hfirst := firstLine?_eq_some_iff.mpr h
  have hlt := firstLine?_lt hfirst
  have hdrop := List.drop_eq_getElem_cons hlt
  cases hbody : body? 0 ((Text.lines source.toList).drop (first + 1)) with
  | none => simp only [locate, hfirst, hdrop, hbody]
  | some body =>
    obtain ⟨after, hrest, hself⟩ := body?_eq_some hbody
    have hlines : Text.lines source.toList = (Text.lines source.toList).take first ++
        ((Text.lines source.toList)[first] :: body) ++ after := by
      rw [List.append_assoc, List.cons_append, ← hrest, ← hdrop, List.take_append_drop]
    have hcloses := (closes_iff hlines).mpr hself
    rw [List.length_take_of_le hlt.le] at hcloses
    exact absurd hcloses (hopen _)

/-! ## Cutting -/

/-- Whether a span is what stands in a source from one of its lines to another. -/
structure HoldsLines (source : String) (first last : ℕ) (span : Span) : Prop where
  start_eq : span.start = offset (Text.lines source.toList) first
  stop_eq : span.stop = offset (Text.lines source.toList) (last + 1)
  start_le : span.start ≤ span.stop
  stop_le : span.stop ≤ source.utf8ByteSize
  start_valid : String.Pos.Raw.IsValid source ⟨span.start⟩
  stop_valid : String.Pos.Raw.IsValid source ⟨span.stop⟩
  text_eq : span.text =
    String.ofList (((Text.lines source.toList).drop first).take (last + 1 - first)).flatten
  encode_text : Text.Utf8.encode span.text = bytesBetween source span

/-- Between two lines no character is cut. -/
theorem isValid_offset (source : String) (count : ℕ) :
    String.Pos.Raw.IsValid source ⟨offset (Text.lines source.toList) count⟩ := by
  rw [String.Pos.Raw.isValid_iff_exists_append]
  refine ⟨String.ofList ((Text.lines source.toList).take count).flatten,
    String.ofList ((Text.lines source.toList).drop count).flatten, ?_, ?_⟩
  · rw [← String.ofList_append, ← List.flatten_append, List.take_append_drop, Text.flatten_lines,
      String.ofList_toList]
  · rw [offset, byteLength_eq]
    rfl

/-- The span between two lines holds these lines, and all in between. -/
theorem holdsLines_spanBetween (hfirst : first ≤ last)
    (hlast : last < (Text.lines source.toList).length) :
    HoldsLines source first last (spanBetween (Text.lines source.toList) first last) := by
  have hlines := lines_eq hfirst hlast
  have hspan := spanBetween_eq hfirst hlast
  have hlength : ((Text.lines source.toList).take first).length = first :=
    List.length_take_of_le (by omega)
  have hstart := start_spanOfLines hlines
  have hstop := stop_spanOfLines hlines
  have hfound : first + ((Text.lines source.toList)[first] ::
      ((Text.lines source.toList).drop (first + 1)).take (last - first)).length = last + 1 := by
    rw [List.length_cons, List.length_take, List.length_drop]
    omega
  rw [← hspan, hlength] at hstart hstop
  rw [hfound] at hstop
  refine ⟨hstart, hstop, Nat.le_add_right _ _, ?_, ?_, ?_, rfl, ?_⟩
  · rw [hstop]
    exact (isValid_offset source (last + 1)).le_rawEndPos
  · rw [hstart]
    exact isValid_offset source first
  · rw [hstop]
    exact isValid_offset source (last + 1)
  · rw [hspan]
    exact encode_text_spanOfLines hlines

/-- Whether nothing is open any more behind a line when an earlier one has opened a function. -/
def Balances (lines : List (List Char)) (first last : ℕ) : Prop :=
  first < last ∧ last < lines.length ∧ depth lines first last = 0

/-- The line that closes a function leaves nothing open. -/
theorem Closes.balances (h : Closes lines first last) : Balances lines first last :=
  ⟨h.lt, h.lt_length, h.closed⟩

/-- The first line that leaves nothing open closes the function. -/
theorem Balances.closes (h : Balances lines first last)
    (hleast : ∀ line, Balances lines first line → last ≤ line) : Closes lines first last := by
  obtain ⟨line, hline, hcloses⟩ := exists_closes h.1 h.2.1 h.2.2.le
  obtain rfl : line = last := hline.antisymm (hleast line hcloses.balances)
  exact hcloses

/-- While the scan goes on, the depth does not fall below zero. -/
theorem depth_nonneg (hfirst : first ≤ last) (hlast : last < lines.length)
    (hopen : ∀ line < last, ¬Balances lines first line) : 0 ≤ depth lines first last := by
  rcases hfirst.eq_or_lt with rfl | hlt
  · rw [depth_self]
    decide
  by_contra hneg
  obtain ⟨line, hline, hcloses⟩ := exists_closes hlt hlast (not_le.mp hneg).le
  rcases hline.eq_or_lt with rfl | hline
  · exact hneg hcloses.closed.ge
  · exact hopen line hline hcloses.balances

/-- A function is located exactly if a line starts it and nothing is open any more behind a later
line. The located lines then reach from the one to the first of the others, no character of the
source is cut, and the depth is positive before the last line. Otherwise nothing is found. The depth
is never negative while lines are read. -/
theorem locate_sound_complete (source : String) (query : Query) :
    let lines := Text.lines source.toList
    ((∃ span, locate source query = .ok span) ↔
      ∃ first last, IsStart source query first ∧ Balances lines first last) ∧
    (∀ first last, IsStart source query first → Balances lines first last →
      (∀ line, Balances lines first line → last ≤ line) →
      (∃ span, locate source query = .ok span ∧ HoldsLines source first last span) ∧
        ∀ line, first ≤ line → line < last → 1 ≤ depth lines first line) ∧
    ((∀ first, ¬IsStart source query first) →
      (locate source query).mapError Failure.ofMiss = .error (.notFound query.describe)) ∧
    (∀ first, IsStart source query first → (∀ last, ¬Balances lines first last) →
      (locate source query).mapError Failure.ofMiss =
        .error (.notFound (query.describe ++ " (no matching `end`)"))) ∧
    ∀ first line, IsStart source query first → first ≤ line → line < lines.length →
      (∀ earlier < line, ¬Balances lines first earlier) → 0 ≤ depth lines first line := by
  intro lines
  -- both directions of the first claim, and then the other four
  refine ⟨⟨?_, ?_⟩, ?_, ?_, ?_, fun first line _ hfirst hline hopen =>
    depth_nonneg hfirst hline hopen⟩
  · rintro ⟨span, h⟩
    obtain ⟨first, last, hstart, hcloses, -⟩ := locate_eq_ok_iff_closes.mp h
    exact ⟨first, last, hstart, hcloses.balances⟩
  · rintro ⟨first, last, hstart, hlt, hlast, hclosed⟩
    obtain ⟨line, -, hcloses⟩ := exists_closes hlt hlast hclosed.le
    exact ⟨_, locate_eq_ok_iff_closes.mpr ⟨first, line, hstart, hcloses, rfl⟩⟩
  · intro first last hstart hbalances hleast
    have hcloses := hbalances.closes hleast
    refine ⟨⟨_, locate_eq_ok_iff_closes.mpr ⟨first, last, hstart, hcloses, rfl⟩,
      holdsLines_spanBetween hcloses.lt.le hcloses.lt_length⟩, fun line hfirst hline => ?_⟩
    rcases hfirst.eq_or_lt with rfl | hlt
    · rw [depth_self]
    · exact hcloses.isOpen line hlt hline
  · intro hnone
    rw [locate_absent hnone]
    rfl
  · intro first hstart hopen
    rw [locate_unclosed hstart fun last hcloses => hopen last hcloses.balances]
    rfl

/-- A stray terminator comes first, the function starts inside a line, and its last line lacks the
line feed. -/
theorem locate_sound_complete_malformed :
    let source := "end\nx = function é(a)\r\nfunction g()\nend\r\n  end"
    IsStart source (.name "é") 1 ∧ Balances (Text.lines source.toList) 1 4 ∧
      ∃ span, locate source (.name "é") = .ok span ∧ HoldsLines source 1 4 span := by
  intro source
  have hstart : IsStart source (.name "é") 1 := firstLine?_eq_some_iff.mp (by decide +kernel)
  have hbalances : Balances (Text.lines source.toList) 1 4 :=
    ⟨by decide, by decide +kernel, by decide +kernel⟩
  have hleast (line : ℕ) (h : Balances (Text.lines source.toList) 1 line) : 4 ≤ line := by
    obtain ⟨hlt, -, hclosed⟩ := h
    by_contra hline
    obtain rfl | rfl : line = 2 ∨ line = 3 := by omega
    · exact absurd hclosed (by decide +kernel)
    · exact absurd hclosed (by decide +kernel)
  exact ⟨hstart, hbalances,
    ((locate_sound_complete source (.name "é")).2.1 1 4 hstart hbalances hleast).1⟩

end ScriptMailbox.Source
