import ScriptMailbox.Proofs.Source.Editing
import ScriptMailbox.Proofs.Source.Nesting

/-!
# The function around a line

A function reaches from its header to the first line at which as many functions have been closed as
were opened (`isFunction_cons_iff`). A line asks for the nearest header at or before it. Every other
function around the line starts earlier, so the located function is the innermost one around the
line whenever it reaches the line; and it does so exactly if no function is closed between its
header and the line (`locate_line_nearest`).
-/

namespace ScriptMailbox.Source

variable {source : String} {span other : Span} {number first inner count : ℕ}
  {line header : List Char} {lines found body before after : List (List Char)}

/-! ## Balance -/

/-- How many functions a line opens; one that it closes counts against it. -/
def LineKind.balance : LineKind → ℤ
  | .header => 1
  | .terminator => -1
  | .other => 0

/-- How many functions more some lines open than they close. -/
def balance : List (List Char) → ℤ
  | [] => 0
  | line :: lines => (LineKind.ofLine line).balance + balance lines

/-- No lines open and close nothing. -/
@[simp] theorem balance_nil : balance [] = 0 := rfl

/-- The first line counts, and then the others. -/
@[simp] theorem balance_cons (line : List Char) (lines : List (List Char)) :
    balance (line :: lines) = (LineKind.ofLine line).balance + balance lines :=
  rfl

/-- The headers are the lines of that kind. -/
theorem isHeader_iff : isHeader line = true ↔ LineKind.ofLine line = .header :=
  ⟨fun h => if_pos h, isHeader_of_ofLine⟩

/-- Lines without a header open nothing, and they close something exactly if one of them is a
terminator. -/
theorem balance_of_no_header (h : ∀ line ∈ lines, isHeader line = false) :
    balance lines ≤ 0 ∧
      (balance lines = 0 ↔ ∀ line ∈ lines, LineKind.ofLine line ≠ .terminator) := by
  induction lines with
  | nil => simp
  | cons line lines ih =>
    obtain ⟨hline, hlines⟩ := List.forall_mem_cons.mp h
    obtain ⟨hle, hiff⟩ := ih hlines
    rw [balance_cons, List.forall_mem_cons, ← hiff]
    cases hkind : LineKind.ofLine line with
    | header =>
      rw [isHeader_iff.mpr hkind] at hline
      cases hline
    | terminator =>
      have hbalance : LineKind.balance .terminator = -1 := rfl
      simp only [ne_eq, not_true, false_and, iff_false]
      omega
    | other => simpa [LineKind.balance] using hle

/-! ## Functions -/

/-- Whether some lines are those of a function: a header, and lines behind it of which the last one,
and none before, closes what has been opened. -/
structure IsFunction (lines : List (List Char)) : Prop where
  header : ∃ line body, lines = line :: body ∧ isHeader line = true
  closed : balance lines = 0
  isOpen : ∀ count, 0 < count → count < lines.length → 0 < balance (lines.take count)

/-- A line either closes the last function that is open, or the lines behind it are counted with
what it leaves open. -/
theorem body?_cons_balance (inner : ℕ) (line : List Char) :
    (inner + 1 + (LineKind.ofLine line).balance = 0 ∧
        ∀ rest, body? inner (line :: rest) = some [line]) ∨
      ∃ deeper : ℕ, (deeper : ℤ) = inner + (LineKind.ofLine line).balance ∧
        ∀ rest, body? inner (line :: rest) = (body? deeper rest).map (line :: ·) := by
  cases hkind : LineKind.ofLine line with
  | header => exact .inr ⟨inner + 1, rfl, fun rest => body?_header inner rest hkind⟩
  | other => exact .inr ⟨inner, (Int.add_zero _).symm, fun rest => body?_other inner rest hkind⟩
  | terminator =>
    cases inner with
    | zero => exact .inl ⟨rfl, fun rest => body?_terminator_zero rest hkind⟩
    | succ inner =>
      refine .inr ⟨inner, ?_, fun rest => body?_terminator_succ inner rest hkind⟩
      rw [LineKind.balance]
      omega

/-- Counting finds the line at which what is open has been closed, and no line before it. -/
theorem body?_self_iff :
    body? inner body = some body ↔
      inner + 1 + balance body = 0 ∧
        ∀ count < body.length, 0 < inner + 1 + balance (body.take count) := by
  -- on the lines of the body; one line more shifts the depth by its balance
  induction body generalizing inner with
  | nil =>
    simp only [body?, reduceCtorEq, balance_nil, false_iff, not_and]
    omega
  | cons line body ih =>
    rw [List.length_cons, Nat.forall_lt_succ_left, List.take_zero, balance_nil]
    simp only [List.take_succ_cons, balance_cons]
    -- the line closes what is open, or counting goes on at another depth
    rcases body?_cons_balance inner line with ⟨hcloses, hends⟩ | ⟨deeper, hdeeper, hgoes⟩
    · rw [hends, Option.some.injEq, List.cons.injEq, eq_comm (a := [])]
      constructor
      · rintro ⟨-, rfl⟩
        refine ⟨by rw [balance_nil]; omega, by omega, fun count hcount => ?_⟩
        cases hcount
      · rintro ⟨hclosed, -, hopen⟩
        refine ⟨rfl, List.eq_nil_of_length_eq_zero ?_⟩
        by_contra hne
        have := hopen 0 (Nat.pos_of_ne_zero hne)
        rw [List.take_zero, balance_nil] at this
        omega
    · have hself : (body? deeper body).map (line :: ·) = some (line :: body) ↔
          body? deeper body = some body := by
        simp
      have hopen (more : ℤ) : inner + 1 + ((LineKind.ofLine line).balance + more) =
          deeper + 1 + more := by
        omega
      rw [hgoes, hself, ih]
      simp only [hopen]
      constructor
      · rintro ⟨hclosed, hinside⟩
        exact ⟨hclosed, by omega, hinside⟩
      · rintro ⟨hclosed, -, hinside⟩
        exact ⟨hclosed, hinside⟩

/-- Lines are a function if a header comes first and the rest closes it at its end. -/
theorem isFunction_cons_iff :
    IsFunction (line :: body) ↔ isHeader line = true ∧ body? 0 body = some body := by
  have hbalance (h : isHeader line = true) : (LineKind.ofLine line).balance = 1 := by
    rw [isHeader_iff.mp h]
    rfl
  rw [body?_self_iff]
  constructor
  · rintro ⟨⟨_, _, heq, hline⟩, hclosed, hopen⟩
    cases heq
    rw [balance_cons, hbalance hline] at hclosed
    refine ⟨hline, by simpa using hclosed, fun count hcount => ?_⟩
    have := hopen (count + 1) count.succ_pos (by simpa using hcount)
    rw [List.take_succ_cons, balance_cons, hbalance hline] at this
    simpa using this
  · rintro ⟨hline, hclosed, hopen⟩
    refine ⟨⟨line, body, rfl, hline⟩, ?_, fun count hpos hcount => ?_⟩
    · rw [balance_cons, hbalance hline]
      simpa using hclosed
    · obtain ⟨count, rfl⟩ := Nat.exists_eq_succ_of_ne_zero hpos.ne'
      rw [List.take_succ_cons, balance_cons, hbalance hline]
      simpa using hopen count (by simpa using hcount)

/-- A function has at least one line. -/
theorem IsFunction.length_pos (h : IsFunction found) : 0 < found.length := by
  obtain ⟨line, body, rfl, -⟩ := h.header
  exact List.length_pos_of_ne_nil (List.cons_ne_nil line body)

/-- No function is a proper beginning of another one. -/
theorem IsFunction.length_le (h : IsFunction found) (h' : IsFunction body)
    (heq : found ++ before = body ++ after) : body.length ≤ found.length := by
  by_contra hlt
  rw [not_le] at hlt
  have htake : body.take found.length = found := by
    rw [← List.take_append_of_le_length hlt.le, ← heq, List.take_left]
  have := h'.isOpen found.length h.length_pos hlt
  rw [htake, h.closed] at this
  exact lt_irrefl 0 this

/-- From one line on there is one function at most. -/
theorem IsFunction.eq_of_append (h : IsFunction found) (h' : IsFunction body)
    (heq : found ++ before = body ++ after) : found = body :=
  (List.append_inj heq ((h'.length_le h heq.symm).antisymm (h.length_le h' heq))).1

/-! ## Lines and offsets -/

/-- The byte offset behind some of the first lines. -/
def offset (lines : List (List Char)) (count : ℕ) : ℕ :=
  byteLength (lines.take count).flatten

/-- Lines end where the lines behind them start. -/
theorem offset_append (before after : List (List Char)) :
    offset (before ++ after) before.length = byteLength before.flatten := by
  rw [offset, List.take_left]

/-- Every line takes some bytes. -/
theorem offset_lt (hne : ∀ line ∈ lines, line ≠ []) (h : first < count)
    (hcount : count ≤ lines.length) : offset lines first < offset lines count := by
  obtain ⟨more, rfl⟩ := Nat.exists_eq_add_of_lt h
  rw [offset, offset, Nat.add_assoc, List.take_add, List.flatten_append, byteLength_append]
  have hlength : ((lines.drop first).take (more + 1)).length = more + 1 := by
    rw [List.length_take, List.length_drop]
    omega
  have := byteLength_flatten_pos (List.ne_nil_of_length_eq_add_one hlength) fun line hline =>
    hne line (List.mem_of_mem_drop (List.mem_of_mem_take hline))
  omega

/-- Lines that start earlier come earlier. -/
theorem offset_le_iff (hne : ∀ line ∈ lines, line ≠ []) (hfirst : first ≤ lines.length)
    (hcount : count ≤ lines.length) : offset lines first ≤ offset lines count ↔ first ≤ count := by
  rcases lt_trichotomy first count with h | rfl | h
  · exact ⟨fun _ => h.le, fun _ => (offset_lt hne h hcount).le⟩
  · simp
  · have := offset_lt hne h hfirst
    omega

/-- Whether a span holds a line of a source; lines count from one. -/
structure HoldsLine (source : String) (number : ℕ) (span : Span) : Prop where
  pos : 0 < number
  le_length : number ≤ (Text.lines source.toList).length
  start_le : span.start ≤ offset (Text.lines source.toList) (number - 1)
  le_stop : offset (Text.lines source.toList) number ≤ span.stop

/-- Whether a span is that of the function whose header comes behind some of the first lines. -/
def IsFunctionSpan (source : String) (first : ℕ) (span : Span) : Prop :=
  ∃ before found after, Text.lines source.toList = before ++ found ++ after ∧
    before.length = first ∧ IsFunction found ∧ span = spanOfLines before found

/-- A span of lines starts where its first line starts. -/
theorem start_spanOfLines (hlines : Text.lines source.toList = before ++ found ++ after) :
    (spanOfLines before found).start = offset (Text.lines source.toList) before.length := by
  rw [hlines, List.append_assoc, offset_append]
  rfl

/-- It stops where the line behind its last one starts. -/
theorem stop_spanOfLines (hlines : Text.lines source.toList = before ++ found ++ after) :
    (spanOfLines before found).stop =
      offset (Text.lines source.toList) (before.length + found.length) := by
  rw [hlines, ← List.length_append, offset_append, List.flatten_append, byteLength_append]
  rfl

/-- It holds the lines that it is made of. -/
theorem holdsLine_iff (hlines : Text.lines source.toList = before ++ found ++ after) :
    HoldsLine source number (spanOfLines before found) ↔
      before.length < number ∧ number ≤ before.length + found.length := by
  have hne : ∀ line ∈ Text.lines source.toList, line ≠ [] := fun _ => Text.ne_nil_of_mem_lines
  have hlength := congrArg List.length hlines
  rw [List.length_append, List.length_append] at hlength
  have hstart := start_spanOfLines hlines
  have hstop := stop_spanOfLines hlines
  constructor
  · rintro ⟨hpos, hle, hfirst, hlast⟩
    rw [hstart, offset_le_iff hne (by omega) (by omega)] at hfirst
    rw [hstop, offset_le_iff hne hle (by omega)] at hlast
    omega
  · rintro ⟨hfirst, hlast⟩
    refine ⟨by omega, by omega, ?_, ?_⟩
    · rw [hstart, offset_le_iff hne (by omega) (by omega)]
      omega
    · rwa [hstop, offset_le_iff hne (by omega) (by omega)]

/-- A header has at most one function. -/
theorem IsFunctionSpan.unique (h : IsFunctionSpan source first span)
    (h' : IsFunctionSpan source first other) : span = other := by
  obtain ⟨before, found, after, hlines, rfl, hfound, rfl⟩ := h
  obtain ⟨before', found', after', hlines', hlength, hfound', rfl⟩ := h'
  rw [hlines, List.append_assoc, List.append_assoc] at hlines'
  obtain ⟨rfl, heq⟩ := List.append_inj hlines' hlength.symm
  rw [hfound.eq_of_append hfound' heq]

/-! ## The nearest header -/

/-- What a line means for the nesting of functions, by how many lines come before it. -/
def kindAt? (source : String) (index : ℕ) : Option LineKind :=
  (Text.lines source.toList)[index]?.map LineKind.ofLine

/-- Whether the line behind some of the first lines is the last header up to a line. -/
structure IsNearestHeader (source : String) (number first : ℕ) : Prop where
  lt : first < number
  le_length : number ≤ (Text.lines source.toList).length
  header : kindAt? source first = some .header
  last : ∀ index, first < index → index < number → kindAt? source index ≠ some .header

/-- What is found is a header, and none comes behind it. -/
theorem lastHeader?_eq_some (h : lastHeader? lines count = some first) :
    first < count ∧ lines[first]?.any isHeader = true ∧
      ∀ index, first < index → index < count → lines[index]?.any isHeader = false := by
  induction count with
  | zero => cases h
  | succ count ih =>
    rw [lastHeader?] at h
    split_ifs at h with hheader
    · cases h
      exact ⟨Nat.lt_succ_self _, hheader, fun index _ _ => by omega⟩
    · obtain ⟨hlt, hfirst, hlast⟩ := ih h
      refine ⟨by omega, hfirst, fun index hindex hcount => ?_⟩
      rcases Nat.lt_succ_iff_lt_or_eq.mp hcount with hcount | rfl
      · exact hlast index hindex hcount
      · exact Bool.not_eq_true _ ▸ hheader

/-- A header is at a place exactly if the line there is of that kind. -/
theorem any_isHeader_iff {index : ℕ} :
    (Text.lines source.toList)[index]?.any isHeader = true ↔
      kindAt? source index = some .header := by
  rw [kindAt?]
  cases (Text.lines source.toList)[index]? with
  | none => simp
  | some line => simp [isHeader_iff]

/-- A line asks for the nearest header. -/
theorem isNearestHeader_of_firstLine?
    (h : firstLine? (Text.lines source.toList) (.line number) = some first) :
    IsNearestHeader source number first := by
  rw [firstLine?] at h
  split_ifs at h with hlength
  obtain ⟨hlt, hheader, hlast⟩ := lastHeader?_eq_some h
  refine ⟨hlt, by omega, any_isHeader_iff.mp hheader, fun index hindex hnumber heq => ?_⟩
  have := hlast index hindex hnumber
  rw [any_isHeader_iff.mpr heq] at this
  cases this

/-- The lines of a function behind its header are those behind the header in the source. -/
theorem kindAt?_behind (hlines : Text.lines source.toList = before ++ (header :: body) ++ after)
    (hcount : count < body.length) :
    kindAt? source (before.length + (count + 1)) = some (LineKind.ofLine body[count]) := by
  rw [kindAt?, hlines, List.append_assoc, List.getElem?_append_right (Nat.le_add_right _ _),
    Nat.add_sub_cancel_left, List.cons_append, List.getElem?_cons_succ,
    List.getElem?_append_left hcount, List.getElem?_eq_getElem hcount, Option.map_some]

/-- Up to the line that asks for it, nothing behind a header opens a function. -/
theorem IsNearestHeader.no_header (h : IsNearestHeader source number before.length)
    (hlines : Text.lines source.toList = before ++ (header :: body) ++ after)
    (hcount : before.length + min count body.length < number) :
    ∀ line ∈ body.take count, isHeader line = false := by
  intro line hline
  obtain ⟨place, hplace, rfl⟩ := List.mem_iff_getElem.mp hline
  rw [List.length_take] at hplace
  rw [List.getElem_take]
  by_contra hheader
  rw [Bool.not_eq_false, isHeader_iff] at hheader
  refine h.last (before.length + (place + 1)) (by omega) (by omega) ?_
  rw [kindAt?_behind hlines (by omega), hheader]

/-- The function of the nearest header reaches a line exactly if no terminator stands between the
header and the line. -/
theorem IsNearestHeader.holdsLine_iff (h : IsNearestHeader source number first)
    (hspan : IsFunctionSpan source first span) :
    HoldsLine source number span ↔
      ∀ index, first < index → index + 1 < number → kindAt? source index ≠ some .terminator := by
  obtain ⟨before, found, after, hlines, rfl, hfound, rfl⟩ := hspan
  obtain ⟨header, body, rfl, hheader⟩ := hfound.header
  have hopening : (LineKind.ofLine header).balance = 1 := by
    rw [isHeader_iff.mp hheader]
    rfl
  rw [Source.holdsLine_iff hlines, List.length_cons]
  constructor
  · -- a terminator before the line would close the function there
    rintro ⟨-, hreaches⟩ index hlt hnumber hterminator
    obtain ⟨count, rfl⟩ := Nat.exists_eq_add_of_lt hlt
    have hcount : count < body.length := by omega
    have hpassed := balance_of_no_header
      (h.no_header hlines (by omega : before.length + min (count + 1) body.length < number))
    have hopen := hfound.isOpen (count + 2) (by omega) (by rw [List.length_cons]; omega)
    rw [List.take_succ_cons, balance_cons, hopening] at hopen
    have hmem : body[count] ∈ body.take (count + 1) := by
      rw [List.take_succ_eq_append_getElem hcount]
      exact List.mem_concat_self
    refine hpassed.2.mp (by omega) body[count] hmem ?_
    have hkind := kindAt?_behind hlines hcount
    rw [← Nat.add_assoc, hterminator, Option.some.injEq] at hkind
    exact hkind.symm
  · -- a function that ends before the line ends with a terminator
    intro hnone
    refine ⟨h.lt, ?_⟩
    by_contra hshort
    have hpassed := balance_of_no_header
      (h.no_header hlines (by omega : before.length + min body.length body.length < number))
    rw [List.take_length] at hpassed
    have hquiet : ∀ line ∈ body, LineKind.ofLine line ≠ .terminator := by
      intro line hline hterminator
      obtain ⟨place, hplace, rfl⟩ := List.mem_iff_getElem.mp hline
      refine hnone (before.length + (place + 1)) (by omega) (by omega) ?_
      rw [kindAt?_behind hlines hplace, hterminator]
    have hclosed := hfound.closed
    rw [balance_cons, hopening, hpassed.2.mpr hquiet] at hclosed
    omega

/-- What is located for a line is the function of the nearest header. -/
theorem isNearestHeader_of_locate (h : locate source (.line number) = .ok span) :
    ∃ first, IsNearestHeader source number first ∧ IsFunctionSpan source first span := by
  obtain ⟨before, found, after, hlines, ⟨hfirst, line, body, rfl, hbody⟩, rfl⟩ :=
    locate_eq_ok_iff.mp h
  rw [← hlines] at hfirst
  have hnearest := isNearestHeader_of_firstLine? hfirst
  have hheader := hnearest.header
  rw [kindAt?, hlines, List.append_assoc, List.getElem?_append_right le_rfl, Nat.sub_self,
    List.cons_append, List.getElem?_cons_zero, Option.map_some, Option.some.injEq] at hheader
  exact ⟨before.length, hnearest, before, line :: body, after, hlines, rfl,
    isFunction_cons_iff.mpr ⟨isHeader_iff.mpr hheader, hbody⟩, rfl⟩

/-- The span of a function starts where its header starts. -/
theorem IsFunctionSpan.start_eq (h : IsFunctionSpan source first span) :
    span.start = offset (Text.lines source.toList) first := by
  obtain ⟨before, found, after, hlines, rfl, -, rfl⟩ := h
  exact start_spanOfLines hlines

/-- Its first line is a header. -/
theorem IsFunctionSpan.kindAt?_eq (h : IsFunctionSpan source first span) :
    kindAt? source first = some .header := by
  obtain ⟨before, found, after, hlines, rfl, hfound, rfl⟩ := h
  obtain ⟨header, body, rfl, hheader⟩ := hfound.header
  rw [kindAt?, hlines, List.append_assoc, List.getElem?_append_right le_rfl, Nat.sub_self,
    List.cons_append, List.getElem?_cons_zero, Option.map_some, isHeader_iff.mp hheader]

/-- It holds no line in front of its header. -/
theorem IsFunctionSpan.lt_of_holdsLine (h : IsFunctionSpan source first span)
    (hholds : HoldsLine source number span) : first < number := by
  obtain ⟨before, found, after, hlines, rfl, -, rfl⟩ := h
  exact ((holdsLine_iff hlines).mp hholds).1

/-- A function that starts before a line, or in it, and does not reach it ends before it. -/
theorem IsFunctionSpan.stop_le (h : IsFunctionSpan source first span) (hfirst : first < number)
    (hnumber : number ≤ (Text.lines source.toList).length)
    (hshort : ¬HoldsLine source number span) :
    span.stop ≤ offset (Text.lines source.toList) (number - 1) := by
  obtain ⟨before, found, after, hlines, rfl, -, rfl⟩ := h
  rw [holdsLine_iff hlines] at hshort
  rw [stop_spanOfLines hlines,
    offset_le_iff (fun _ => Text.ne_nil_of_mem_lines) (by omega) (by omega)]
  omega

/-- The function that is located for a line is that of the nearest header at or before the line.
Every other function around the line starts before it. It reaches the line exactly if no function
is closed between its header and the line, and ends before the line otherwise. -/
theorem locate_line_nearest (h : locate source (.line number) = .ok span) :
    ∃ first, IsNearestHeader source number first ∧ IsFunctionSpan source first span ∧
      (∀ index other, IsFunctionSpan source index other → HoldsLine source number other →
        other = span ∨ other.start < span.start) ∧
      (HoldsLine source number span ↔ ∀ index, first < index → index + 1 < number →
        kindAt? source index ≠ some .terminator) ∧
      (¬HoldsLine source number span →
        span.stop ≤ offset (Text.lines source.toList) (number - 1)) := by
  obtain ⟨first, hnearest, hspan⟩ := isNearestHeader_of_locate h
  refine ⟨first, hnearest, hspan, fun index other hother hholds => ?_,
    hnearest.holdsLine_iff hspan, hspan.stop_le hnearest.lt hnearest.le_length⟩
  by_cases hindex : first ≤ index
  · obtain rfl : index = first := by
      by_contra hne
      exact hnearest.last index (by omega) (hother.lt_of_holdsLine hholds) hother.kindAt?_eq
    exact .inl (hother.unique hspan)
  right
  rw [not_le] at hindex
  have hfirst : first ≤ (Text.lines source.toList).length :=
    hnearest.lt.le.trans hnearest.le_length
  rw [hother.start_eq, hspan.start_eq]
  exact offset_lt (fun _ => Text.ne_nil_of_mem_lines) hindex hfirst

/-- A line of a function inside another one. -/
theorem locate_line_nearest_inner :
    let source := "function f()\n  function g()\n    x()\n  end\nend\n"
    let span : Span := ⟨13, 42, "  function g()\n    x()\n  end\n"⟩
    locate source (.line 3) = .ok span ∧ HoldsLine source 3 span ∧
      ∃ first, IsNearestHeader source 3 first ∧ ∀ index other,
        IsFunctionSpan source index other → HoldsLine source 3 other →
          other = span ∨ other.start < 13 := by
  intro source span
  have hlocate : locate source (.line 3) = .ok span := by decide +kernel
  have hholds : HoldsLine source 3 span :=
    ⟨by decide, by decide +kernel, by decide +kernel, by decide +kernel⟩
  obtain ⟨first, hnearest, -, hothers, -⟩ := locate_line_nearest hlocate
  exact ⟨hlocate, hholds, first, hnearest, hothers⟩

/-- Behind an inner function a line lies in the outer one, and yet the inner one is located. -/
theorem locate_line_passed :
    let source := "function f()\n  function g()\n  end\n  x()\nend\n"
    ∃ span outer, locate source (.line 4) = .ok span ∧ ¬HoldsLine source 4 span ∧
      IsFunctionSpan source 0 outer ∧ HoldsLine source 4 outer := by
  intro source
  let lines := Text.lines source.toList
  have hfunction : IsFunctionSpan source 0 (spanOfLines [] lines) := by
    refine ⟨[], lines, [], (List.append_nil _).symm, rfl, ?_, rfl⟩
    have hlines : lines = lines.head (by decide +kernel) :: lines.tail :=
      (List.cons_head_tail _).symm
    rw [hlines, isFunction_cons_iff]
    exact ⟨by decide +kernel, by decide +kernel⟩
  refine ⟨⟨13, 34, "  function g()\n  end\n"⟩, spanOfLines [] lines, by decide +kernel,
    fun hholds => absurd hholds.le_stop (by decide +kernel), hfunction, ?_⟩
  exact ⟨by decide, by decide +kernel, by decide +kernel, by decide +kernel⟩

end ScriptMailbox.Source
