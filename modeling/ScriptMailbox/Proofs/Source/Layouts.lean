import ScriptMailbox.Proofs.Source.Depths
import Mathlib.Data.List.Forall2

/-!
# The layout of a source

What is located depends on the kinds of lines and on the names that they declare. A line keeps both
when other blanks stand in front of it, or a carriage return before its line feed. So in a source
whose layout is changed in such ways the same lines are located (`locate_relaid`).
-/

namespace ScriptMailbox.Source

variable {source changed : String} {query : Query} {first last : ℕ} {line other : List Char}
  {lines others : List (List Char)}

/-- Whether a line is another one with other blanks in front of it, and perhaps with a carriage
return before its line feed. -/
inductive Relaid : List Char → List Char → Prop
  | indented (old new body : List Char) (hold : ∀ c ∈ old, Text.isBlank c = true)
    (hnew : ∀ c ∈ new, Text.isBlank c = true) : Relaid (old ++ body) (new ++ body)
  | returned (old new body : List Char) (hold : ∀ c ∈ old, Text.isBlank c = true)
    (hnew : ∀ c ∈ new, Text.isBlank c = true) :
    Relaid (old ++ (body ++ ['\n'])) (new ++ (body ++ ['\r', '\n']))

/-- A line that is laid out anew is of the same kind. -/
theorem Relaid.ofLine_eq (h : Relaid line other) :
    LineKind.ofLine line = LineKind.ofLine other := by
  cases h with
  | indented old new body hold hnew => rw [ofLine_indent hold, ofLine_indent hnew]
  | returned old new body hold hnew =>
    rw [ofLine_indent hold, ofLine_indent hnew, ofLine_concat (by decide), List.append_cons,
      ofLine_concat (by decide), ofLine_concat (by decide)]

/-- It declares the same names. -/
theorem Relaid.declares_eq (h : Relaid line other) (name : List Char) :
    declares name line = declares name other := by
  cases h with
  | indented old new body hold hnew => rw [declares_indent hold, declares_indent hnew]
  | returned old new body hold hnew =>
    rw [declares_indent hold, declares_indent hnew, declares_concat (by decide), List.append_cons,
      declares_concat (by decide), declares_concat (by decide)]

/-- Whether two lists of lines agree, line by line, in what matters for locating. -/
structure AgreeOn (query : Query) (lines others : List (List Char)) : Prop where
  kinds : lines.map LineKind.ofLine = others.map LineKind.ofLine
  firstLine : firstLine? lines query = firstLine? others query

/-- Lines that agree are as many. -/
theorem AgreeOn.length_eq (h : AgreeOn query lines others) : lines.length = others.length := by
  simpa using congrArg List.length h.kinds

/-- Lines of the same kinds open and close the same. -/
theorem balance_congr (h : lines.map LineKind.ofLine = others.map LineKind.ofLine) :
    balance lines = balance others := by
  induction lines generalizing others with
  | nil =>
    rw [List.map_nil, eq_comm, List.map_eq_nil_iff] at h
    rw [h]
  | cons line lines ih =>
    cases others with
    | nil => cases h
    | cons other others =>
      obtain ⟨hline, hlines⟩ := List.cons_eq_cons.mp h
      rw [balance_cons, balance_cons, hline, ih hlines]

/-- So as much is open behind each of them. -/
theorem AgreeOn.depth_eq (h : AgreeOn query lines others) (first last : ℕ) :
    depth lines first last = depth others first last := by
  rw [depth, depth, balance_congr]
  rw [List.map_take, List.map_drop, List.map_take, List.map_drop, h.kinds]

/-- Lines agree both ways. -/
theorem AgreeOn.symm (h : AgreeOn query lines others) : AgreeOn query others lines :=
  ⟨h.kinds.symm, h.firstLine.symm⟩

/-- So functions are closed by the same lines. -/
theorem AgreeOn.closes (h : AgreeOn query lines others) (hcloses : Closes lines first last) :
    Closes others first last := by
  obtain ⟨hlt, hlength, hclosed, hopen⟩ := hcloses
  simp only [h.depth_eq, h.length_eq] at hlength hclosed hopen
  exact ⟨hlt, hlength, hclosed, hopen⟩

/-- Headers are at the same places. -/
theorem any_isHeader_congr (h : lines.map LineKind.ofLine = others.map LineKind.ofLine)
    (index : ℕ) : lines[index]?.any isHeader = others[index]?.any isHeader := by
  have hkind := congrArg (·[index]?) h
  simp only [List.getElem?_map] at hkind
  rw [Bool.eq_iff_iff, Option.any_eq_true, Option.any_eq_true]
  constructor
  · rintro ⟨line, hline, hheader⟩
    rw [hline, Option.map_some, isHeader_iff.mp hheader] at hkind
    obtain ⟨other, hother, heq⟩ := Option.map_eq_some_iff.mp hkind.symm
    exact ⟨other, hother, isHeader_iff.mpr heq⟩
  · rintro ⟨other, hother, hheader⟩
    rw [hother, Option.map_some, isHeader_iff.mp hheader] at hkind
    obtain ⟨line, hline, heq⟩ := Option.map_eq_some_iff.mp hkind
    exact ⟨line, hline, isHeader_iff.mpr heq⟩

/-- So the nearest header is the same. -/
theorem lastHeader?_congr (h : lines.map LineKind.ofLine = others.map LineKind.ofLine)
    (count : ℕ) : lastHeader? lines count = lastHeader? others count := by
  induction count with
  | zero => rfl
  | succ count ih => rw [lastHeader?, lastHeader?, any_isHeader_congr h, ih]

/-- The first line that declares a name is the same. -/
theorem findIdx?_relaid (h : List.Forall₂ Relaid lines others) (name : List Char) :
    lines.findIdx? (declares name) = others.findIdx? (declares name) := by
  induction h with
  | nil => rfl
  | cons hline _ ih => rw [List.findIdx?_cons, List.findIdx?_cons, hline.declares_eq, ih]

/-- Sources that are laid out anew agree on every query. -/
theorem agreeOn_of_relaid (h : List.Forall₂ Relaid lines others) (query : Query) :
    AgreeOn query lines others := by
  have hkinds : lines.map LineKind.ofLine = others.map LineKind.ofLine := by
    induction h with
    | nil => rfl
    | cons hline _ ih => rw [List.map_cons, List.map_cons, hline.ofLine_eq, ih]
  refine ⟨hkinds, ?_⟩
  cases query with
  | line number => rw [firstLine?, firstLine?, h.length_eq, lastHeader?_congr hkinds]
  | name name => rw [firstLine?, firstLine?, findIdx?_relaid h]

/-- A source whose lines have other blanks in front of them, or carriage returns before their line
feeds, has the same lines located for every query, or none for the same reason. -/
theorem locate_relaid
    (h : List.Forall₂ Relaid (Text.lines source.toList) (Text.lines changed.toList))
    (query : Query) :
    (∃ first last, first ≤ last ∧ last < (Text.lines source.toList).length ∧
      locate source query = .ok (spanBetween (Text.lines source.toList) first last) ∧
      locate changed query = .ok (spanBetween (Text.lines changed.toList) first last)) ∨
    ∃ miss, locate source query = .error miss ∧ locate changed query = .error miss := by
  have hagree := agreeOn_of_relaid h query
  have hstart (first : ℕ) : IsStart source query first ↔ IsStart changed query first := by
    rw [← firstLine?_eq_some_iff, hagree.firstLine, firstLine?_eq_some_iff]
  by_cases hfirst : ∃ first, IsStart source query first
  · obtain ⟨first, hfirst⟩ := hfirst
    by_cases hlast : ∃ last, Closes (Text.lines source.toList) first last
    · obtain ⟨last, hlast⟩ := hlast
      refine .inl ⟨first, last, hlast.lt.le, hlast.lt_length, ?_, ?_⟩
      · exact locate_eq_ok_iff_closes.mpr ⟨first, last, hfirst, hlast, rfl⟩
      · exact locate_eq_ok_iff_closes.mpr ⟨first, last, (hstart first).mp hfirst,
          hagree.closes hlast, rfl⟩
    · rw [not_exists] at hlast
      refine .inr ⟨.unclosed query, locate_unclosed hfirst hlast, ?_⟩
      exact locate_unclosed ((hstart first).mp hfirst) fun last =>
        mt hagree.symm.closes (hlast last)
  · rw [not_exists] at hfirst
    exact .inr ⟨.absent query, locate_absent hfirst,
      locate_absent fun first => mt (hstart first).mpr (hfirst first)⟩

/-- Other blanks in front of a function and inside it, and carriage returns behind all lines but the
last one, which has no line feed. -/
theorem locate_relaid_returned :
    let source := "-- x\nfunction f()\n  é()\nend"
    let changed := "-- x\r\n\tfunction f()\r\n\u00a0é()\r\n  end"
    let lines := Text.lines source.toList
    let others := Text.lines changed.toList
    List.Forall₂ Relaid lines others ∧ ∃ first last, first ≤ last ∧ last < lines.length ∧
      locate source (.name "f") = .ok (spanBetween lines first last) ∧
      locate changed (.name "f") = .ok (spanBetween others first last) := by
  intro source changed lines others
  have hlines : lines = ["-- x\n".toList, "function f()\n".toList, "  é()\n".toList,
    "end".toList] := by decide +kernel
  have hothers : others = ["-- x\r\n".toList, "\tfunction f()\r\n".toList,
    "\u00a0é()\r\n".toList, "  end".toList] := by decide +kernel
  have hblank (blanks : List Char) (h : blanks.all Text.isBlank = true) :
      ∀ c ∈ blanks, Text.isBlank c = true := List.all_eq_true.mp h
  have hrelaid : List.Forall₂ Relaid lines others := by
    rw [hlines, hothers]
    refine .cons ?_ (.cons ?_ (.cons ?_ (.cons ?_ .nil)))
    · exact .returned [] [] "-- x".toList (hblank [] rfl) (hblank [] rfl)
    · exact .returned [] ['\t'] "function f()".toList (hblank [] rfl) (hblank ['\t'] rfl)
    · exact .returned [' ', ' '] ['\u00a0'] "é()".toList (hblank _ rfl) (hblank _ rfl)
    · exact .indented [] [' ', ' '] "end".toList (hblank [] rfl) (hblank [' ', ' '] rfl)
  refine ⟨hrelaid, ?_⟩
  rcases locate_relaid hrelaid (.name "f") with hlocated | ⟨miss, hmiss, -⟩
  · exact hlocated
  · have hfound : locate source (.name "f") = .ok ⟨5, 28, "function f()\n  é()\nend"⟩ := by
      decide +kernel
    rw [hfound] at hmiss
    cases hmiss

end ScriptMailbox.Source
