import ScriptMailbox.Source.Locate
import ScriptMailbox.Proofs.Text.Lines
import Mathlib.Data.String.Basic

/-!
# What is located

A located function is a stretch of the lines of its source (`locate_eq_ok_iff`): it starts at the
first line that the query asks for, and goes on until as many functions have been closed as were
opened. Lines that neither open nor close a function do not matter for where it ends.
-/

namespace ScriptMailbox.Source

variable {source : String} {query : Query} {span : Span} {inner : ℕ} {line : List Char}
  {before found after body rest : List (List Char)}

/-! ## Offsets -/

/-- The bytes of two texts are those of one and those of the other. -/
theorem byteLength_append (text more : List Char) :
    byteLength (text ++ more) = byteLength text + byteLength more := by
  induction text with
  | nil => simp [byteLength]
  | cons c text ih => rw [List.cons_append, byteLength, byteLength, ih, Nat.add_assoc]

/-- They are counted as the core library counts them. -/
theorem byteLength_eq (text : List Char) : byteLength text = (String.ofList text).utf8ByteSize := by
  rw [String.utf8ByteSize_ofList]
  induction text with
  | nil => rfl
  | cons c text ih => rw [byteLength, ih, String.utf8Len_cons, Nat.add_comm]

/-- A text that is not empty has bytes. -/
theorem byteLength_pos {text : List Char} (h : text ≠ []) : 0 < byteLength text := by
  obtain ⟨c, rest, rfl⟩ := List.exists_cons_of_ne_nil h
  have := c.utf8Size_pos
  rw [byteLength]
  omega

/-! ## Where a function ends -/

section

variable (inner : ℕ) (rest : List (List Char))

/-- A header opens one function more. -/
theorem body?_header (h : LineKind.ofLine line = .header) :
    body? inner (line :: rest) = (body? (inner + 1) rest).map (line :: ·) := by
  simp only [body?, h]

/-- A terminator closes the function itself if nothing else is open. -/
theorem body?_terminator_zero (h : LineKind.ofLine line = .terminator) :
    body? 0 (line :: rest) = some [line] := by
  simp only [body?, h]

/-- Otherwise it closes an inner one. -/
theorem body?_terminator_succ (h : LineKind.ofLine line = .terminator) :
    body? (inner + 1) (line :: rest) = (body? inner rest).map (line :: ·) := by
  simp only [body?, h]

/-- Every other line belongs to the body. -/
theorem body?_other (h : LineKind.ofLine line = .other) :
    body? inner (line :: rest) = (body? inner rest).map (line :: ·) := by
  simp only [body?, h]

end

/-- A line either ends the function, or goes with the lines behind it. -/
theorem body?_cons (inner : ℕ) (line : List Char) :
    (∀ rest, body? inner (line :: rest) = some [line]) ∨
      ∃ deeper, ∀ rest, body? inner (line :: rest) = (body? deeper rest).map (line :: ·) := by
  cases hkind : LineKind.ofLine line with
  | header => exact .inr ⟨_, fun rest => body?_header inner rest hkind⟩
  | other => exact .inr ⟨_, fun rest => body?_other inner rest hkind⟩
  | terminator =>
    cases inner with
    | zero => exact .inl fun rest => body?_terminator_zero rest hkind
    | succ inner => exact .inr ⟨_, fun rest => body?_terminator_succ inner rest hkind⟩

/-- A function ends with the lines that it consists of. -/
theorem body?_eq_some (h : body? inner rest = some body) :
    ∃ after, rest = body ++ after ∧ body? inner body = some body := by
  induction rest generalizing inner body with
  | nil => cases h
  | cons line rest ih =>
    rcases body?_cons inner line with hends | ⟨deeper, hgoes⟩
    · rw [hends] at h
      cases h
      exact ⟨rest, rfl, hends []⟩
    · rw [hgoes, Option.map_eq_some_iff] at h
      obtain ⟨more, hmore, rfl⟩ := h
      obtain ⟨after, rfl, hbody⟩ := ih hmore
      exact ⟨after, rfl, by rw [hgoes, hbody, Option.map_some]⟩

/-- What follows the end of a function does not matter. -/
theorem body?_append (h : body? inner rest = some body) (after : List (List Char)) :
    body? inner (rest ++ after) = some body := by
  induction rest generalizing inner body with
  | nil => cases h
  | cons line rest ih =>
    rw [List.cons_append]
    rcases body?_cons inner line with hends | ⟨deeper, hgoes⟩
    · rw [hends] at h ⊢
      exact h
    · rw [hgoes, Option.map_eq_some_iff] at h
      obtain ⟨more, hmore, rfl⟩ := h
      rw [hgoes, ih hmore, Option.map_some]

/-! ## Located lines -/

/-- A query asks for these lines of a source: the first one starts the function, and the last one
closes it. -/
structure Locates (query : Query) (before found after : List (List Char)) : Prop where
  first : firstLine? (before ++ found ++ after) query = some before.length
  closes : ∃ line body, found = line :: body ∧ body? 0 body = some body

/-- A search starts at a line of the source. -/
theorem firstLine?_lt {lines : List (List Char)} {first : ℕ}
    (h : firstLine? lines query = some first) : first < lines.length := by
  cases query with
  | line number =>
    rw [firstLine?] at h
    split_ifs at h with hnumber
    have hlast (count : ℕ) (hcount : lastHeader? lines count = some first) : first < count := by
      induction count with
      | zero => cases hcount
      | succ count ih =>
        rw [lastHeader?] at hcount
        split_ifs at hcount
        · cases hcount
          omega
        · have := ih hcount
          omega
    have := hlast number h
    omega
  | name name =>
    rw [firstLine?] at h
    split_ifs at h
    exact (List.findIdx?_eq_some_iff_findIdx_eq.mp h).1

/-- A function is located exactly if the source can be cut in front of it and behind it. -/
theorem locate_eq_ok_iff :
    locate source query = .ok span ↔
      ∃ before found after, Text.lines source.toList = before ++ found ++ after ∧
        Locates query before found after ∧ span = spanOfLines before found := by
  constructor
  · intro h
    simp only [locate] at h
    split at h
    · cases h
    rename_i first hfirst
    split at h
    · cases h
    rename_i line rest hdrop
    split at h
    · cases h
    rename_i body hbody
    cases h
    obtain ⟨after, rfl, hcloses⟩ := body?_eq_some hbody
    -- the lines that are skipped, those of the function, and the rest
    have hlines : Text.lines source.toList =
        (Text.lines source.toList).take first ++ (line :: body) ++ after := by
      rw [List.append_assoc, List.cons_append, ← hdrop, List.take_append_drop]
    have hlength : ((Text.lines source.toList).take first).length = first :=
      List.length_take_of_le (firstLine?_lt hfirst).le
    exact ⟨_, _, after, hlines, ⟨by rw [← hlines, hlength, hfirst], line, body, rfl, hcloses⟩, rfl⟩
  · rintro ⟨before, found, after, hlines, ⟨hfirst, line, body, rfl, hcloses⟩, rfl⟩
    have hdrop : (Text.lines source.toList).drop before.length = line :: (body ++ after) := by
      rw [hlines, List.append_assoc, List.drop_left, List.cons_append]
    rw [← hlines] at hfirst
    simp only [locate, hfirst, hdrop, body?_append hcloses after, Except.ok.injEq]
    rw [hlines, List.append_assoc, List.take_left]

/-- In particular such a cut is found. -/
theorem locate_of_locates (hlines : Text.lines source.toList = before ++ found ++ after)
    (h : Locates query before found after) :
    locate source query = .ok (spanOfLines before found) :=
  locate_eq_ok_iff.mpr ⟨before, found, after, hlines, h, rfl⟩

/-- A name asks for the first line that declares it. -/
theorem firstLine?_name_iff {name : String} :
    firstLine? (before ++ line :: rest) (.name name) = some before.length ↔
      name ≠ "" ∧ (∀ line ∈ before, declares name.toList line = false) ∧
        declares name.toList line = true := by
  rw [firstLine?]
  split_ifs with hname
  · simp [hname]
  · rw [and_iff_right hname, List.findIdx?_append, List.findIdx?_cons]
    constructor
    · intro h
      rcases hbefore : before.findIdx? (declares name.toList) with _ | first
      · rw [hbefore, Option.none_or] at h
        refine ⟨List.findIdx?_eq_none_iff.mp hbefore, ?_⟩
        by_contra hline
        rw [if_neg hline] at h
        obtain ⟨index, -, hindex⟩ : ∃ index, rest.findIdx? (declares name.toList) = some index ∧
            index + (1 + before.length) = before.length := by
          simpa using h
        omega
      · rw [hbefore, Option.some_or, Option.some.injEq] at h
        have := (List.findIdx?_eq_some_iff_findIdx_eq.mp hbefore).1
        omega
    · rintro ⟨hbefore, hline⟩
      rw [List.findIdx?_eq_none_iff.mpr hbefore, if_pos hline]
      simp

/-- So what follows a function that is asked for by name does not matter. -/
theorem locates_name_iff {name : String} :
    Locates (.name name) before found after ↔
      name ≠ "" ∧ (∀ line ∈ before, declares name.toList line = false) ∧
        ∃ line body, found = line :: body ∧ declares name.toList line = true ∧
          body? 0 body = some body := by
  constructor
  · rintro ⟨hfirst, line, body, rfl, hcloses⟩
    rw [List.append_assoc, List.cons_append, firstLine?_name_iff] at hfirst
    exact ⟨hfirst.1, hfirst.2.1, line, body, rfl, hfirst.2.2, hcloses⟩
  · rintro ⟨hname, hbefore, line, body, rfl, hline, hcloses⟩
    refine ⟨?_, line, body, rfl, hcloses⟩
    rw [List.append_assoc, List.cons_append, firstLine?_name_iff]
    exact ⟨hname, hbefore, hline⟩

/-- What is located is not empty. -/
theorem Locates.ne_nil (h : Locates query before found after) : found ≠ [] := by
  obtain ⟨line, body, rfl, -⟩ := h.closes
  exact List.cons_ne_nil line body

end ScriptMailbox.Source
