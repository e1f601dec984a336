import ScriptMailbox.Proofs.Source.Depths

/-!
# Functions inside functions

The depth counted from an inner header is the depth counted from an outer one, less what was open
in front of the inner header. So the inner function is closed first: of two functions that are
located by their headers one lies strictly inside the other, or one ends before the other starts
(`locate_laminar`). This holds of every source, balanced or not.
-/

namespace ScriptMailbox.Source

variable {source : String} {span outer : Span} {first second last : ℕ} {lines : List (List Char)}

/-- A header is the nearest one to its own line. -/
theorem isNearestHeader_self (h : kindAt? source first = some .header) :
    IsNearestHeader source (first + 1) first := by
  refine ⟨first.lt_succ_self, ?_, h, fun index hlt hindex => by omega⟩
  rw [kindAt?, Option.map_eq_some_iff] at h
  obtain ⟨line, hline, -⟩ := h
  exact (List.getElem?_eq_some_iff.mp hline).1

/-- The line of a header asks for the function that it starts. -/
theorem locate_header_iff (h : kindAt? source first = some .header) :
    locate source (.line (first + 1)) = .ok span ↔
      ∃ last, Closes (Text.lines source.toList) first last ∧
        span = spanBetween (Text.lines source.toList) first last := by
  rw [locate_eq_ok_iff_closes]
  constructor
  · rintro ⟨other, last, hstart, hcloses, rfl⟩
    obtain rfl := (isNearestHeader_self h).unique hstart
    exact ⟨last, hcloses, rfl⟩
  · rintro ⟨last, hcloses, rfl⟩
    exact ⟨first, last, isNearestHeader_self h, hcloses, rfl⟩

/-- A function has one end. -/
theorem Closes.unique {other : ℕ} (h : Closes lines first last) (h' : Closes lines first other) :
    last = other := by
  have hle := h.isOpen other h'.lt
  have hge := h'.isOpen last h.lt
  rw [h'.closed] at hle
  rw [h.closed] at hge
  omega

/-- A header inside a function starts a function that is closed before the outer one. -/
theorem Closes.inside (h : Closes lines first last) (hfirst : first < second)
    (hsecond : second ≤ last) (hlength : second < lines.length)
    (hheader : LineKind.ofLine lines[second] = .header) :
    ∃ line < last, Closes lines second line := by
  obtain ⟨previous, rfl⟩ := Nat.exists_eq_add_one_of_ne_zero (by omega : second ≠ 0)
  -- the header adds to what is open in front of it, so more is open behind it than one function
  have hdepth : depth lines first (previous + 1) + 1 =
      depth lines first previous + depth lines previous (previous + 1) :=
    depth_add (by omega) previous.le_succ
  rw [depth_succ hlength, hheader] at hdepth
  have hopen : 0 < depth lines first previous := by
    rcases (by omega : first ≤ previous).eq_or_lt with rfl | hlt
    · rw [depth_self]
      decide
    · exact h.isOpen previous hlt (by omega)
  have hbalance : LineKind.balance .header = 1 := rfl
  have hrest : depth lines first last + 1 =
      depth lines first (previous + 1) + depth lines (previous + 1) last :=
    depth_add hfirst.le hsecond
  have hclosed := h.closed
  have hlt : previous + 1 < last := by
    refine hsecond.lt_of_ne ?_
    rintro rfl
    omega
  obtain ⟨line, hline, hcloses⟩ := exists_closes hlt h.lt_length (by omega)
  refine ⟨line, hline.lt_of_ne ?_, hcloses⟩
  rintro rfl
  have := hcloses.closed
  omega

/-- A span between two lines starts where the first one starts. -/
theorem start_spanBetween (h : Closes (Text.lines source.toList) first last) :
    (spanBetween (Text.lines source.toList) first last).start =
      offset (Text.lines source.toList) first :=
  (holdsLines_spanBetween h.lt.le h.lt_length).start_eq

/-- It stops where the line behind the last one starts. -/
theorem stop_spanBetween (h : Closes (Text.lines source.toList) first last) :
    (spanBetween (Text.lines source.toList) first last).stop =
      offset (Text.lines source.toList) (last + 1) :=
  (holdsLines_spanBetween h.lt.le h.lt_length).stop_eq

/-- It holds the lines between the two. -/
theorem holdsLine_spanBetween_iff (h : Closes (Text.lines source.toList) first last) :
    HoldsLine source (second + 1) (spanBetween (Text.lines source.toList) first last) ↔
      first ≤ second ∧ second ≤ last := by
  have hne : ∀ line ∈ Text.lines source.toList, line ≠ [] := fun _ => Text.ne_nil_of_mem_lines
  have hlength := h.lt_length
  have hlt := h.lt
  constructor
  · rintro ⟨-, hsecond, hstart, hstop⟩
    rw [start_spanBetween h, offset_le_iff hne (by omega) (by omega)] at hstart
    rw [stop_spanBetween h, offset_le_iff hne hsecond (by omega)] at hstop
    omega
  · rintro ⟨hfirst, hsecond⟩
    refine ⟨by omega, by omega, ?_, ?_⟩
    · rwa [start_spanBetween h, Nat.add_sub_cancel, offset_le_iff hne (by omega) (by omega)]
    · rw [stop_spanBetween h, offset_le_iff hne (by omega) (by omega)]
      omega

/-- Of two functions that are located by their headers, the later one lies strictly inside the other
or starts behind its end, and they do not end with the same line. A header inside a located function
always starts a function. -/
theorem locate_laminar (hlt : first < second) (hfirst : kindAt? source first = some .header)
    (hsecond : kindAt? source second = some .header)
    (houter : locate source (.line (first + 1)) = .ok outer) :
    (HoldsLine source (second + 1) outer →
      ∃ inner, locate source (.line (second + 1)) = .ok inner ∧
        outer.start < inner.start ∧ inner.stop < outer.stop) ∧
    ∀ inner, locate source (.line (second + 1)) = .ok inner →
      (¬HoldsLine source (second + 1) outer → outer.stop ≤ inner.start) ∧
      inner.stop ≠ outer.stop := by
  have hne : ∀ line ∈ Text.lines source.toList, line ≠ [] := fun _ => Text.ne_nil_of_mem_lines
  obtain ⟨last, hcloses, rfl⟩ := (locate_header_iff hfirst).mp houter
  have hlast := hcloses.lt_length
  -- a header inside a function is closed before the function is
  have hinside (h : second ≤ last) :
      ∃ line < last, Closes (Text.lines source.toList) second line := by
    refine hcloses.inside hlt h (by omega) ?_
    rwa [kindAt?, List.getElem?_eq_getElem, Option.map_some, Option.some.injEq] at hsecond
  rw [holdsLine_spanBetween_iff hcloses, start_spanBetween hcloses, stop_spanBetween hcloses]
  constructor
  · rintro ⟨-, hle⟩
    obtain ⟨line, hline, hinner⟩ := hinside hle
    refine ⟨_, (locate_header_iff hsecond).mpr ⟨line, hinner, rfl⟩, ?_, ?_⟩
    · rw [start_spanBetween hinner]
      exact offset_lt hne hlt (by omega)
    · rw [stop_spanBetween hinner]
      exact offset_lt hne (by omega) (by omega)
  · intro inner hlocate
    obtain ⟨line, hinner, rfl⟩ := (locate_header_iff hsecond).mp hlocate
    have hinnerlt := hinner.lt
    have hinnerlast := hinner.lt_length
    rw [start_spanBetween hinner, stop_spanBetween hinner]
    rcases Nat.lt_or_ge last second with hbehind | hle
    · have hstop := offset_lt hne (by omega : second < line + 1) (by omega)
      have hle := (offset_le_iff hne (by omega) (by omega)).mpr (by omega : last + 1 ≤ second)
      exact ⟨fun _ => hle, by omega⟩
    · obtain ⟨other, hother, hcloses'⟩ := hinside hle
      obtain rfl := hinner.unique hcloses'
      refine ⟨fun hnot => absurd ⟨hlt.le, hle⟩ hnot, ?_⟩
      exact (offset_lt hne (by omega) (by omega)).ne

/-- A function whose inner function is closed, before one that follows it. -/
theorem locate_laminar_nested :
    let source := "function f()\n  function g()\n  end\nend\nfunction h()\nend\n"
    let outer : Span := ⟨0, 38, "function f()\n  function g()\n  end\nend\n"⟩
    locate source (.line 1) = .ok outer ∧ HoldsLine source 2 outer ∧
      ∃ inner, locate source (.line 2) = .ok inner ∧ outer.start < inner.start ∧
        inner.stop < outer.stop := by
  intro source outer
  have houter : locate source (.line 1) = .ok outer := by decide +kernel
  have hholds : HoldsLine source 2 outer :=
    ⟨by decide, by decide +kernel, by decide +kernel, by decide +kernel⟩
  obtain ⟨inner, hinner, hstart, hstop⟩ := (locate_laminar (by decide : 0 < 1)
    (by decide +kernel) (by decide +kernel) houter).1 hholds
  exact ⟨houter, hholds, inner, hinner, hstart, hstop⟩

end ScriptMailbox.Source
