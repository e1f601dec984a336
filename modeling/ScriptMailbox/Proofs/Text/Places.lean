import ScriptMailbox.Text.Mark
import Mathlib.Data.List.Infix

/-!
# Where marks stand

The places of a mark in a text, apart from any reader. Cutting at a mark finds its first place, and
two marks that cannot overlap keep their lengths apart wherever they stand.
-/

namespace ScriptMailbox.Text

variable {α : Type} {mark lead text rest : List α} {place : ℕ}

/-- The mark stands at this place of the text. -/
def Stands (mark text : List α) (place : ℕ) : Prop :=
  mark <+: text.drop place

instance [DecidableEq α] : Decidable (Stands mark text place) :=
  inferInstanceAs (Decidable (mark <+: text.drop place))

/-- A mark stands at the start of a text that begins with it. -/
theorem stands_mark_append : Stands mark (mark ++ text) 0 :=
  List.prefix_append mark text

/-- Behind a lead, a mark stands where it stands in the text. -/
@[simp] theorem stands_append_length :
    Stands mark (lead ++ text) (lead.length + place) ↔ Stands mark text place := by
  rw [Stands, List.drop_length_add_append, Stands]

/-- The case of a lead of one letter. -/
theorem stands_cons {a : α} : Stands mark (a :: rest) (place + 1) ↔ Stands mark rest place :=
  Iff.rfl

/-- A mark that starts in the second part of a text stands in that part. -/
theorem Stands.behind (h : Stands mark (lead ++ text) place) (hle : lead.length ≤ place) :
    ∃ shift, place = lead.length + shift ∧ Stands mark text shift := by
  obtain ⟨shift, rfl⟩ := Nat.exists_eq_add_of_le hle
  exact ⟨shift, rfl, stands_append_length.mp h⟩

/-- A mark stands behind what stands before it. -/
theorem stands_at_length : Stands mark (lead ++ mark ++ text) lead.length := by
  rw [List.append_assoc, ← Nat.add_zero lead.length, stands_append_length]
  exact stands_mark_append

/-- A mark stays where it stands when something is appended. -/
theorem Stands.append_right (h : Stands mark lead place) (text : List α) :
    Stands mark (lead ++ text) place := by
  rw [Stands, List.drop_append]
  exact h.trans (List.prefix_append _ _)

/-- A mark that ends inside the first part of a text stands in that part. -/
theorem Stands.of_append (h : Stands mark (lead ++ text) place)
    (hend : place + mark.length ≤ lead.length) : Stands mark lead place := by
  rw [Stands, List.drop_append_of_le_length (by omega)] at h
  exact List.prefix_of_prefix_length_le h (List.prefix_append _ _)
    (by simp only [List.length_drop]; omega)

/-- A mark ends inside the text in which it stands. -/
theorem Stands.end_le (h : Stands mark text place) (hmark : mark ≠ []) :
    place + mark.length ≤ text.length := by
  have hlength := h.length_le
  have hpos := List.length_pos_iff.mpr hmark
  simp only [List.length_drop] at hlength
  omega

/-- In itself a mark stands at the start only. -/
theorem stands_self_iff (hmark : mark ≠ []) : Stands mark mark place ↔ place = 0 := by
  constructor
  · intro h
    have := h.end_le hmark
    omega
  · rintro rfl
    exact List.prefix_refl mark

/-- Where a mark stands, each part of it stands at its own distance. -/
theorem Stands.part {start finish : List α} (h : Stands (start ++ mark ++ finish) text place) :
    Stands mark text (place + start.length) := by
  obtain ⟨after, hafter⟩ := h
  refine ⟨finish ++ after, ?_⟩
  rw [← List.drop_drop, ← hafter, List.append_assoc, List.append_assoc, List.drop_left]

/-! ## Marks that do not overlap -/

/-- When `second` starts `least` or more places behind the start of `first`, it starts behind the
end of `first`: no end of `first` agrees with a start of `second`. -/
def Apart (least : ℕ) (first second : List α) : Prop :=
  ∀ shift < first.length, least ≤ shift →
    ¬first.drop shift <+: second ∧ ¬second <+: first.drop shift

instance [DecidableEq α] {least : ℕ} {first second : List α} :
    Decidable (Apart least first second) :=
  inferInstanceAs (Decidable (∀ shift < first.length, least ≤ shift → _))

/-- Two marks that stand in one text and do not overlap follow each other. -/
theorem Apart.end_le {least i j : ℕ} {first second : List α} (hapart : Apart least first second)
    (hfirst : Stands first text i) (hsecond : Stands second text j) (hle : i + least ≤ j) :
    i + first.length ≤ j := by
  by_contra hlt
  have hdrop : first.drop (j - i) <+: text.drop j := by
    have h := List.IsPrefix.drop hfirst (j - i)
    rwa [List.drop_drop, Nat.add_sub_cancel' (by omega : i ≤ j)] at h
  have hnot := hapart (j - i) (by omega) (by omega)
  rcases List.prefix_or_prefix_of_prefix hdrop hsecond with h | h
  · exact hnot.1 h
  · exact hnot.2 h

variable [DecidableEq α]

/-! ## All places of a mark -/

/-- The places where the mark stands, in order. -/
def places (mark text : List α) : List ℕ :=
  (List.range text.length).filter (Stands mark text ·)

/-- The places of a mark are exactly those where it stands. -/
theorem mem_places (hmark : mark ≠ []) : place ∈ places mark text ↔ Stands mark text place := by
  simp only [places, List.mem_filter, List.mem_range, decide_eq_true_eq, and_iff_right_iff_imp]
  intro h
  have hend := h.end_le hmark
  have hpos := List.length_pos_iff.mpr hmark
  omega

/-- A mark that stands nowhere has no places. -/
theorem places_eq_nil (h : ∀ place < text.length, ¬Stands mark text place) :
    places mark text = [] := by
  simpa [places, List.filter_eq_nil_iff] using h

/-- A mark that does not reach over the seam of two texts has the places that it has in each. -/
theorem places_append
    (h : ∀ place < lead.length, Stands mark (lead ++ text) place → Stands mark lead place) :
    places mark (lead ++ text) = places mark lead ++ (places mark text).map (lead.length + ·) := by
  have hlead : (List.range lead.length).filter (Stands mark (lead ++ text) ·) =
      places mark lead := by
    apply List.filter_congr
    intro place hplace
    rw [decide_eq_decide]
    constructor
    · exact h place (List.mem_range.mp hplace)
    · intro hstands
      exact hstands.append_right text
  rw [places, List.length_append, List.range_add, List.filter_append, hlead, List.filter_map]
  simp only [places, Function.comp_def, stands_append_length]

/-- A mark has one place in itself. -/
theorem places_self (hmark : mark ≠ []) : places mark mark = [0] := by
  obtain ⟨n, hn⟩ := Nat.exists_eq_succ_of_ne_zero (List.length_pos_iff.mpr hmark).ne'
  rw [places, hn, List.range_succ_eq_map]
  simp [stands_self_iff hmark, List.filter_map, Function.comp_def]

/-- A mark that does not overlap itself stands at the start of what it opens, and then again only
behind its end. -/
theorem places_mark_append (hmark : mark ≠ []) (hself : Apart 1 mark mark) :
    places mark (mark ++ text) = 0 :: (places mark text).map (mark.length + ·) := by
  rw [places_append, places_self hmark, List.singleton_append]
  intro place hplace hstands
  rw [stands_self_iff hmark]
  by_contra hzero
  have := hself.end_le stands_mark_append hstands (by omega)
  omega

/-- The first place of a mark, and then those behind its end. -/
theorem places_first (hmark : mark ≠ []) (hself : Apart 1 mark mark)
    (hfirst : ∀ place < lead.length, ¬Stands mark (lead ++ mark ++ text) place) :
    places mark (lead ++ mark ++ text) =
      lead.length :: (places mark text).map ((lead ++ mark).length + ·) := by
  rw [List.append_assoc] at hfirst ⊢
  have hlead : places mark lead = [] := by
    apply places_eq_nil
    intro place hplace h
    exact hfirst place hplace (h.append_right _)
  rw [places_append fun place hplace h => absurd h (hfirst place hplace), hlead,
    places_mark_append hmark hself]
  simp [Function.comp_def, Nat.add_assoc]

/-! ## Cutting finds the first place -/

/-- A start cannot be dropped from a text that does not begin with it. -/
theorem dropStart?_eq_none_iff : dropStart? mark text = none ↔ ¬Stands mark text 0 := by
  rw [Option.eq_none_iff_forall_ne_some, Stands, List.drop_zero]
  constructor
  · rintro h ⟨after, hafter⟩
    exact h after (dropStart?_eq_some_iff.mpr hafter.symm)
  · intro h after hafter
    exact h ⟨after, (dropStart?_eq_some_iff.mp hafter).symm⟩

/-- A text that begins with a mark is cut there. -/
theorem cutAt?_mark_append (hmark : mark ≠ []) : cutAt? mark (mark ++ text) = some ([], text) := by
  obtain ⟨a, more, rfl⟩ := List.exists_cons_of_ne_nil hmark
  have hstart : dropStart? (a :: more) (a :: more ++ text) = some text :=
    dropStart?_eq_some_iff.mpr rfl
  rw [List.cons_append] at hstart ⊢
  rw [cutAt?, hstart]

/-- A text that does not begin with a mark is cut in its rest. -/
theorem cutAt?_cons {a : α} (h : ¬Stands mark (a :: rest) 0) :
    cutAt? mark (a :: rest) =
      (cutAt? mark rest).map fun (before, after) => (a :: before, after) := by
  rw [cutAt?, dropStart?_eq_none_iff.mpr h]

/-- The same for what comes of the cut. -/
theorem cutAt?_cons_eq_some_iff {a b : α} {before after : List α}
    (h : ¬Stands mark (a :: rest) 0) :
    cutAt? mark (a :: rest) = some (b :: before, after) ↔
      a = b ∧ cutAt? mark rest = some (before, after) := by
  rw [cutAt?_cons h, Option.map_eq_some_iff]
  constructor
  · rintro ⟨⟨before', after'⟩, hcut, heq⟩
    simp only [Prod.mk.injEq, List.cons.injEq] at heq
    obtain ⟨⟨rfl, rfl⟩, rfl⟩ := heq
    exact ⟨rfl, hcut⟩
  · rintro ⟨rfl, hcut⟩
    exact ⟨_, hcut, rfl⟩

/-- What is cut off stands before the first place of the mark. -/
theorem cutAt?_eq_some_iff {before after : List α} (hmark : mark ≠ []) :
    cutAt? mark text = some (before, after) ↔
      text = before ++ mark ++ after ∧ ∀ place < before.length, ¬Stands mark text place := by
  induction text generalizing before with
  | nil => simp [cutAt?, hmark]
  | cons a rest ih =>
    by_cases hzero : Stands mark (a :: rest) 0
    · obtain ⟨behind, hbehind⟩ := id hzero
      rw [List.drop_zero] at hbehind
      rw [← hbehind, cutAt?_mark_append hmark]
      cases before with
      | nil => simp
      | cons b before =>
        -- The mark stands at the very start, so nothing can come before its first place.
        simp only [Option.some.injEq, Prod.mk.injEq, List.nil_eq, reduceCtorEq, false_and,
          List.length_cons, false_iff, not_and, not_forall]
        intro _
        exact ⟨0, by omega, not_not.mpr stands_mark_append⟩
    · cases before with
      | nil =>
        have hne : a :: rest ≠ mark ++ after := fun heq => hzero (heq ▸ stands_mark_append)
        rw [cutAt?_cons hzero]
        simp [hne]
      | cons b before =>
        rw [cutAt?_cons_eq_some_iff hzero, ih, List.length_cons, Nat.forall_lt_succ_left,
          List.cons_append, List.cons_append, List.cons.injEq, and_assoc]
        simp only [stands_cons, hzero, not_false_eq_true, true_and]

/-- Nothing is cut exactly when the mark stands nowhere. -/
theorem cutAt?_eq_none_iff (hmark : mark ≠ []) :
    cutAt? mark text = none ↔ ∀ place, ¬Stands mark text place := by
  induction text with
  | nil => simp [cutAt?, Stands, hmark]
  | cons a rest ih =>
    rw [← Nat.and_forall_add_one, ← dropStart?_eq_none_iff]
    simp only [stands_cons, ← ih]
    cases hstart : dropStart? mark (a :: rest) <;> simp [cutAt?, hstart]

/-- What follows a text does not matter for the first place of a mark in it. -/
theorem cutAt?_append_right {before after : List α} (hmark : mark ≠ [])
    (h : cutAt? mark text = some (before, after)) (more : List α) :
    cutAt? mark (text ++ more) = some (before, after ++ more) := by
  obtain ⟨rfl, hfirst⟩ := (cutAt?_eq_some_iff hmark).mp h
  rw [cutAt?_eq_some_iff hmark, List.append_assoc _ after]
  refine ⟨rfl, ?_⟩
  intro place hplace hstands
  have hinside := hstands.of_append (by rw [List.length_append]; omega)
  exact hfirst place hplace (hinside.append_right after)

/-- What stands before the first place of a mark does not matter for what is behind it. -/
theorem cutAt?_append (hmark : mark ≠ [])
    (hlead : ∀ place < lead.length, ¬Stands mark (lead ++ text) place) :
    cutAt? mark (lead ++ text) =
      (cutAt? mark text).map fun (before, after) => (lead ++ before, after) := by
  cases hcut : cutAt? mark text with
  | none =>
    have hnone := (cutAt?_eq_none_iff hmark).mp hcut
    refine (cutAt?_eq_none_iff hmark).mpr ?_
    intro place hstands
    rcases Nat.lt_or_ge place lead.length with hlt | hge
    · exact hlead place hlt hstands
    · obtain ⟨shift, -, hshift⟩ := hstands.behind hge
      exact hnone shift hshift
  | some cut =>
    obtain ⟨before, after⟩ := cut
    obtain ⟨rfl, hfirst⟩ := (cutAt?_eq_some_iff hmark).mp hcut
    refine (cutAt?_eq_some_iff hmark).mpr ⟨by simp, ?_⟩
    intro place hplace hstands
    rcases Nat.lt_or_ge place lead.length with hlt | hge
    · exact hlead place hlt hstands
    · obtain ⟨shift, rfl, hshift⟩ := hstands.behind hge
      rw [List.length_append] at hplace
      exact hfirst shift (by omega) hshift

end ScriptMailbox.Text
