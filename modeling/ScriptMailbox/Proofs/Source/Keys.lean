import ScriptMailbox.Disk.Files
import Mathlib.Data.List.Basic
import Mathlib.Data.String.Basic
import Mathlib.Logic.Relation

/-!
# Spellings with the same components

Sources are told apart by the components of their paths. Two spellings have the same components
exactly if one becomes the other when separators and inner dots that make no difference are left out
and put in (`components_eq_iff`).
-/

namespace ScriptMailbox.Path

variable {path other : Path} {front : String} {part start : List Char} {behind : List (List Char)}

/-- The second spelling is the first one without a separator or a dot that makes no difference. A
dot at the start does make one, and so does a separator there. -/
inductive Shortens : Path → Path → Prop
  | separator (front back : String) : Shortens ⟨front ++ "//" ++ back⟩ ⟨front ++ "/" ++ back⟩
  | dot (front back : String) : Shortens ⟨front ++ "/./" ++ back⟩ ⟨front ++ "/" ++ back⟩
  | lastDot (front : String) : Shortens ⟨front ++ "/."⟩ ⟨front ++ "/"⟩
  | lastSeparator (front : String) (h : front ≠ "") : Shortens ⟨front ++ "/"⟩ ⟨front⟩

/-! ## Shortening keeps the components -/

/-- A separator ends a part. -/
theorem parts_append (front back : String) :
    parts ⟨front ++ "/" ++ back⟩ = parts ⟨front⟩ ++ parts ⟨back⟩ := by
  have htext : (front ++ "/" ++ back).toList = front.toList ++ '/' :: back.toList := by
    simp [String.toList_append]
  rw [parts, htext]
  exact List.splitOnP_append_cons _ _ rfl

/-- A path has at least one part between its separators. -/
theorem parts_ne_nil (path : Path) : path.parts ≠ [] :=
  List.splitOnP_ne_nil _ _

/-- Whether a path is absolute can be seen from its front. -/
theorem isAbsolute_append (hfront : front ≠ "") (back : String) :
    isAbsolute ⟨front ++ back⟩ = isAbsolute ⟨front⟩ := by
  have hne : front.toList ≠ [] := mt String.toList_eq_nil_iff.mp hfront
  rw [isAbsolute, isAbsolute, String.toList_append, List.head?_append_of_ne_nil _ hne]

/-- What stands behind a separator adds its own components. -/
theorem components_append (front back : String) :
    components ⟨front ++ "/" ++ back⟩ =
      components ⟨front ++ "/"⟩ ++ (parts ⟨back⟩).filterMap Component.ofPart? := by
  have habsolute : isAbsolute ⟨front ++ "/" ++ back⟩ = isAbsolute ⟨front ++ "/"⟩ :=
    isAbsolute_append (by simp) back
  have hparts : parts ⟨front ++ "/"⟩ = parts ⟨front⟩ ++ [[]] := by
    have hempty := parts_append front ""
    rwa [String.append_empty] at hempty
  have hne := parts_ne_nil ⟨front⟩
  rw [components, components, habsolute, parts_append, hparts, List.head?_append_of_ne_nil _ hne,
    List.head?_append_of_ne_nil _ hne, List.filterMap_append, List.filterMap_append,
    show [([] : List Char)].filterMap Component.ofPart? = [] from rfl, List.append_nil]
  split_ifs <;> rfl

/-- A shorter spelling has the same components. -/
theorem Shortens.components_eq (h : Shortens path other) : path.components = other.components := by
  cases h with
  | separator front back =>
    have htext : front ++ "//" ++ back = front ++ "/" ++ ("" ++ "/" ++ back) := by
      simp [← String.toList_inj]
    rw [htext, components_append, components_append, parts_append]
    rfl
  | dot front back =>
    have htext : front ++ "/./" ++ back = front ++ "/" ++ ("." ++ "/" ++ back) := by
      simp [← String.toList_inj]
    rw [htext, components_append, components_append, parts_append]
    rfl
  | lastDot front =>
    have htext : front ++ "/." = front ++ "/" ++ "." := by
      simp [← String.toList_inj]
    rw [htext, components_append]
    exact List.append_nil _
  | lastSeparator front hfront =>
    have hparts : parts ⟨front ++ "/"⟩ = parts ⟨front⟩ ++ [[]] := by
      have hempty := parts_append front ""
      rwa [String.append_empty] at hempty
    rw [components, components, isAbsolute_append hfront, hparts,
      List.head?_append_of_ne_nil _ (parts_ne_nil ⟨front⟩), List.filterMap_append,
      show [([] : List Char)].filterMap Component.ofPart? = [] from rfl, List.append_nil]

/-! ## Every spelling can be shortened to one -/

/-- Whether a part between separators makes a difference. -/
def isKept (part : List Char) : Bool :=
  part ≠ [] ∧ part ≠ ['.']

/-- The parts that make no difference are empty or dots. -/
theorem isKept_eq_false_iff : isKept part = false ↔ part = [] ∨ part = ['.'] := by
  simp only [isKept, ne_eq, decide_eq_false_iff_not, not_and_or, not_not]

/-- A text with parts behind it, each with a separator in front. -/
def withParts (start : List Char) (parts : List (List Char)) : Path :=
  ⟨String.ofList (start ++ parts.flatMap ('/' :: ·))⟩

/-- The first part may be counted to the front. -/
theorem withParts_cons (start part : List Char) (behind : List (List Char)) :
    withParts start (part :: behind) = withParts (start ++ '/' :: part) behind := by
  simp [withParts]

/-- A part that makes no difference can be left out in front of another one. -/
theorem shortens_part (hpart : isKept part = false) (start next : List Char)
    (behind : List (List Char)) :
    Shortens (withParts start (part :: next :: behind)) (withParts start (next :: behind)) := by
  let back := String.ofList (next ++ behind.flatMap ('/' :: ·))
  have hshort : withParts start (next :: behind) = ⟨String.ofList start ++ "/" ++ back⟩ := by
    simp [withParts, back, ← String.toList_inj]
  rw [hshort]
  rcases isKept_eq_false_iff.mp hpart with rfl | rfl
  · have hlong : withParts start ([] :: next :: behind) =
        ⟨String.ofList start ++ "//" ++ back⟩ := by
      simp [withParts, back, ← String.toList_inj]
    exact hlong ▸ .separator (String.ofList start) back
  · have hlong : withParts start (['.'] :: next :: behind) =
        ⟨String.ofList start ++ "/./" ++ back⟩ := by
      simp [withParts, back, ← String.toList_inj]
    exact hlong ▸ .dot (String.ofList start) back

/-- At the end, the part leaves its separator. -/
theorem eqvGen_last (hpart : isKept part = false) (start : List Char) :
    Relation.EqvGen Shortens (withParts start [part]) ⟨String.ofList start ++ "/"⟩ := by
  rcases isKept_eq_false_iff.mp hpart with rfl | rfl
  · have hlong : withParts start [[]] = ⟨String.ofList start ++ "/"⟩ := by
      simp [withParts]
    exact hlong ▸ .refl _
  · have hlong : withParts start [['.']] = ⟨String.ofList start ++ "/."⟩ := by
      simp [withParts]
    exact hlong ▸ .rel _ _ (.lastDot (String.ofList start))

/-- A text with the parts behind it that make a difference. A separator alone stays. -/
def shortest (start : List Char) (behind : List (List Char)) : Path :=
  if start = [] ∧ behind.filter isKept = [] then ⟨"/"⟩ else withParts start (behind.filter isKept)

/-- A spelling leads to the shortest one, part by part. -/
theorem eqvGen_shortest (h : start ≠ [] ∨ behind ≠ []) :
    Relation.EqvGen Shortens (withParts start behind) (shortest start behind) := by
  induction behind generalizing start with
  | nil =>
    have hstart : start ≠ [] := h.resolve_right fun hnil => hnil rfl
    rw [shortest, if_neg fun hboth => hstart hboth.1]
    exact .refl _
  | cons part behind ih =>
    -- a part that is kept becomes the new start; one that is not is dropped, with its separator
    by_cases hpart : isKept part = true
    · have hstart : start ++ '/' :: part ≠ [] := by simp
      have hkept := ih (.inl hstart)
      rw [shortest, if_neg fun hboth => hstart hboth.1, ← withParts_cons, ← withParts_cons] at hkept
      rwa [shortest, List.filter_cons_of_pos hpart, if_neg (by simp)]
    · rw [Bool.not_eq_true] at hpart
      have hfilter : (part :: behind).filter isKept = behind.filter isKept :=
        List.filter_cons_of_neg (by simp [hpart])
      have hshortest : shortest start (part :: behind) = shortest start behind := by
        rw [shortest, shortest, hfilter]
      rw [hshortest]
      cases behind with
      | cons next behind =>
        exact .trans _ _ _ (.rel _ _ (shortens_part hpart start next behind)) (ih (.inr (by simp)))
      | nil =>
        refine .trans _ _ _ (eqvGen_last hpart start) ?_
        rw [shortest]
        split_ifs with hstart
        · rw [hstart.1]
          exact .refl _
        · have hne : String.ofList start ≠ "" := by
            intro hempty
            exact hstart ⟨by simpa using congrArg String.toList hempty, rfl⟩
          have hshort : withParts start ([].filter isKept) = ⟨String.ofList start⟩ := by
            simp [withParts]
          exact hshort ▸ .rel _ _ (.lastSeparator _ hne)

/-! ## The shortest spelling is that of the components -/

/-- The shortest spelling of a path with some components. -/
def spelling : List Component → Path
  | [] => ⟨""⟩
  | [.root] => ⟨"/"⟩
  | first :: behind =>
    withParts (Disk.nameOf first).toList (behind.map fun component =>
      (Disk.nameOf component).toList)

/-- The shortest spelling is made of the names of the components. -/
theorem spelling_cons {first : Component} {behind : List Component}
    (h : first ≠ .root ∨ behind ≠ []) :
    spelling (first :: behind) = withParts (Disk.nameOf first).toList
      (behind.map fun component => (Disk.nameOf component).toList) := by
  rw [spelling]
  simpa [or_iff_not_imp_left] using h

/-- A part that makes a difference is a component with that name. -/
theorem ofPart?_of_isKept (hpart : isKept part = true) :
    ∃ component, Component.ofPart? part = some component ∧ component ≠ .root ∧
      (Disk.nameOf component).toList = part := by
  have hkept : ¬(part = [] ∨ part = ['.']) := by
    rw [← isKept_eq_false_iff, hpart]
    simp
  rw [Component.ofPart?, if_neg hkept]
  split_ifs with hparent
  · exact ⟨.parent, rfl, by simp, by rw [hparent]; rfl⟩
  · exact ⟨.normal (String.ofList part), rfl, by simp, String.toList_ofList⟩

/-- So the names of the components are the parts that make a difference. -/
theorem map_nameOf (behind : List (List Char)) :
    (behind.filterMap Component.ofPart?).map (fun component => (Disk.nameOf component).toList) =
      behind.filter isKept := by
  induction behind with
  | nil => rfl
  | cons part behind ih =>
    by_cases hpart : isKept part = true
    · obtain ⟨component, hcomponent, -, hname⟩ := ofPart?_of_isKept hpart
      rw [List.filterMap_cons_some hcomponent, List.map_cons, hname, ih,
        List.filter_cons_of_pos hpart]
    · rw [Bool.not_eq_true] at hpart
      have hnone : Component.ofPart? part = none := if_pos (isKept_eq_false_iff.mp hpart)
      rw [List.filterMap_cons_none hnone, ih, List.filter_cons_of_neg (by simp [hpart])]

/-- The shortest spelling of an absolute path starts with a separator. -/
theorem spelling_of_absolute {rest : List Char} (htext : path.text.toList = '/' :: rest) :
    spelling path.components = shortest [] (rest.splitOn '/') := by
  have habsolute : path.isAbsolute = true := by
    rw [isAbsolute, htext]
    rfl
  have hparts : path.parts.filterMap Component.ofPart? =
      (rest.splitOn '/').filterMap Component.ofPart? := by
    have hsplit : ('/' :: rest).splitOn '/' = [] :: rest.splitOn '/' :=
      List.splitOn_append_cons_self [] rest
    rw [parts, htext, hsplit]
    rfl
  rw [components, if_pos habsolute, hparts, shortest, ← map_nameOf]
  by_cases hnamed : (rest.splitOn '/').filterMap Component.ofPart? = []
  · rw [hnamed, if_pos ⟨rfl, rfl⟩]
    rfl
  · rw [spelling_cons (.inr hnamed), if_neg (by simpa using hnamed)]
    rfl

/-- That of a relative one starts with its first part. -/
theorem spelling_of_relative {first : List Char} (hparts : path.parts = first :: behind)
    (habsolute : path.isAbsolute = false) (hfirst : first ≠ []) :
    spelling path.components = withParts first (behind.filter isKept) := by
  rw [components, habsolute, hparts, if_neg Bool.false_ne_true, List.head?_cons, ← map_nameOf]
  by_cases hcurrent : first = ['.']
  · rw [if_pos (congrArg some hcurrent), hcurrent, spelling_cons (.inl (by simp))]
    rfl
  · have hkept : isKept first = true := by
      rw [isKept, decide_eq_true_eq]
      exact ⟨hfirst, hcurrent⟩
    obtain ⟨component, hcomponent, hroot, hname⟩ := ofPart?_of_isKept hkept
    rw [if_neg (by simpa using hcurrent), List.filterMap_cons_some hcomponent,
      spelling_cons (.inl hroot), hname]

/-- A text is its parts, each with a separator in front, without the first of these. -/
theorem flatMap_splitOn (text : List Char) :
    (text.splitOn '/').flatMap ('/' :: ·) = '/' :: text := by
  have hparts (parts : List (List Char)) (hne : parts ≠ []) :
      parts.flatMap ('/' :: ·) = '/' :: ['/'].intercalate parts := by
    induction parts with
    | nil => exact absurd rfl hne
    | cons part parts ih =>
      cases parts with
      | nil => simp
      | cons next parts => simp [ih (by simp), List.intercalate]
  rw [hparts _ (List.splitOn_ne_nil _ _), List.intercalate_splitOn]

/-- A path that does not start with a separator is relative. -/
theorem isAbsolute_eq_false {c : Char} {rest : List Char} (htext : path.text.toList = c :: rest)
    (hc : c ≠ '/') : path.isAbsolute = false := by
  rw [isAbsolute, htext]
  simpa using hc

/-- Every path is spelled like the shortest path with its components, up to separators and dots that
make no difference. -/
theorem eqvGen_spelling (path : Path) :
    Relation.EqvGen Shortens path (spelling path.components) := by
  -- a path without a separator is its own only component
  by_cases hslash : '/' ∈ path.text.toList
  · obtain ⟨first, rest, htext, hfirst⟩ := List.eq_append_cons_of_mem hslash
    have hpath : path = withParts first (rest.splitOn '/') := by
      rw [withParts, flatMap_splitOn, ← htext, String.ofList_toList]
    have hspelling : spelling path.components = shortest first (rest.splitOn '/') := by
      cases first with
      | nil => exact spelling_of_absolute htext
      | cons c first =>
        have hc : c ≠ '/' := fun heq => hfirst (heq ▸ List.mem_cons_self)
        have hparts : path.parts = (c :: first) :: rest.splitOn '/' := by
          rw [parts, htext, List.splitOn_append_cons_self_of_not_mem hfirst]
        rw [spelling_of_relative hparts (isAbsolute_eq_false htext hc) (by simp), shortest,
          if_neg (by simp)]
    have hsome : first ≠ [] ∨ rest.splitOn '/' ≠ [] := .inr (List.splitOn_ne_nil '/' rest)
    have hshortest := eqvGen_shortest hsome
    rwa [← hpath, ← hspelling] at hshortest
  · have hparts : path.parts = [path.text.toList] := by
      rw [parts, List.splitOn_eq_singleton hslash]
    have hspelling : spelling path.components = path := by
      cases htext : path.text.toList with
      | nil =>
        obtain ⟨text⟩ := path
        obtain rfl : text = "" := String.toList_eq_nil_iff.mp htext
        rfl
      | cons c rest =>
        have hc : c ≠ '/' := fun heq => hslash (htext ▸ heq ▸ List.mem_cons_self)
        rw [spelling_of_relative hparts (isAbsolute_eq_false htext hc) (by simp [htext])]
        simp [withParts]
    rw [hspelling]
    exact .refl path

/-- Paths have the same components exactly if they are different spellings of one path. -/
theorem components_eq_iff :
    path.components = other.components ↔ Relation.EqvGen Shortens path other := by
  constructor
  · intro h
    have hother := eqvGen_spelling other
    rw [← h] at hother
    exact .trans _ _ _ (eqvGen_spelling path) (.symm _ _ hother)
  · intro h
    induction h with
    | rel _ _ hstep => exact hstep.components_eq
    | refl _ => rfl
    | symm _ _ _ ih => exact ih.symm
    | trans _ _ _ _ _ ih ih' => exact ih.trans ih'

end ScriptMailbox.Path
