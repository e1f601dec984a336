import ScriptMailbox.Proofs.Disk.Changes

/-!
# Spellings of a path

Repeated separators and dots are steps that stay where they are, so a walk arrives at the same
location without them. Hence all spellings of a path with the same components lead to the same file,
as far as they lead to one, and writing under one of them replaces what is read under the others.
-/

namespace ScriptMailbox

/-- Whether a step goes on from the directory that a walk has come to. -/
def isMove (step : String) : Bool :=
  step ≠ "" ∧ step ≠ "."

namespace Component

/-- The step that a component takes. -/
def move? : Component → Option String
  | .root | .current => none
  | .parent => some ".."
  | .normal name => some name

/-- No part of a path between separators is the root. -/
theorem ofPart?_ne_root (part : List Char) : ofPart? part ≠ some .root := by
  rw [ofPart?]
  split_ifs <;> simp

/-- The part leaves a component exactly if it is a move. -/
theorem bind_move?_ofPart? (part : List Char) :
    (ofPart? part).bind move? =
      if isMove (String.ofList part) then some (String.ofList part) else none := by
  have hempty : String.ofList part = "" ↔ part = [] := by
    rw [← String.toList_inj, String.toList_ofList]
    rfl
  have hcurrent : String.ofList part = "." ↔ part = ['.'] := by
    rw [← String.toList_inj, String.toList_ofList]
    rfl
  rw [ofPart?, isMove]
  simp only [ne_eq, decide_eq_true_eq, hempty, hcurrent, ← not_or, ite_not]
  split_ifs with hstays hparent
  · rfl
  · rw [hparent]
    rfl
  · rfl

end Component

namespace Path

variable {path other : Path}

/-- The components tell whether the path is absolute. -/
theorem isAbsolute_iff : path.isAbsolute = true ↔ path.components.head? = some .root := by
  have hnamed : (path.parts.filterMap Component.ofPart?).head? ≠ some .root := by
    intro hhead
    obtain ⟨part, -, hpart⟩ := List.mem_filterMap.mp (List.mem_of_mem_head? hhead)
    exact Component.ofPart?_ne_root part hpart
  rw [components]
  split_ifs with habsolute hcurrent
  · simp [habsolute]
  · simp [habsolute]
  · exact iff_of_false habsolute hnamed

/-- The steps of a path that go on. -/
def moves (path : Path) : List String :=
  path.steps.filter isMove

/-- An empty step at the end is no move. -/
theorem filter_names (path : Path) : path.names.filter isMove = path.moves := by
  rw [moves, steps]
  split_ifs
  · rw [List.filter_append, show [""].filter isMove = [] from rfl, List.append_nil]
  · rfl

/-- The components tell which moves the path makes. -/
theorem moves_eq (path : Path) : path.moves = path.components.filterMap Component.move? := by
  have hmoves : path.components.filterMap Component.move? =
      (path.parts.filterMap Component.ofPart?).filterMap Component.move? := by
    rw [components]
    split_ifs <;> rfl
  rw [← filter_names, hmoves, names, List.filterMap_filterMap]
  simp only [Component.bind_move?_ofPart?]
  induction path.parts with
  | nil => rfl
  | cons part parts ih =>
    rw [List.filterMap_cons, List.filter_cons]
    by_cases hpart : part = []
    · subst hpart
      exact ih
    · rw [if_pos (decide_eq_true hpart), List.map_cons, List.filter_cons, ih]
      by_cases hmove : isMove (String.ofList part) = true
      · rw [if_pos hmove, if_pos hmove]
      · rw [if_neg hmove, if_neg hmove]

end Path

namespace Disk

variable {disk before after : Disk} {directory location place : Location}
  {steps fewer : List String} {links : ℕ} {path other target : Path} {content old : Bytes}

/-! ## Walks with fewer steps -/

/-- The second steps are the first ones without some that stay. -/
inductive Drops : List String → List String → Prop
  | nil : Drops [] []
  | stay {step : String} {steps fewer : List String} (hstep : isMove step = false)
    (h : Drops steps fewer) : Drops (step :: steps) fewer
  | keep (step : String) {steps fewer : List String} (h : Drops steps fewer) :
    Drops (step :: steps) (step :: fewer)

/-- Dropping all steps that stay drops steps that stay. -/
theorem drops_filter (steps : List String) : Drops steps (steps.filter isMove) := by
  induction steps with
  | nil => exact .nil
  | cons step steps ih =>
    rw [List.filter_cons]
    split_ifs with hmove
    · exact .keep step ih
    · exact .stay (Bool.not_eq_true _ ▸ hmove) ih

/-- Steps in front may be kept. -/
theorem Drops.append (h : Drops steps fewer) (start : List String) :
    Drops (start ++ steps) (start ++ fewer) := by
  induction start with
  | nil => exact h
  | cons step start ih => exact .keep step ih

/-- A step that stays makes no difference, whatever is looked for. -/
theorem advance_stay {step : String} (hstep : isMove step = false) (arrival : Arrival) :
    disk.advance arrival directory (step :: steps) = disk.advance arrival directory steps := by
  have hcases : step = "" ∨ step = "." := by
    simpa only [isMove, ne_eq, decide_eq_false_iff_not, not_and_or, not_not] using hstep
  rcases hcases with rfl | rfl <;> rw [advance]

/-- Without steps that stay, an advance arrives where it arrived. -/
theorem Drops.advance_arrived (h : Drops steps fewer)
    (hadvance : disk.advance .target directory steps = .arrived location) :
    disk.advance .target directory fewer = .arrived location := by
  induction h generalizing directory with
  | nil => exact hadvance
  | stay hstep _ ih =>
    rw [advance_stay hstep] at hadvance
    exact ih hadvance
  | @keep step steps fewer h ih =>
    rcases step_cases step with rfl | rfl | rfl | hname
    · simpa only [advance] using ih (by simpa only [advance] using hadvance)
    · simpa only [advance] using ih (by simpa only [advance] using hadvance)
    · simpa only [advance] using ih (by simpa only [advance] using hadvance)
    · obtain ⟨hshort, ⟨hentry, hrest⟩ | ⟨rfl, -, -⟩⟩ := advance_name_arrived hname hadvance
      · rw [advance_name hname, if_neg (by simp), if_neg (by omega)]
        simp only [hentry]
        exact ih hrest
      · cases h
        exact hadvance

/-- Where a link is met, the same steps are still to go, up to some that stay. -/
theorem Drops.advance_redirected {rest : List String} (h : Drops steps fewer)
    (hadvance : disk.advance .target directory steps = .redirected location target rest) :
    ∃ less, Drops rest less ∧
      disk.advance .target directory fewer = .redirected location target less := by
  induction h generalizing directory with
  | nil => cases hadvance
  | stay hstep _ ih =>
    rw [advance_stay hstep] at hadvance
    exact ih hadvance
  | @keep step steps fewer h ih =>
    rcases step_cases step with rfl | rfl | rfl | hname
    · simpa only [advance] using ih (by simpa only [advance] using hadvance)
    · simpa only [advance] using ih (by simpa only [advance] using hadvance)
    · simpa only [advance] using ih (by simpa only [advance] using hadvance)
    · obtain ⟨hshort, ⟨hentry, hrest⟩ | ⟨hentry, rfl, rfl⟩⟩ :=
        advance_name_redirected hname hadvance
      · rw [advance_name hname, if_neg (by simp), if_neg (by omega)]
        simp only [hentry]
        exact ih hrest
      · refine ⟨fewer, h, ?_⟩
        rw [advance_name hname, if_neg (by simp), if_neg (by omega)]
        simp [hentry]

/-- So does a walk. -/
theorem Drops.walk (h : Drops steps fewer)
    (hwalk : disk.walk .target links directory steps = .ok location) :
    disk.walk .target links directory fewer = .ok location := by
  induction links generalizing directory steps fewer with
  | zero =>
    rw [walk_eq] at hwalk
    cases hadvance : disk.advance .target directory steps <;>
      simp only [hadvance, reduceCtorEq] at hwalk
    cases hwalk
    rw [walk_eq, h.advance_arrived hadvance]
  | succ links ih =>
    rw [walk_eq] at hwalk
    cases hadvance : disk.advance .target directory steps <;>
      simp only [hadvance, reduceCtorEq] at hwalk
    · cases hwalk
      rw [walk_eq, h.advance_arrived hadvance]
    · obtain ⟨less, hless, hredirected⟩ := h.advance_redirected hadvance
      rw [walk_eq, hredirected]
      split_ifs at hwalk with hempty
      simp only [if_neg hempty]
      exact ih (hless.append _) hwalk

/-- Spellings of one path lead to one location. -/
theorem resolve_spelling (h : disk.resolve .target path = .ok location)
    (hother : disk.resolve .target other = .ok place)
    (hcomponents : path.components = other.components) : location = place := by
  have hmoves : path.moves = other.moves := by
    rw [Path.moves_eq, Path.moves_eq, hcomponents]
  have horigin : origin path [] = origin other [] := by
    have habsolute : path.isAbsolute = other.isAbsolute := by
      rw [Bool.eq_iff_iff, Path.isAbsolute_iff, Path.isAbsolute_iff, hcomponents]
    rw [origin, origin, habsolute]
  have hwalk := (drops_filter path.steps).walk (resolve_eq_ok h).2
  have hwalk' := (drops_filter other.steps).walk (resolve_eq_ok hother).2
  rw [← Path.moves, ← hmoves, ← horigin] at hwalk'
  exact Except.ok.inj (hwalk.symm.trans hwalk')

/-! ## Files -/

/-- The path leads to a file with this content, which stands at this location. -/
structure HasFile (disk : Disk) (path : Path) (location : Location) (content : Bytes) : Prop where
  resolves : disk.resolve .target path = .ok location
  holds : disk.at? location = some (.file content)

/-- What can be read is exactly what a file has to which the path leads. -/
theorem read_eq_ok_iff : disk.read path = .ok content ↔ ∃ location, disk.HasFile path location
    content := by
  rw [read]
  constructor
  · intro h
    cases hresolve : disk.resolve .target path with
    | error fault => simp [hresolve] at h
    | ok location =>
      simp only [hresolve] at h
      split at h <;> cases h
      exact ⟨location, hresolve, ‹_›⟩
  · rintro ⟨location, hresolves, hholds⟩
    rw [hresolves]
    simp only [hholds]

/-- What can be read is a file. -/
theorem kind?_of_read (h : disk.read path = .ok content) : disk.kind? path = some .file := by
  obtain ⟨location, hresolves, hholds⟩ := read_eq_ok_iff.mp h
  rw [kind?, hresolves]
  simp only [hholds]

/-- Paths with the same components have their files at the same location. -/
theorem HasFile.location_eq (h : disk.HasFile path location content)
    (hother : disk.HasFile other place old) (hcomponents : path.components = other.components) :
    location = place :=
  resolve_spelling h.resolves hother.resolves hcomponents

/-- Where a file takes the place of a file, every path leads where it led. -/
theorem Sets.hasFile (h : before.Sets location (some (.file content)) after)
    (hold : before.at? location = some (.file old)) {bytes : Bytes}
    (hfile : before.HasFile path place bytes) :
    after.HasFile path place (if place = location then content else bytes) := by
  have hplain : before.IsPlain location := by
    rw [IsPlain, hold]
    simp
  have hentry : after.at? place =
      some (.file (if place = location then content else bytes)) := by
    rw [h place, hfile.holds]
    split_ifs <;> rfl
  exact ⟨resolve_of_keepsWays (h.keepsWays hplain) (.inr ⟨_, hentry⟩) hfile.resolves, hentry⟩

/-- Writing back the old content undoes a change of a file. -/
theorem Sets.symm (h : before.Sets location (some (.file content)) after)
    (hold : before.at? location = some (.file old)) :
    after.Sets location (some (.file old)) before := by
  intro other
  split_ifs with heq
  · rw [heq, hold]
  · rw [h.at?_of_ne heq]

/-- Under any spelling of the path of a file, that file is written. -/
theorem write_spelling (hfile : disk.HasFile other location old)
    (hcomponents : path.components = other.components) (h : disk.write path content = .ok after) :
    disk.HasFile path location old ∧ disk.Sets location (some (.file content)) after := by
  obtain ⟨place, hresolve, hplain, hsets⟩ := write_eq_ok h
  have hways := hsets.keepsWays hplain
  have hplace : after.resolve .target path = .ok place :=
    resolve_of_keepsWays hways (.inr ⟨content, hsets.at?_self⟩) hresolve
  have hentry : ∃ bytes, after.at? location = some (.file bytes) := by
    rw [hsets location]
    split_ifs
    · exact ⟨content, rfl⟩
    · exact ⟨old, hfile.holds⟩
  have hlocation : after.resolve .target other = .ok location :=
    resolve_of_keepsWays hways (.inr hentry) hfile.resolves
  obtain rfl : place = location := resolve_spelling hplace hlocation hcomponents
  have hback : disk.resolve .target path = .ok place :=
    ((hsets.symm hfile.holds).hasFile hsets.at?_self ⟨hplace, hsets.at?_self⟩).resolves
  exact ⟨⟨hback, hfile.holds⟩, hsets⟩

end Disk

end ScriptMailbox
