import ScriptMailbox.Disk.Files
import ScriptMailbox.Proofs.Disk.Walks

/-!
# What operations change

Creating directories puts directories where nothing was, and changes nothing else; where a path
leads to a directory already, it changes nothing at all. Writing and deleting a file change what
stands at one location. None of them takes away a directory or a link, so paths go on leading where
they led.
-/

namespace ScriptMailbox.Disk

variable {disk before after made : Disk} {path : Path} {location start : Location}
  {content : Bytes}

/-! ## Creating directories -/

/-- The second disk has what the first one has, and perhaps more directories. -/
def Gains (before after : Disk) : Prop :=
  ∀ location, after.at? location = before.at? location ∨
    before.at? location = none ∧ after.at? location = some .directory

/-- A disk gains nothing on itself. -/
theorem Gains.refl (disk : Disk) : disk.Gains disk :=
  fun _ => .inl rfl

/-- What is gained twice is gained. -/
theorem Gains.trans (h : before.Gains made) (hmore : made.Gains after) : before.Gains after := by
  intro location
  rcases h location with heq | ⟨hnone, hnew⟩
  · rw [← heq]
    exact hmore location
  · rcases hmore location with heq | ⟨hnone', -⟩
    · exact .inr ⟨hnone, heq.trans hnew⟩
    · rw [hnew] at hnone'
      cases hnone'

/-- Whatever is there stays. -/
theorem Gains.at?_eq {entry : Entry} (h : before.Gains after)
    (hentry : before.at? location = some entry) : after.at? location = some entry := by
  rcases h location with heq | ⟨hnone, -⟩
  · exact heq.trans hentry
  · rw [hnone] at hentry
    cases hentry

/-- New directories stand in nobody's way, so paths lead where they led. -/
theorem Gains.keepsWays (h : before.Gains after) : before.KeepsWays after :=
  fun _ => ⟨h.at?_eq, fun _ => h.at?_eq⟩

/-- A directory that is put where nothing was is gained. -/
theorem gains_put (h : disk.at? location = none) : disk.Gains (disk.put location .directory) := by
  by_cases hput : disk.mayPut location
  · intro other
    rw [at?_put _ _ hput]
    split_ifs with heq
    · exact .inr ⟨heq ▸ h, rfl⟩
    · exact .inl rfl
  · rw [put, dif_neg hput]
    exact Gains.refl disk

/-- A directory is created only where nothing is. -/
theorem at?_of_vacant {names : List String} (h : disk.vacant start names = .ok location) :
    disk.at? location = none := by
  rw [vacant] at h
  split at h
  · cases h
  · split at h <;> try cases h
    split_ifs at h with _ hnone
    cases h
    exact Option.not_isSome_iff_eq_none.mp hnone

/-- Creating one directory after the other gains directories alone. -/
theorem gains_makeWay (disk : Disk) (start : Location) (names : List String) :
    disk.Gains (disk.makeWay start names).2 := by
  induction names with
  | nil => exact Gains.refl disk
  | cons name above ih =>
    rw [makeWay]
    split
    · rename_i hvacant
      exact gains_put (at?_of_vacant hvacant)
    · split
      · rename_i hmade
        rwa [hmade] at ih
      · rename_i hmade
        rw [hmade] at ih
        split
        · rename_i hvacant
          exact ih.trans (gains_put (at?_of_vacant hvacant))
        · exact ih
    · exact Gains.refl disk

/-- So does creating a directory with all that must contain it, also where that fails. -/
theorem gains_makeDirectories (disk : Disk) (path : Path) :
    disk.Gains (disk.makeDirectories path).2 := by
  rw [makeDirectories]
  split_ifs with hempty
  · exact Gains.refl disk
  · split
    · exact Gains.refl disk
    · dsimp only
      split
      · rename_i hvacant
        exact gains_put (at?_of_vacant hvacant)
      · have hparents : disk.Gains (disk.makeParents path).2 := gains_makeWay disk _ _
        split
        · rename_i hmade
          rwa [hmade] at hparents
        · rename_i hmade
          rw [hmade] at hparents
          split
          · rename_i hvacant
            exact hparents.trans (gains_put (at?_of_vacant hvacant))
          · exact hparents
      · exact Gains.refl disk

/-! ## One entry -/

/-- The second disk is the first one with another entry, or none, at one location. -/
def Sets (before : Disk) (location : Location) (entry : Option Entry) (after : Disk) : Prop :=
  ∀ other, after.at? other = if other = location then entry else before.at? other

/-- At the location itself there is the new entry. -/
theorem Sets.at?_self {entry : Option Entry} (h : before.Sets location entry after) :
    after.at? location = entry := by
  rw [h location, if_pos rfl]

/-- Elsewhere everything is as it was. -/
theorem Sets.at?_of_ne {entry : Option Entry} {other : Location}
    (h : before.Sets location entry after) (hne : other ≠ location) :
    after.at? other = before.at? other := by
  rw [h other, if_neg hne]

/-- Whether a location has a file or nothing. -/
def IsPlain (disk : Disk) (location : Location) : Prop :=
  disk.at? location ≠ some .directory ∧ ∀ target, disk.at? location ≠ some (.link target)

/-- Where only what is a file or nothing changes, the ways stay. -/
theorem keepsWays_of_plain
    (h : ∀ location, after.at? location ≠ before.at? location → before.IsPlain location) :
    before.KeepsWays after := by
  intro location
  by_cases heq : after.at? location = before.at? location
  · rw [heq]
    exact ⟨id, fun _ => id⟩
  · obtain ⟨hdirectory, hlink⟩ := h location heq
    exact ⟨fun hentry => absurd hentry hdirectory,
      fun target hentry => absurd hentry (hlink target)⟩

/-- A change where neither a directory nor a link stands leaves the ways as they are. -/
theorem Sets.keepsWays {entry : Option Entry} (h : before.Sets location entry after)
    (hplain : before.IsPlain location) : before.KeepsWays after :=
  keepsWays_of_plain fun other hne => by
    obtain rfl : other = location := not_not.mp fun hother => hne (h.at?_of_ne hother)
    exact hplain

/-- Writing a file puts it at the location that the path leads to, where a file was or nothing. -/
theorem write_eq_ok (h : disk.write path content = .ok after) :
    ∃ location, disk.resolve .place path = .ok location ∧ disk.IsPlain location ∧
      disk.Sets location (some (.file content)) after := by
  rw [write] at h
  cases hresolve : disk.resolve .place path with
  | error fault => simp [hresolve] at h
  | ok location =>
    simp only [hresolve] at h
    split_ifs at h with hdirectory
    cases h
    obtain ⟨hparent, -, hlink⟩ := resolve_arrived hresolve
    exact ⟨location, rfl, ⟨hdirectory, hlink (by decide)⟩,
      fun other => at?_put _ other ⟨hparent, hdirectory⟩⟩

/-- The path leads to what has been written, through links as well. -/
theorem resolve_write (h : disk.write path content = .ok after) :
    ∃ location, after.resolve .target path = .ok location ∧
      after.at? location = some (.file content) := by
  obtain ⟨location, hresolve, hplain, hsets⟩ := write_eq_ok h
  have hentry := hsets.at?_self
  exact ⟨location, resolve_of_keepsWays (hsets.keepsWays hplain) (.inr ⟨content, hentry⟩) hresolve,
    hentry⟩

/-- What has been written is read. -/
theorem read_write (h : disk.write path content = .ok after) : after.read path = .ok content := by
  obtain ⟨location, hresolve, hentry⟩ := resolve_write h
  rw [read, hresolve]
  simp only [hentry]

/-- What has been written is a file. -/
theorem kind?_write (h : disk.write path content = .ok after) : after.kind? path = some .file := by
  obtain ⟨location, hresolve, hentry⟩ := resolve_write h
  rw [kind?, hresolve]
  simp only [hentry]

/-- Erasing takes away what is no directory, and nothing else. -/
theorem sets_erase (h : disk.at? location ≠ some .directory) :
    disk.Sets location none (disk.erase location) := by
  intro other
  rw [at?_erase disk other fun hfixed => h (at?_of_isFixed hfixed)]
  by_cases heq : other = location
  · rw [if_pos heq, if_pos (heq ▸ List.prefix_refl _)]
  rw [if_neg heq]
  split_ifs with hbelow
  · -- nothing but a directory contains anything
    obtain ⟨names, rfl⟩ := hbelow
    have hnames : names ≠ [] := fun hnil => heq (by rw [hnil, List.append_nil])
    cases hentry : disk.at? (location ++ names) with
    | none => rfl
    | some entry => exact absurd (Forest.at?_eq_directory_of_append hnames hentry) h
  · rfl

/-- Deleting takes away the file or link that the path leads to. -/
theorem removeFile_eq_ok (h : disk.removeFile path = .ok after) :
    ∃ location, disk.resolve .entry path = .ok location ∧
      disk.at? location ≠ some .directory ∧ disk.Sets location none after := by
  rw [removeFile] at h
  cases hresolve : disk.resolve .entry path with
  | error fault => simp [hresolve] at h
  | ok location =>
    simp only [hresolve] at h
    split_ifs at h with hdirectory
    cases h
    exact ⟨location, rfl, hdirectory, sets_erase hdirectory⟩

/-! ## Reading and listing -/

/-- A file that is read is still read when the ways are kept and so is the file. -/
theorem read_of_keepsWays (hways : before.KeepsWays after)
    (hfile : ∀ location, before.at? location = some (.file content) →
      after.at? location = some (.file content))
    (h : before.read path = .ok content) : after.read path = .ok content := by
  rw [read] at h
  cases hresolve : before.resolve .target path with
  | error fault => simp [hresolve] at h
  | ok location =>
    simp only [hresolve] at h
    split at h <;> cases h
    rename_i hentry
    have hkept := hfile location hentry
    rw [read, resolve_of_keepsWays hways (.inr ⟨content, hkept⟩) hresolve]
    simp only [hkept]

/-- Creating directories leaves every file that can be read as it is. -/
theorem Gains.read_eq_ok (h : before.Gains after) (hread : before.read path = .ok content) :
    after.read path = .ok content :=
  read_of_keepsWays h.keepsWays (fun _ => h.at?_eq) hread

/-- A path leads to a directory whether or not separators stand at its end. -/
theorem resolve_directory_iff :
    disk.resolve .target path = .ok location ∧ disk.at? location = some .directory ↔
      path.fault? = none ∧ disk.Leads path location := by
  rw [resolve]
  cases hfault : path.fault? with
  | some fault => simp
  | none =>
    rw [and_iff_right rfl, Leads, Path.steps]
    by_cases hend : path.endsWithSeparator = true
    · have hplace : Arrival.target = .place → [""] ≠ [""] := by decide
      obtain ⟨left, hleft⟩ := walk_append linkLimit path.names (List.cons_ne_nil "" []) hplace
        (at?_start disk path)
      have hstay (directory : Location) :
          disk.walk .target left directory [""] = .ok directory := by
        rw [walk_eq, advance, advance]
      rw [if_pos hend]
      simp only [resolveFrom, hleft, hstay]
      cases disk.walk .target linkLimit (origin path []) path.names with
      | error fault => simp
      | ok directory =>
        by_cases hdirectory : disk.at? directory = some .directory
        · simp [hdirectory]
        · simp only [hdirectory, if_false, reduceCtorEq, false_and, false_iff, not_and,
            Except.ok.injEq]
          rintro rfl
          exact hdirectory
    · rw [if_neg hend]

/-- What is listed is what the directory contains to which the path leads. -/
theorem list_eq_ok_iff {entries : List (String × Entry)} :
    disk.list path = .ok entries ↔
      path.fault? = none ∧ ∃ directory, disk.Leads path directory ∧
        entries = disk.children directory := by
  rw [← exists_and_left]
  simp only [← and_assoc, ← resolve_directory_iff]
  rw [list]
  cases hresolve : disk.resolve .target path with
  | error fault => simp
  | ok location =>
    rcases hentry : disk.at? location with _ | content | _ | target
    · simp +contextual [hentry]
    · simp +contextual [hentry]
    · simp only [Except.ok.injEq, and_assoc, exists_eq_left', hentry, true_and]
      exact eq_comm
    · simp +contextual [hentry]

/-- The names in a directory are listed in ascending order. -/
theorem pairwise_children (disk : Disk) (directory : Location) :
    (disk.children directory).Pairwise fun first second => first.1 < second.1 := by
  rw [children]
  split
  · exact .nil
  · rename_i inside hinside
    have hentries := Forest.pairwise_entries (disk.ordered.inside? hinside)
    exact (hentries.imp compareOfLessAndEq_eq_lt.mp).filter _

/-- Where a path leads to a directory, listing does not say that nothing is there. -/
theorem list_ne_noEntry (hleads : disk.Leads path location) (hpath : path.text ≠ "") :
    disk.list path ≠ .error .noEntry := by
  cases hfault : path.fault? with
  | none =>
    have : disk.list path = .ok (disk.children location) :=
      list_eq_ok_iff.mpr ⟨hfault, location, hleads, rfl⟩
    simp [this]
  | some fault =>
    rw [list, resolve, hfault]
    rw [Path.fault?, if_neg hpath] at hfault
    split_ifs at hfault <;> cases hfault <;> simp

end ScriptMailbox.Disk
