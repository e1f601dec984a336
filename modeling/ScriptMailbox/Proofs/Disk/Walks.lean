import ScriptMailbox.Proofs.Disk.Paths

/-!
# Where walks lead

A walk stays in directories until its last step, so it depends on nothing but the directories and
links that it passes and on the entry at which it ends. When it is taken apart, the second part goes
on where the first one has arrived. Hence the path of an entry leads to that entry of the directory
to which the path of the directory leads.
-/

namespace ScriptMailbox.Disk

variable {disk : Disk} {arrival : Arrival} {directory location : Location} {step : String}
  {steps rest more : List String} {links : ℕ} {target path : Path}

/-! ## Walks without links -/

/-- A step to an entry goes on in a directory, ends at the last entry or at a link, and fails
elsewhere. -/
theorem advance_name (hname : IsName step) :
    disk.advance arrival directory (step :: rest) =
      if arrival = .place ∧ rest = [""] then .failed .isDirectory
      else if nameLimit < step.utf8ByteSize then .failed .nameTooLong
      else
        match disk.at? (directory ++ [step]) with
        | none =>
          if rest = [] ∧ arrival = .place then .arrived (directory ++ [step]) else .failed .noEntry
        | some .directory => disk.advance arrival (directory ++ [step]) rest
        | some (.file _) =>
          if rest = [] then .arrived (directory ++ [step]) else .failed .notDirectory
        | some (.link target) =>
          if rest = [] ∧ arrival = .entry then .arrived (directory ++ [step])
          else .redirected directory target rest :=
  advance.eq_5 disk arrival directory step rest hname.ne_empty hname.ne_current hname.ne_parent

/-- A step stays, goes up, or goes to an entry. -/
theorem step_cases (step : String) : step = "" ∨ step = "." ∨ step = ".." ∨ IsName step := by
  by_cases hempty : step = ""
  · exact .inl hempty
  by_cases hcurrent : step = "."
  · exact .inr (.inl hcurrent)
  by_cases hparent : step = ".."
  · exact .inr (.inr (.inl hparent))
  exact .inr (.inr (.inr ⟨hempty, hcurrent, hparent⟩))

/-- What contains a directory is a directory. -/
theorem at?_parent (h : disk.at? directory = some .directory) :
    disk.at? directory.parent = some .directory := by
  rw [Location.parent]
  split
  · exact at?_of_isFixed (.inr rfl)
  · exact at?_dropLast h

/-- A path starts in a directory, for the root is one too. -/
theorem at?_origin (path : Path) (h : disk.at? directory = some .directory) :
    disk.at? (origin path directory) = some .directory := by
  rw [origin]
  split
  · exact at?_of_isFixed (.inr rfl)
  · exact h

/-- A walk is taken apart where its first part has arrived. -/
theorem advance_append (hmore : more ≠ []) (hplace : arrival = .place → more ≠ [""])
    (hdirectory : disk.at? directory = some .directory) :
    disk.advance arrival directory (steps ++ more) =
      match disk.advance .target directory steps with
      | .arrived location =>
        if disk.at? location = some .directory then disk.advance arrival location more
        else .failed .notDirectory
      | .redirected inside target rest => .redirected inside target (rest ++ more)
      | .failed fault => .failed fault := by
  induction steps generalizing directory with
  | nil => simp only [List.nil_append, advance, hdirectory, if_true]
  | cons step steps ih =>
    rw [List.cons_append]
    -- empty steps, dots and parents go on; a name leads by what its entry is
    rcases step_cases step with rfl | rfl | rfl | hname
    · simpa only [advance] using ih hdirectory
    · simpa only [advance] using ih hdirectory
    · simpa only [advance] using ih (at?_parent hdirectory)
    · have hlast : ¬(arrival = .place ∧ steps ++ more = [""]) := by
        rintro ⟨harrival, heq⟩
        rcases List.append_eq_singleton_iff.mp heq with ⟨-, h⟩ | ⟨-, h⟩
        · exact hplace harrival h
        · exact hmore h
      rw [advance_name hname, advance_name hname, if_neg hlast,
        if_neg (by simp : ¬(Arrival.target = .place ∧ steps = [""]))]
      by_cases hlong : nameLimit < step.utf8ByteSize
      · rw [if_pos hlong, if_pos hlong]
      · rw [if_neg hlong, if_neg hlong]
        rcases hentry : disk.at? (directory ++ [step]) with _ | content | _ | target
        · simp [hmore]
        · by_cases hsteps : steps = [] <;> simp [hsteps, hmore, hentry]
        · exact ih hentry
        · simp [hmore]

/-- A walk whose next step takes it to an entry arrives there, or passes the directory there. -/
theorem advance_name_arrived (hname : IsName step)
    (h : disk.advance arrival directory (step :: rest) = .arrived location) :
    step.utf8ByteSize ≤ nameLimit ∧
      (disk.at? (directory ++ [step]) = some .directory ∧
          disk.advance arrival (directory ++ [step]) rest = .arrived location ∨
        rest = [] ∧ location = directory ++ [step] ∧
          (arrival ≠ .place → (disk.at? location).isSome) ∧
          (arrival ≠ .entry → ∀ target, disk.at? location ≠ some (.link target))) := by
  rw [advance_name hname] at h
  rcases hentry : disk.at? (directory ++ [step]) with _ | content | _ | target <;>
    simp only [hentry] at h
  · split_ifs at h with _ _ hlast
    cases h
    exact ⟨by omega, .inr ⟨hlast.1, rfl, by simp [hlast.2], by simp [hentry]⟩⟩
  · split_ifs at h with _ _ hlast
    cases h
    exact ⟨by omega, .inr ⟨hlast, rfl, by simp [hentry], by simp [hentry]⟩⟩
  · split_ifs at h
    exact ⟨by omega, .inl ⟨rfl, h⟩⟩
  · split_ifs at h with _ _ hlast
    cases h
    exact ⟨by omega, .inr ⟨hlast.1, rfl, by simp [hentry], by simp [hlast.2]⟩⟩

/-- Or it meets a link there, or behind the directory there. -/
theorem advance_name_redirected {inside : Location} {left : List String} (hname : IsName step)
    (h : disk.advance arrival directory (step :: rest) = .redirected inside target left) :
    step.utf8ByteSize ≤ nameLimit ∧
      (disk.at? (directory ++ [step]) = some .directory ∧
          disk.advance arrival (directory ++ [step]) rest = .redirected inside target left ∨
        disk.at? (directory ++ [step]) = some (.link target) ∧ inside = directory ∧
          left = rest) := by
  rw [advance_name hname] at h
  rcases hentry : disk.at? (directory ++ [step]) with _ | content | _ | target <;>
    simp only [hentry] at h <;> split_ifs at h
  · exact ⟨by omega, .inl ⟨rfl, h⟩⟩
  · cases h
    exact ⟨by omega, .inr ⟨rfl, rfl, rfl⟩⟩

/-- A walk ends in a directory, or at an entry of one. -/
theorem advance_arrived (hdirectory : disk.at? directory = some .directory)
    (h : disk.advance arrival directory steps = .arrived location) :
    disk.at? location.dropLast = some .directory ∧
      (arrival ≠ .place → (disk.at? location).isSome) ∧
      (arrival ≠ .entry → ∀ target, disk.at? location ≠ some (.link target)) := by
  induction steps generalizing directory with
  | nil =>
    cases h
    exact ⟨at?_dropLast hdirectory, fun _ => by simp [hdirectory], fun _ => by simp [hdirectory]⟩
  | cons step steps ih =>
    rcases step_cases step with rfl | rfl | rfl | hname
    · exact ih hdirectory (by simpa only [advance] using h)
    · exact ih hdirectory (by simpa only [advance] using h)
    · exact ih (at?_parent hdirectory) (by simpa only [advance] using h)
    · rcases (advance_name_arrived hname h).2 with ⟨hentry, hrest⟩ | ⟨-, rfl, hend⟩
      · exact ih hentry hrest
      · rw [List.dropLast_concat]
        exact ⟨hdirectory, hend⟩

/-- A link is met in a directory. -/
theorem advance_redirected (hdirectory : disk.at? directory = some .directory)
    (h : disk.advance arrival directory steps = .redirected location target rest) :
    disk.at? location = some .directory := by
  induction steps generalizing directory with
  | nil => cases h
  | cons step steps ih =>
    rcases step_cases step with rfl | rfl | rfl | hname
    · exact ih hdirectory (by simpa only [advance] using h)
    · exact ih hdirectory (by simpa only [advance] using h)
    · exact ih (at?_parent hdirectory) (by simpa only [advance] using h)
    · rcases (advance_name_redirected hname h).2 with ⟨hentry, hrest⟩ | ⟨-, rfl, -⟩
      · exact ih hentry hrest
      · exact hdirectory

/-! ## Walks through links -/

/-- A walk is an advance, and then another walk if it was redirected by a link. -/
theorem walk_eq (disk : Disk) (arrival : Arrival) (links : ℕ) (directory : Location)
    (steps : List String) :
    disk.walk arrival links directory steps =
      match disk.advance arrival directory steps with
      | .arrived location => .ok location
      | .failed fault => .error fault
      | .redirected directory target rest =>
        match links with
        | 0 => .error .tooManyLinks
        | links + 1 =>
          if target.text = "" then .error .noEntry
          else disk.walk arrival links (origin target directory) (target.steps ++ rest) :=
  walk.eq_1 ..

/-- The second part of a walk goes on where the first has arrived, with the links that are left. -/
theorem walk_append (links : ℕ) (steps : List String) (hmore : more ≠ [])
    (hplace : arrival = .place → more ≠ [""]) (hdirectory : disk.at? directory = some .directory) :
    ∃ left, disk.walk arrival links directory (steps ++ more) =
      match disk.walk .target links directory steps with
      | .ok location =>
        if disk.at? location = some .directory then disk.walk arrival left location more
        else .error .notDirectory
      | .error fault => .error fault := by
  -- on the links that may still be followed; each one replaces the steps that are left
  induction links generalizing directory steps with
  | zero =>
    refine ⟨0, ?_⟩
    rw [walk_eq, advance_append hmore hplace hdirectory, walk_eq disk .target]
    cases disk.advance .target directory steps with
    | arrived location =>
      dsimp only
      split_ifs
      · rw [walk_eq]
      · rfl
    | redirected inside target rest => rfl
    | failed fault => rfl
  | succ links ih =>
    rw [walk_eq, advance_append hmore hplace hdirectory, walk_eq disk .target]
    cases hfirst : disk.advance .target directory steps with
    | arrived location =>
      refine ⟨links + 1, ?_⟩
      dsimp only
      split_ifs
      · rw [walk_eq]
      · rfl
    | redirected inside target rest =>
      by_cases hempty : target.text = ""
      · exact ⟨0, by simp only [hempty, if_true]⟩
      · obtain ⟨left, hleft⟩ := ih (target.steps ++ rest)
          (at?_origin target (advance_redirected hdirectory hfirst))
        refine ⟨left, ?_⟩
        rw [List.append_assoc] at hleft
        simpa only [hempty, if_false] using hleft
    | failed fault => exact ⟨0, rfl⟩

/-- Where a walk arrives, there is what it was to look for, in a directory. -/
theorem walk_arrived (hdirectory : disk.at? directory = some .directory)
    (h : disk.walk arrival links directory steps = .ok location) :
    disk.at? location.dropLast = some .directory ∧
      (arrival ≠ .place → (disk.at? location).isSome) ∧
      (arrival ≠ .entry → ∀ target, disk.at? location ≠ some (.link target)) := by
  induction links generalizing directory steps with
  | zero =>
    rw [walk_eq] at h
    cases hwalk : disk.advance arrival directory steps <;> simp only [hwalk, reduceCtorEq] at h
    cases h
    exact advance_arrived hdirectory hwalk
  | succ links ih =>
    rw [walk_eq] at h
    cases hwalk : disk.advance arrival directory steps <;> simp only [hwalk, reduceCtorEq] at h
    · cases h
      exact advance_arrived hdirectory hwalk
    · split_ifs at h
      exact ih (at?_origin _ (advance_redirected hdirectory hwalk)) h

/-! ## Walks on two disks -/

/-- What a walk passes on one disk, it passes on the other. -/
def KeepsWays (before after : Disk) : Prop :=
  ∀ location,
    (before.at? location = some .directory → after.at? location = some .directory) ∧
      ∀ target, before.at? location = some (.link target) →
        after.at? location = some (.link target)

/-- What a walk may end at: a directory or a file. -/
def IsEnd (disk : Disk) (location : Location) : Prop :=
  disk.at? location = some .directory ∨ ∃ content, disk.at? location = some (.file content)

variable {before between after : Disk}

/-- A disk keeps its own directories and links. -/
theorem KeepsWays.refl (disk : Disk) : disk.KeepsWays disk :=
  fun _ => ⟨id, fun _ => id⟩

/-- Ways that are kept twice are kept. -/
theorem KeepsWays.trans (h : before.KeepsWays between) (hmore : between.KeepsWays after) :
    before.KeepsWays after := by
  intro location
  obtain ⟨hdirectory, hlink⟩ := h location
  obtain ⟨hdirectory', hlink'⟩ := hmore location
  exact ⟨hdirectory' ∘ hdirectory, fun target => hlink' target ∘ hlink target⟩

/-- A walk that arrives on the first disk arrives on the second, if it can end there. -/
theorem advance_arrived_of_keepsWays (hways : before.KeepsWays after) (hend : after.IsEnd location)
    (h : before.advance arrival directory steps = .arrived location) :
    after.advance .target directory steps = .arrived location := by
  induction steps generalizing directory with
  | nil => exact h
  | cons step steps ih =>
    rcases step_cases step with rfl | rfl | rfl | hname
    · simpa only [advance] using ih (by simpa only [advance] using h)
    · simpa only [advance] using ih (by simpa only [advance] using h)
    · simpa only [advance] using ih (by simpa only [advance] using h)
    · obtain ⟨hshort, hcases⟩ := advance_name_arrived hname h
      rw [advance_name hname, if_neg (by simp), if_neg (by omega)]
      rcases hcases with ⟨hentry, hrest⟩ | ⟨rfl, rfl, -⟩
      · simp only [(hways _).1 hentry]
        exact ih hrest
      · rcases hend with hentry | ⟨content, hentry⟩ <;> simp [hentry, advance]

/-- A link that an advance meets is met again. -/
theorem advance_redirected_of_keepsWays (hways : before.KeepsWays after)
    (h : before.advance arrival directory steps = .redirected location target rest) :
    after.advance .target directory steps = .redirected location target rest := by
  induction steps generalizing directory with
  | nil => cases h
  | cons step steps ih =>
    rcases step_cases step with rfl | rfl | rfl | hname
    · simpa only [advance] using ih (by simpa only [advance] using h)
    · simpa only [advance] using ih (by simpa only [advance] using h)
    · simpa only [advance] using ih (by simpa only [advance] using h)
    · obtain ⟨hshort, hcases⟩ := advance_name_redirected hname h
      rw [advance_name hname, if_neg (by simp), if_neg (by omega)]
      rcases hcases with ⟨hentry, hrest⟩ | ⟨hentry, rfl, rfl⟩
      · simp only [(hways _).1 hentry]
        exact ih hrest
      · simp [(hways _).2 _ hentry]

/-- So a walk arrives where it arrived, provided that it may end there. -/
theorem walk_of_keepsWays (hways : before.KeepsWays after) (hend : after.IsEnd location)
    (h : before.walk arrival links directory steps = .ok location) :
    after.walk .target links directory steps = .ok location := by
  induction links generalizing directory steps with
  | zero =>
    rw [walk_eq] at h
    cases hwalk : before.advance arrival directory steps <;>
      simp only [hwalk, reduceCtorEq] at h
    cases h
    rw [walk_eq, advance_arrived_of_keepsWays hways hend hwalk]
  | succ links ih =>
    rw [walk_eq] at h
    cases hwalk : before.advance arrival directory steps <;>
      simp only [hwalk, reduceCtorEq] at h
    · cases h
      rw [walk_eq, advance_arrived_of_keepsWays hways hend hwalk]
    · rw [walk_eq, advance_redirected_of_keepsWays hways hwalk]
      split_ifs at h with hempty
      simp only [if_neg hempty]
      exact ih h

/-! ## Paths -/

/-- The path leads to the directory at this location. -/
def Leads (disk : Disk) (path : Path) (location : Location) : Prop :=
  disk.resolveFrom .target (origin path []) path.names = .ok location ∧
    disk.at? location = some .directory

instance (disk : Disk) (path : Path) (location : Location) :
    Decidable (disk.Leads path location) :=
  inferInstanceAs (Decidable (_ ∧ _))

/-- Every path starts in a directory. -/
theorem at?_start (disk : Disk) (path : Path) :
    disk.at? (origin path []) = some .directory :=
  at?_origin path (at?_of_isFixed (.inl rfl))

/-- A path leads to one directory at most. -/
theorem Leads.unique {other : Location} (h : disk.Leads path location)
    (hother : disk.Leads path other) : location = other :=
  Except.ok.inj (h.1.symm.trans hother.1)

/-- It goes on leading there as long as ways are kept. -/
theorem Leads.of_keepsWays (h : before.Leads path location) (hways : before.KeepsWays after) :
    after.Leads path location := by
  have hentry := (hways location).1 h.2
  exact ⟨walk_of_keepsWays hways (.inl hentry) h.1, hentry⟩

/-- A path that is resolved has no fault, and its steps arrive. -/
theorem resolve_eq_ok (h : disk.resolve arrival path = .ok location) :
    path.fault? = none ∧
      disk.resolveFrom arrival (origin path []) path.steps = .ok location := by
  rw [resolve] at h
  cases hfault : path.fault? with
  | none => exact ⟨rfl, by simpa only [hfault] using h⟩
  | some fault => simp [hfault] at h

/-- What a path is resolved to is there, in a directory. -/
theorem resolve_arrived (h : disk.resolve arrival path = .ok location) :
    disk.at? location.dropLast = some .directory ∧
      (arrival ≠ .place → (disk.at? location).isSome) ∧
      (arrival ≠ .entry → ∀ target, disk.at? location ≠ some (.link target)) :=
  walk_arrived (at?_start disk path) (resolve_eq_ok h).2

/-- A path is resolved to the same location as long as ways are kept. -/
theorem resolve_of_keepsWays (hways : before.KeepsWays after) (hend : after.IsEnd location)
    (h : before.resolve arrival path = .ok location) :
    after.resolve .target path = .ok location := by
  obtain ⟨hfault, hwalk⟩ := resolve_eq_ok h
  rw [resolve, hfault]
  exact walk_of_keepsWays hways hend hwalk

variable {name : String}

/-- The last step to an entry that is no link, or whose link is wanted itself. -/
theorem walk_name (hname : IsName name)
    (hlink : arrival = .entry ∨ ∀ target, disk.at? (directory ++ [name]) ≠ some (.link target)) :
    disk.walk arrival links directory [name] = .ok location ↔
      name.utf8ByteSize ≤ nameLimit ∧ location = directory ++ [name] ∧
        (arrival ≠ .place → (disk.at? location).isSome) := by
  rw [walk_eq, advance_name hname, if_neg (by simp)]
  by_cases hlong : nameLimit < name.utf8ByteSize
  · simp only [if_pos hlong, reduceCtorEq, false_iff, not_and]
    omega
  have hshort : name.utf8ByteSize ≤ nameLimit := by omega
  rw [if_neg hlong, and_iff_right hshort]
  rcases hentry : disk.at? (directory ++ [name]) with _ | content | _ | target
  · by_cases harrival : arrival = .place
    · simp only [harrival, and_self, if_true, Except.ok.injEq, ne_eq, not_true, false_implies,
        and_true]
      exact eq_comm
    · simp only [harrival, and_false, if_false, reduceCtorEq, false_iff, not_and]
      rintro rfl
      simp [hentry, harrival]
  · simp only [if_true, Except.ok.injEq]
    constructor
    · rintro rfl
      exact ⟨rfl, by simp [hentry]⟩
    · exact fun h => h.1.symm
  · simp only [advance, Except.ok.injEq]
    constructor
    · rintro rfl
      exact ⟨rfl, by simp [hentry]⟩
    · exact fun h => h.1.symm
  · obtain rfl := hlink.resolve_right fun h => h target hentry
    simp only [and_self, if_true, Except.ok.injEq]
    constructor
    · rintro rfl
      exact ⟨rfl, by simp [hentry]⟩
    · exact fun h => h.1.symm

/-- The path of an entry leads to that entry of the directory, if it is no link. -/
theorem resolve_join (hname : IsEntryName name)
    (hlink : arrival = .entry ∨ ∀ directory, disk.Leads path directory →
      ∀ target, disk.at? (directory ++ [name]) ≠ some (.link target)) :
    disk.resolve arrival (path.join name) = .ok location ↔
      ((path.join name).fault? = none ∧ name.utf8ByteSize ≤ nameLimit) ∧
        ∃ directory, disk.Leads path directory ∧ location = directory ++ [name] ∧
          (arrival ≠ .place → (disk.at? location).isSome) := by
  rw [resolve]
  cases hfault : (path.join name).fault? with
  | some fault => simp
  | none =>
    -- the last name is not empty, so the path does not end with a separator
    have hplace : arrival = .place → [name] ≠ [""] :=
      fun _ heq => hname.ne_empty (List.singleton_inj.mp heq)
    obtain ⟨left, hleft⟩ := walk_append linkLimit path.names (List.cons_ne_nil name []) hplace
      (at?_start disk path)
    rw [and_iff_right rfl]
    dsimp only
    rw [resolveFrom, origin_join hname, Path.steps_join hname, hleft]
    cases hwalk : disk.walk .target linkLimit (origin path []) path.names with
    | error fault => simp [Leads, resolveFrom, hwalk]
    | ok directory =>
      by_cases hdirectory : disk.at? directory = some .directory
      · have hleads : disk.Leads path directory := ⟨hwalk, hdirectory⟩
        simp only [hdirectory, if_true]
        rw [walk_name hname.toIsName (hlink.imp_right fun h => h directory hleads)]
        constructor
        · rintro ⟨hshort, hlocation⟩
          exact ⟨hshort, directory, hleads, hlocation⟩
        · rintro ⟨hshort, other, hother, hlocation⟩
          obtain rfl := hleads.unique hother
          exact ⟨hshort, hlocation⟩
      · simp [Leads, resolveFrom, hwalk, hdirectory]

end ScriptMailbox.Disk
