import ScriptMailbox.Proofs.Disk.Spellings

/-!
# The way to a directory

The directories that a path passes are those to which its first moves lead. Creating the directory
of a path creates directories that it passes, and nothing else.
-/

namespace ScriptMailbox

namespace Disk

variable {disk before after made : Disk} {path : Path} {start parent location : Location}
  {name : String} {names steps lead : List String} {links : ℕ} {fault : DiskFault}

/-! ## Walks to directories -/

/-- Some steps lead from a directory to a directory. -/
structure Reaches (disk : Disk) (start : Location) (steps : List String) (location : Location) :
    Prop where
  resolves : disk.resolveFrom .target start steps = .ok location
  directory : disk.at? location = some .directory

/-- Steps go on reaching a directory as long as ways are kept. -/
theorem Reaches.of_keepsWays (h : before.Reaches start steps location)
    (hways : before.KeepsWays after) : after.Reaches start steps location := by
  have hentry := (hways location).1 h.directory
  exact ⟨walk_of_keepsWays hways (.inl hentry) h.resolves, hentry⟩

/-- Steps that stay make no difference. -/
theorem Reaches.filter (h : disk.Reaches start steps location) :
    disk.Reaches start (steps.filter isMove) location :=
  ⟨(drops_filter steps).walk h.resolves, h.directory⟩

/-- An empty step at the end arrives in directories alone. -/
theorem resolve_empty_step (hstart : disk.at? start = some .directory) :
    disk.resolveFrom .target start (steps ++ [""]) = .ok location ↔
      disk.Reaches start steps location := by
  have hplace : Arrival.target = .place → [""] ≠ [""] := by decide
  obtain ⟨left, hleft⟩ := walk_append linkLimit steps (List.cons_ne_nil "" []) hplace hstart
  have hstay (place : Location) : disk.walk .target left place [""] = .ok place := by
    rw [walk_eq, advance, advance]
  rw [resolveFrom, hleft]
  constructor
  · intro h
    cases hwalk : disk.walk .target linkLimit start steps with
    | error fault => simp [hwalk] at h
    | ok place =>
      simp only [hwalk, hstay] at h
      split_ifs at h with hdirectory
      cases h
      exact ⟨hwalk, hdirectory⟩
  · intro h
    have hwalk := h.resolves
    rw [resolveFrom] at hwalk
    rw [hwalk]
    simp only [h.directory, if_true, hstay]

/-- One more step leads to a directory that a directory contains. -/
theorem Reaches.step (h : disk.Reaches start steps parent)
    (hstart : disk.at? start = some .directory) (hname : IsName name)
    (hshort : name.utf8ByteSize ≤ nameLimit)
    (hentry : disk.at? (parent ++ [name]) = some .directory) :
    disk.Reaches start (steps ++ [name]) (parent ++ [name]) := by
  have hplace : Arrival.target = .place → [name] ≠ [""] := fun hnever => by cases hnever
  obtain ⟨left, hleft⟩ := walk_append linkLimit steps (List.cons_ne_nil name []) hplace hstart
  have hlast : disk.walk .target left parent [name] = .ok (parent ++ [name]) :=
    (walk_name hname (.inr (by simp [hentry]))).mpr ⟨hshort, rfl, by simp [hentry]⟩
  refine ⟨?_, hentry⟩
  have hwalk := h.resolves
  rw [resolveFrom] at hwalk ⊢
  rw [hleft, hwalk]
  simp only [h.directory, if_true, hlast]

/-! ## Creating directories -/

/-- Putting an entry changes no other location, also where it may not be put. -/
theorem at?_put_of_ne {other : Location} (hne : other ≠ location) (entry : Entry) :
    (disk.put location entry).at? other = disk.at? other := by
  by_cases hput : disk.mayPut location
  · rw [at?_put _ _ hput, if_neg hne]
  · rw [put, dif_neg hput]

/-- A directory is created in the directory to which the steps before the last one lead. -/
theorem vacant_eq_ok (hstart : disk.at? start = some .directory)
    (h : disk.vacant start names = .ok location) :
    ∃ parent name, names = names.dropLast ++ [name] ∧ location = parent ++ [name] ∧ IsName name ∧
      name.utf8ByteSize ≤ nameLimit ∧ disk.Reaches start names.dropLast parent := by
  rw [vacant] at h
  cases hparent : disk.parentOf start names with
  | error fault => simp [hparent] at h
  | ok parent =>
    have hreaches := (resolve_empty_step hstart).mp hparent
    simp only [hparent] at h
    split at h <;> try cases h
    rename_i name hempty hcurrent houter hlast
    split_ifs at h with hlong
    cases h
    have hname : IsName name := ⟨hempty, hcurrent, houter⟩
    refine ⟨parent, name, ?_, rfl, hname, by omega, hreaches⟩
    exact (List.dropLast_append_getLast? name hlast).symm

/-- Then one more step leads to it. -/
theorem Reaches.put (h : disk.Reaches start steps parent)
    (hstart : disk.at? start = some .directory) (hname : IsName name)
    (hshort : name.utf8ByteSize ≤ nameLimit) (hnone : disk.at? (parent ++ [name]) = none) :
    (disk.put (parent ++ [name]) .directory).Reaches start (steps ++ [name])
      (parent ++ [name]) := by
  have hput : disk.mayPut (parent ++ [name]) := by
    refine ⟨?_, by simp [hnone]⟩
    rw [List.dropLast_concat]
    exact h.directory
  have hways := (gains_put hnone).keepsWays
  have hentry : (disk.put (parent ++ [name]) .directory).at? (parent ++ [name]) =
      some .directory := by
    rw [at?_put _ _ hput, if_pos rfl]
  exact (h.of_keepsWays hways).step ((hways start).1 hstart) hname hshort hentry

/-- Once a directory stands at the first vacant place, the steps reach it. -/
theorem reaches_put (hstart : disk.at? start = some .directory)
    (h : disk.vacant start names = .ok location) :
    (disk.put location .directory).Reaches start names location := by
  have hnone := at?_of_vacant h
  obtain ⟨parent, name, hnames, rfl, hname, hshort, hreaches⟩ := vacant_eq_ok hstart h
  rw [hnames]
  exact hreaches.put hstart hname hshort hnone

/-- The second disk is the first one with more directories on the way of some steps. -/
def GainsOn (start : Location) (steps : List String) (before after : Disk) : Prop :=
  ∀ location, after.at? location = before.at? location ∨
    before.at? location = none ∧ ∃ lead, lead <+: steps ∧ after.Reaches start lead location

/-- New directories on the way are new directories. -/
theorem GainsOn.gains (h : GainsOn start steps before after) : before.Gains after := by
  intro location
  rcases h location with heq | ⟨hnone, lead, -, hreaches⟩
  · exact .inl heq
  · exact .inr ⟨hnone, hreaches.directory⟩

/-- A disk gains nothing on itself. -/
theorem GainsOn.refl (start : Location) (steps : List String) (disk : Disk) :
    GainsOn start steps disk disk :=
  fun _ => .inl rfl

/-- What is gained on the same way twice is gained on it. -/
theorem GainsOn.trans (h : GainsOn start steps before made)
    (hmore : GainsOn start steps made after) : GainsOn start steps before after := by
  intro location
  rcases hmore location with heq | ⟨hnone, hnew⟩
  · rcases h location with hkept | ⟨hnone, lead, hlead, hreaches⟩
    · exact .inl (heq.trans hkept)
    · exact .inr ⟨hnone, lead, hlead, hreaches.of_keepsWays hmore.gains.keepsWays⟩
  · rcases h location with hkept | ⟨hbefore, -⟩
    · exact .inr ⟨hkept ▸ hnone, hnew⟩
    · exact .inr ⟨hbefore, hnew⟩

/-- What is gained on a way is gained on every longer way. -/
theorem GainsOn.mono {more : List String} (h : GainsOn start steps before after)
    (hless : steps <+: more) : GainsOn start more before after := by
  intro location
  rcases h location with heq | ⟨hnone, lead, hlead, hreaches⟩
  · exact .inl heq
  · exact .inr ⟨hnone, lead, hlead.trans hless, hreaches⟩

/-- Steps that stay make no difference here either. -/
theorem GainsOn.filter (h : GainsOn start steps before after) :
    GainsOn start (steps.filter isMove) before after := by
  intro location
  rcases h location with heq | ⟨hnone, lead, hlead, hreaches⟩
  · exact .inl heq
  · exact .inr ⟨hnone, _, hlead.filter isMove, hreaches.filter⟩

/-- A directory that is put where the steps then lead is gained on their way. -/
theorem gainsOn_put (hnone : disk.at? location = none)
    (h : (disk.put location .directory).Reaches start names location) :
    GainsOn start names disk (disk.put location .directory) := by
  intro other
  by_cases heq : other = location
  · rw [heq]
    exact .inr ⟨hnone, names, List.prefix_rfl, h⟩
  · exact .inl (at?_put_of_ne heq .directory)

/-- If there is a directory at the end of some steps, it is the one that is given. -/
theorem standing_eq_ok (h : disk.standing start names fault = .ok location) :
    disk.Reaches start names location := by
  rw [standing] at h
  split at h
  · cases h
  · rename_i hresolve
    split_ifs at h with hdirectory
    cases h
    exact ⟨hresolve, hdirectory⟩

/-- Creating the directories on a way: what is new stands on it, and it leads where is said. -/
theorem gainsOn_makeWay (hstart : disk.at? start = some .directory) (names : List String) :
    GainsOn start names.reverse disk (disk.makeWay start names).2 ∧
      ∀ location, (disk.makeWay start names).1 = .ok location →
        (disk.makeWay start names).2.Reaches start names.reverse location := by
  -- on the names, the last one first: those above are made only where it cannot be made without
  -- them
  induction names with
  | nil =>
    refine ⟨GainsOn.refl start [] disk, fun location h => ?_⟩
    cases h
    exact ⟨by rw [List.reverse_nil, resolveFrom, walk_eq, advance], hstart⟩
  | cons name above ih =>
    have hnames : (name :: above).reverse = above.reverse ++ [name] := List.reverse_cons
    rw [makeWay]
    split
    · rename_i location hvacant
      have hnew := reaches_put hstart hvacant
      refine ⟨gainsOn_put (at?_of_vacant hvacant) hnew, fun other h => ?_⟩
      cases h
      exact hnew
    · obtain ⟨hgains, hreaches⟩ := ih
      have hless : above.reverse <+: (name :: above).reverse := ⟨[name], hnames.symm⟩
      split
      · rename_i fault made hmade
        rw [hmade] at hgains
        exact ⟨hgains.mono hless, fun location hnever => by cases hnever⟩
      · rename_i parent made hmade
        rw [hmade] at hgains hreaches
        have hparent := hreaches parent rfl
        split
        · rename_i location hvacant
          have hnone := at?_of_vacant hvacant
          obtain ⟨inside, last, hlast, rfl, hname, hshort, hinside⟩ :=
            vacant_eq_ok hparent.directory hvacant
          obtain rfl : name = last := List.singleton_inj.mp hlast
          have hstay := hinside.resolves
          rw [List.dropLast_singleton, resolveFrom, walk_eq, advance] at hstay
          obtain rfl := Except.ok.inj hstay
          have hnew := hparent.put ((hgains.gains.keepsWays start).1 hstart) hname hshort hnone
          rw [← hnames] at hnew
          refine ⟨(hgains.mono hless).trans (gainsOn_put hnone hnew), fun other h => ?_⟩
          cases h
          exact hnew
        · rename_i fault hvacant
          exact ⟨hgains.mono hless, fun location h => standing_eq_ok h⟩
    · exact ⟨GainsOn.refl _ _ disk, fun location h => standing_eq_ok h⟩

/-! ## Paths -/

/-- The directory at a location is passed by a path. -/
def Passes (disk : Disk) (path : Path) (location : Location) : Prop :=
  ∃ lead, lead <+: path.moves ∧ disk.Reaches (origin path []) lead location

/-- A path goes on passing a directory as long as ways are kept. -/
theorem Passes.of_keepsWays (h : before.Passes path location) (hways : before.KeepsWays after) :
    after.Passes path location := by
  obtain ⟨lead, hlead, hreaches⟩ := h
  exact ⟨lead, hlead, hreaches.of_keepsWays hways⟩

/-- Among the texts of components, those that move are the moves. -/
theorem filter_map_nameOf (components : List Component)
    (hnames : ∀ name, .normal name ∈ components → isMove name = true) :
    (components.map nameOf).filter isMove = components.filterMap Component.move? := by
  induction components with
  | nil => rfl
  | cons component components ih =>
    have hrest := ih fun name hname => hnames name (List.mem_cons_of_mem component hname)
    cases component with
    | root => exact hrest
    | current => exact hrest
    | parent => exact congrArg (".." :: ·) hrest
    | normal name =>
      have hmove := hnames name List.mem_cons_self
      rw [List.map_cons, List.filter_cons, nameOf, if_pos hmove, hrest]
      rfl

/-- A name among the components of a path moves, for names are neither empty nor dots. -/
theorem isMove_of_mem_components (h : .normal name ∈ path.components) : isMove name = true := by
  have hnamed : .normal name ∈ path.parts.filterMap Component.ofPart? := by
    rw [Path.components] at h
    split_ifs at h
    · exact (List.mem_cons.mp h).resolve_left fun hnever => by cases hnever
    · exact (List.mem_cons.mp h).resolve_left fun hnever => by cases hnever
    · exact h
  obtain ⟨part, -, hpart⟩ := List.mem_filterMap.mp hnamed
  have hmove := Component.bind_move?_ofPart? part
  rw [hpart, Option.bind_some, Component.move?] at hmove
  split_ifs at hmove with hmoves
  rwa [Option.some.inj hmove]

/-- What is created for a path, it passes. -/
theorem gainsOn_makeDirectories (disk : Disk) (path : Path) :
    GainsOn (origin path []) path.moves disk (disk.makeDirectories path).2 := by
  have hstart := disk.at?_start path
  -- the directories above, should they have to be created first
  have hparents : GainsOn (origin path []) path.moves disk (disk.makeParents path).2 := by
    have hway := (gainsOn_makeWay hstart (path.components.reverse.tail.map nameOf)).1.filter
    have hnames : (path.components.reverse.tail.map nameOf).reverse =
        path.components.dropLast.map nameOf := by
      rw [List.tail_reverse, ← List.map_reverse, List.reverse_reverse]
    have hmoves : (path.components.map nameOf).filter isMove = path.moves := by
      rw [filter_map_nameOf _ fun name hname => isMove_of_mem_components hname, Path.moves_eq]
    rw [hnames] at hway
    rw [← hmoves]
    exact hway.mono (((List.dropLast_prefix path.components).map nameOf).filter isMove)
  have hvacant {made : Disk} {location : Location}
      (hmade : made.at? (origin path []) = some .directory)
      (h : made.vacant (origin path []) path.names = .ok location) :
      GainsOn (origin path []) path.moves made (made.put location .directory) := by
    rw [← Path.filter_names]
    exact (gainsOn_put (at?_of_vacant h) (reaches_put hmade h)).filter
  rw [makeDirectories]
  split_ifs with hempty
  · exact GainsOn.refl _ _ disk
  split
  · exact GainsOn.refl _ _ disk
  dsimp only
  split
  · rename_i hlocation
    exact hvacant hstart hlocation
  · split
    · rename_i hmade
      rwa [hmade] at hparents
    · rename_i hmade
      rw [hmade] at hparents
      split
      · rename_i hlocation
        exact hparents.trans (hvacant ((hparents.gains.keepsWays _).1 hstart) hlocation)
      · exact hparents
  · exact GainsOn.refl _ _ disk

/-- Steps that lead to a directory lead through one before the last step. -/
theorem reaches_dropLast (hstart : disk.at? start = some .directory)
    (h : disk.Reaches start steps location) :
    ∃ parent, disk.Reaches start steps.dropLast parent ∧
      ∀ name, steps.getLast? = some name → IsName name →
        (disk.at? (parent ++ [name])).isSome = true := by
  rcases List.eq_nil_or_concat' steps with rfl | ⟨lead, last, rfl⟩
  · exact ⟨location, h, fun last hnever => by cases hnever⟩
  have hplace : Arrival.target = .place → [last] ≠ [""] := fun hnever => by cases hnever
  obtain ⟨left, hleft⟩ := walk_append linkLimit lead (List.cons_ne_nil last []) hplace hstart
  have hwalk := h.resolves
  rw [resolveFrom, hleft] at hwalk
  cases hlead : disk.walk .target linkLimit start lead with
  | error fault => simp [hlead] at hwalk
  | ok parent =>
    simp only [hlead] at hwalk
    split_ifs at hwalk with hdirectory
    refine ⟨parent, ?_, fun name hname hisName => ?_⟩
    · rw [List.dropLast_concat]
      exact ⟨hlead, hdirectory⟩
    · rw [List.getLast?_concat, Option.some.injEq] at hname
      subst hname
      by_contra hnone
      rw [Bool.not_eq_true, Option.isSome_eq_false_iff, Option.isNone_iff_eq_none] at hnone
      have hlast := (walk_name hisName (.inr (by simp [hnone]))).mp hwalk
      rw [← hlast.2.1] at hnone
      simpa [hnone] using hlast.2.2

/-- Nothing is created where the path leads to a directory already. -/
theorem vacant_of_leads (h : disk.Leads path location) :
    ∃ fault, disk.vacant (origin path []) path.names = .error fault ∧ fault ≠ .noEntry := by
  have hstart := disk.at?_start path
  obtain ⟨parent, hparent, hlast⟩ := reaches_dropLast hstart ⟨h.1, h.2⟩
  have hresolve : disk.parentOf (origin path []) path.names = .ok parent :=
    (resolve_empty_step hstart).mpr hparent
  have hexists : DiskFault.entryExists ≠ .noEntry := fun hnever => by cases hnever
  rw [vacant, hresolve]
  dsimp only
  split
  · exact ⟨.entryExists, rfl, hexists⟩
  · exact ⟨.entryExists, rfl, hexists⟩
  · exact ⟨.entryExists, rfl, hexists⟩
  · exact ⟨.entryExists, rfl, hexists⟩
  · rename_i name hempty hcurrent houter hname
    have hthere := hlast name hname ⟨hempty, hcurrent, houter⟩
    split_ifs
    · exact ⟨.nameTooLong, rfl, fun hnever => by cases hnever⟩
    · exact ⟨.entryExists, rfl, hexists⟩

/-- Where a path leads to a directory already, creating directories changes nothing. -/
theorem makeDirectories_of_leads (h : disk.Leads path location) :
    (disk.makeDirectories path).2 = disk := by
  obtain ⟨fault, hvacant, hfault⟩ := vacant_of_leads h
  rw [makeDirectories]
  split_ifs with hempty
  · rfl
  split
  · rfl
  · dsimp only
    rw [hvacant]
    cases fault <;> first | rfl | exact absurd rfl hfault

/-- A directory that is there counts as created, if its path has no fault of its own. -/
theorem makeDirectories_eq_of_leads (h : disk.Leads path location) (hpath : path.fault? = none) :
    disk.makeDirectories path = (.ok (), disk) := by
  refine Prod.ext ?_ (makeDirectories_of_leads h)
  obtain ⟨fault, hvacant, hfault⟩ := vacant_of_leads h
  have hstanding : disk.standing (origin path []) path.names fault = .ok location := by
    rw [standing, h.1]
    exact if_pos h.2
  rw [makeDirectories]
  split_ifs with hempty
  · rfl
  · rw [hpath]
    dsimp only
    rw [hvacant]
    cases fault <;> first | exact absurd rfl hfault | simp [hstanding, Except.map]

end Disk

end ScriptMailbox
