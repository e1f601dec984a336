import ScriptMailbox.Disk.Forest

/-!
# The disk

The disk is the forest that the working directory contains. What lies above the working directory,
up to the root, is one directory that holds nothing at first; it stands in the forest under the
name `..`. These two directories are always there. Each operation changes what stands at the
locations it names and nothing else (`at?_put`, `at?_erase`, `at?_clear`).
-/

namespace ScriptMailbox

/-- The name of what lies above the working directory. -/
def outerName : String := ".."

/-- The location of what lies above the working directory. -/
def Location.outer : Location := [outerName]

/-- Whether a location is that of a directory which is always there. -/
def Location.isFixed (location : Location) : Prop :=
  location = [] ∨ location = .outer

instance (location : Location) : Decidable location.isFixed :=
  inferInstanceAs (Decidable (_ ∨ _))

/-- The location of what contains an entry. -/
def Location.parent (location : Location) : Location :=
  if location.isFixed then .outer else location.dropLast

/-- The name of an entry in what contains it. -/
def Location.name (location : Location) : String :=
  location.getLastD ""

/-- A location is its directory and its name. -/
theorem Location.dropLast_append_name (location : Location) (h : location ≠ []) :
    location.dropLast ++ [location.name] = location := by
  obtain ⟨names, name, rfl⟩ := List.eq_nil_or_concat location |>.resolve_left h
  simp [Location.name]

/-- The names that lead from a directory down to another entry, if that lies below it. What lies
above the working directory is not below it. -/
def Location.below? (directory location : Location) : Option (List String) :=
  match Text.dropStart? directory location with
  | some (name :: names) => if name = outerName then none else some (name :: names)
  | _ => none

/-- What the working directory contains, and what lies above it. -/
structure Disk where
  /-- The entries below the working directory, and the directory above it. -/
  entries : Forest
  ordered : entries.Ordered
  at?_outer : entries.at? .outer = some .directory
  deriving DecidableEq

namespace Disk

/-- The disk without entries. -/
def empty : Disk where
  entries := .cons outerName .directory .nil .nil
  ordered := ⟨fun _ h => by simp [Forest.find?] at h, fun _ => rfl, trivial, trivial⟩
  at?_outer := rfl

instance : Inhabited Disk := ⟨empty⟩

/-- The entry at a location. -/
def at? (disk : Disk) (location : Location) : Option Entry :=
  disk.entries.at? location

/-- The places that every disk has are directories. -/
theorem at?_of_isFixed {disk : Disk} {location : Location} (h : location.isFixed) :
    disk.at? location = some .directory := by
  rcases h with rfl | rfl
  · rfl
  · exact disk.at?_outer

/-- What contains an entry is a directory. -/
theorem at?_dropLast {disk : Disk} {location : Location} {entry : Entry}
    (h : disk.at? location = some entry) : disk.at? location.dropLast = some .directory := by
  by_cases hne : location = []
  · rw [hne]
    rfl
  · rw [← List.dropLast_concat_getLast hne] at h
    exact Forest.at?_eq_directory_of_append (by simp) h

/-- Disks with the same entries at the same locations are the same. -/
theorem ext_at? {a b : Disk} (h : ∀ location, a.at? location = b.at? location) : a = b := by
  have := Forest.ext_at? a.ordered b.ordered h
  cases a
  cases b
  cases this
  rfl

/-! ## Putting -/

/-- Whether an entry may be put at a location: a directory must contain it, and it must not take
the place of a directory. -/
def mayPut (disk : Disk) (location : Location) : Prop :=
  disk.at? location.dropLast = some .directory ∧ disk.at? location ≠ some .directory

instance (disk : Disk) (location : Location) : Decidable (disk.mayPut location) :=
  inferInstanceAs (Decidable (_ ∧ _))

/-- Nothing is put at the places that every disk has. -/
theorem not_isFixed_of_mayPut {disk : Disk} {location : Location} (h : disk.mayPut location) :
    ¬location.isFixed :=
  fun hfixed => h.2 (at?_of_isFixed hfixed)

/-- Inserting an entry in its directory sets its location alone. It is the step from forests to
`at?_put`. -/
theorem at?_within_insert_name {disk : Disk} {location : Location} (entry : Entry)
    (other : Location) (h : disk.mayPut location) :
    (disk.entries.within (.insert location.name entry) location.dropLast).at? other =
      if other = location then some entry else disk.at? other := by
  have hname := location.dropLast_append_name fun hne => not_isFixed_of_mayPut h (.inl hne)
  have := Forest.at?_within_insert entry other h.1 (hname.symm ▸ h.2)
  rwa [hname] at this

/-- The disk with an entry at a location, where it may be put. -/
def put (disk : Disk) (location : Location) (entry : Entry) : Disk :=
  if h : disk.mayPut location then
    { entries := disk.entries.within (.insert location.name entry) location.dropLast
      ordered := disk.ordered.within (fun _ hinside => hinside.insert ..) _
      at?_outer := by
        rw [at?_within_insert_name entry _ h, if_neg, at?_of_isFixed (.inr rfl)]
        exact fun heq => not_isFixed_of_mayPut h (.inr heq.symm) }
  else disk

/-- An entry that may be put is there, and no other entry changes. -/
theorem at?_put {disk : Disk} {location : Location} (entry : Entry) (other : Location)
    (h : disk.mayPut location) :
    (disk.put location entry).at? other =
      if other = location then some entry else disk.at? other := by
  rw [put, dif_pos h]
  exact at?_within_insert_name entry other h

/-! ## Erasing -/

/-- Dropping a name from its directory takes away what is at or below its location, as `at?_erase`
needs it. -/
theorem at?_within_filter_name (disk : Disk) {location : Location} (other : Location)
    (h : ¬location.isFixed) :
    (disk.entries.within (.filter (· != location.name)) location.dropLast).at? other =
      if location <+: other then none else disk.at? other := by
  rw [Forest.at?_within_filter_ne, location.dropLast_append_name fun hne => h (.inl hne)]
  rfl

/-- The disk without an entry and all that it contains; what is always there stays. -/
def erase (disk : Disk) (location : Location) : Disk :=
  if h : location.isFixed then disk
  else
    { entries := disk.entries.within (.filter (· != location.name)) location.dropLast
      ordered := disk.ordered.within (fun _ hinside => hinside.filter _) _
      at?_outer := by
        rw [at?_within_filter_name disk _ h, if_neg, at?_of_isFixed (.inr rfl)]
        intro hstart
        cases location with
        | nil => exact h (.inl rfl)
        | cons name names =>
          obtain ⟨rfl, hnames⟩ := List.cons_prefix_cons.mp hstart
          exact h (.inr (by rw [List.prefix_nil.mp hnames]; rfl)) }

/-- Erasing takes away an entry with what it contains, and no other entry. -/
theorem at?_erase (disk : Disk) {location : Location} (other : Location) (h : ¬location.isFixed) :
    (disk.erase location).at? other = if location <+: other then none else disk.at? other := by
  rw [erase, dif_neg h]
  exact at?_within_filter_name disk other h

/-- Dropping all names from a directory but the outer one takes away what is below it, as
`at?_clear` needs it. -/
theorem at?_within_filter_outer (disk : Disk) (directory other : Location) :
    (disk.entries.within (.filter (· == outerName)) directory).at? other =
      if (directory.below? other).isSome then none else disk.at? other := by
  rw [Forest.at?_within_filter, Location.below?]
  rcases Text.dropStart? directory other with _ | ⟨_ | ⟨name, names⟩⟩
  · rfl
  · rfl
  · by_cases heq : name = outerName <;> simp [heq, at?]

/-- The disk without what a directory contains. -/
def clear (disk : Disk) (directory : Location) : Disk where
  entries := disk.entries.within (.filter (· == outerName)) directory
  ordered := disk.ordered.within (fun _ hinside => hinside.filter _) _
  at?_outer := by
    rw [at?_within_filter_outer, at?_of_isFixed (.inr rfl), if_neg]
    cases directory with
    | nil => simp [Location.below?, Location.outer, Text.dropStart?]
    | cons name names =>
      by_cases heq : name = outerName
      · cases names <;> simp [Location.below?, Location.outer, Text.dropStart?, heq]
      · simp [Location.below?, Location.outer, Text.dropStart?, heq]

/-- Clearing takes away what is below a directory, and no other entry. -/
theorem at?_clear (disk : Disk) (directory other : Location) :
    (disk.clear directory).at? other =
      if (directory.below? other).isSome then none else disk.at? other :=
  at?_within_filter_outer ..

/-! ## Listing -/

/-- The names and entries in a directory, by increasing name. -/
def children (disk : Disk) (location : Location) : List (String × Entry) :=
  match disk.entries.inside? location with
  | none => []
  | some inside => inside.entries.filter (·.1 != outerName)

/-- The entries below a directory, each with the names that lead there. -/
def below (disk : Disk) (directory : Location) : List (Location × Entry) :=
  match disk.entries.inside? directory with
  | none => []
  | some inside => inside.descendants.filter (·.1.head? != some outerName)

/-- The children of a directory are the entries one name below it. -/
theorem mem_children_iff {disk : Disk} {location : Location} {name : String} {entry : Entry} :
    (name, entry) ∈ disk.children location ↔
      disk.at? (location ++ [name]) = some entry ∧ name ≠ outerName := by
  rw [children, at?, Forest.at?_append]
  split
  · rename_i hinside
    simp [hinside]
  · rename_i inside hinside
    rw [List.mem_filter, Forest.mem_entries_iff (disk.ordered.inside? hinside), hinside]
    simp

/-- What is listed below a directory is what stands there. -/
theorem mem_below_iff {disk : Disk} {directory names : Location} {entry : Entry} :
    (names, entry) ∈ disk.below directory ↔
      disk.at? (directory ++ names) = some entry ∧
        directory.below? (directory ++ names) = some names := by
  have hdrop : Text.dropStart? directory (directory ++ names) = some names :=
    Text.dropStart?_eq_some_iff.mpr rfl
  rw [below, Location.below?, hdrop, at?]
  cases names with
  | nil =>
    split
    · simp
    · rename_i inside hinside
      simp [Forest.mem_descendants_iff (disk.ordered.inside? hinside)]
  | cons name names =>
    rw [Forest.at?_append]
    split
    · rename_i hinside
      simp [hinside]
    · rename_i inside hinside
      rw [List.mem_filter, Forest.mem_descendants_iff (disk.ordered.inside? hinside), hinside]
      by_cases heq : name = outerName <;> simp [heq]

end Disk

end ScriptMailbox
