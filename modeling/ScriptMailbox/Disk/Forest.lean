import ScriptMailbox.Path
import ScriptMailbox.Text.Start
import ScriptMailbox.Text.Utf8

/-!
# Forests

A forest is what a directory contains: its entries by increasing name, each with what it contains
in turn. An entry is known by its location, the names that lead to it. Changing what one directory
contains changes nothing elsewhere (`at?_within`), and ordered forests with the same entries at the
same locations are the same forest (`ext_at?`).
-/

namespace ScriptMailbox

/-- The names that lead from a directory to an entry below it. -/
abbrev Location := List String

/-- What stands at a location. -/
inductive Entry
  | file (content : Bytes)
  | directory
  /-- A symbolic link. -/
  | link (target : Path)
  deriving DecidableEq, Repr

/-- What a directory contains. -/
inductive Forest
  | nil
  /-- An entry with what it contains, before the entries with greater names. -/
  | cons (name : String) (entry : Entry) (inside rest : Forest)
  deriving DecidableEq, Repr

namespace Forest

/-- The entry with a name, and what it contains. -/
def find? (name : String) : Forest → Option (Entry × Forest)
  | nil => none
  | cons other entry inside rest => if other = name then some (entry, inside) else rest.find? name

/-- The entry at a location. Nothing but a directory contains anything. -/
def at? (forest : Forest) : Location → Option Entry
  | [] => some .directory
  | name :: names =>
    match forest.find? name with
    | some (.directory, inside) => inside.at? names
    | some (entry, _) => if names = [] then some entry else none
    | none => none

/-- What the directory at a location contains. -/
def inside? (forest : Forest) : Location → Option Forest
  | [] => some forest
  | name :: names =>
    match forest.find? name with
    | some (.directory, inside) => inside.inside? names
    | _ => none

/-- The names and entries of a forest, without what these contain. -/
def entries : Forest → List (String × Entry)
  | nil => []
  | cons name entry _ rest => (name, entry) :: rest.entries

/-- All entries of a forest and what these contain, each with its location. -/
def descendants : Forest → List (Location × Entry)
  | nil => []
  | cons name entry inside rest =>
    ([name], entry) :: inside.descendants.map (fun (names, entry) => (name :: names, entry)) ++
      rest.descendants

/-- Gives a name an entry that contains nothing. -/
def insert (name : String) (entry : Entry) : Forest → Forest
  | nil => cons name entry nil nil
  | cons other old inside rest =>
    match compare name other with
    | .lt => cons name entry nil (cons other old inside rest)
    | .eq => cons name entry nil rest
    | .gt => cons other old inside (rest.insert name entry)

/-- Keeps the entries whose name passes a test, with what they contain. -/
def filter (keep : String → Bool) : Forest → Forest
  | nil => nil
  | cons name entry inside rest =>
    if keep name then cons name entry inside (rest.filter keep) else rest.filter keep

/-- Changes what the directory at a location contains. -/
def within (change : Forest → Forest) : Location → Forest → Forest
  | [], forest => change forest
  | _ :: _, nil => nil
  | name :: names, cons other entry inside rest =>
    if other = name then
      cons other entry (if entry = .directory then inside.within change names else inside) rest
    else cons other entry inside (rest.within change (name :: names))

/-! ## Names -/

/-- The first tree is found by its name. -/
theorem find?_cons_self (name : String) (entry : Entry) (inside rest : Forest) :
    (cons name entry inside rest).find? name = some (entry, inside) := by
  simp [find?]

/-- An inserted entry is found by its name, with nothing inside; the others are found as before. -/
theorem find?_insert (name other : String) (entry : Entry) (forest : Forest) :
    (forest.insert name entry).find? other =
      if other = name then some (entry, nil) else forest.find? other := by
  induction forest with
  | nil => by_cases h : name = other <;> simp [insert, find?, h, eq_comm]
  | cons first old inside rest _ ih =>
    unfold insert
    split
    · by_cases h : name = other <;> simp [find?, h, eq_comm]
    · rename_i heq
      obtain rfl := Std.LawfulEqCmp.eq_of_compare heq
      by_cases h : name = other <;> simp [find?, h, eq_comm]
    · rename_i hgt
      have hne : first ≠ name := by
        rintro rfl
        simp at hgt
      by_cases h : first = other
      · simp [find?, h, h ▸ hne]
      · simp [find?, h, ih]

/-- Filtering keeps the trees whose names pass. -/
theorem find?_filter (keep : String → Bool) (name : String) (forest : Forest) :
    (forest.filter keep).find? name = if keep name then forest.find? name else none := by
  induction forest with
  | nil => simp [filter, find?]
  | cons first entry inside rest _ ih =>
    by_cases h : first = name
    · subst h
      cases hkeep : keep first
      · simp [filter, hkeep, ih]
      · simp [filter, hkeep, find?]
    · cases hkeep : keep first <;> simp [filter, hkeep, find?, h, ih]

/-- A change below a name changes what is inside that directory, and nothing beside it. -/
theorem find?_within (change : Forest → Forest) (name other : String) (names : Location)
    (forest : Forest) :
    (forest.within change (name :: names)).find? other =
      if other = name then
        (forest.find? name).map fun (entry, inside) =>
          (entry, if entry = .directory then inside.within change names else inside)
      else forest.find? other := by
  induction forest with
  | nil => simp [within, find?]
  | cons first entry inside rest _ ih =>
    by_cases h : first = name
    · subst h
      by_cases ho : first = other
      · subst ho
        simp [within, find?]
      · simp [within, find?, ho, Ne.symm ho]
    · by_cases ho : first = other
      · subst ho
        simp [within, find?, h]
      · simp [within, find?, h, ih, ho]

/-- A name is missing, or stands for a directory, or for something else. -/
theorem find?_cases (forest : Forest) (name : String) :
    forest.find? name = none ∨ (∃ inside, forest.find? name = some (.directory, inside)) ∨
      ∃ entry inside, forest.find? name = some (entry, inside) ∧ entry ≠ .directory := by
  rcases h : forest.find? name with _ | ⟨entry, inside⟩
  · exact .inl rfl
  · by_cases hentry : entry = .directory
    · exact .inr (.inl ⟨inside, by rw [hentry]⟩)
    · exact .inr (.inr ⟨entry, inside, rfl, hentry⟩)

/-! ## Locations -/

/-- Below a directory, look-ups go on in what it contains. -/
theorem at?_cons_of_directory {forest inside : Forest} {name : String}
    (h : forest.find? name = some (.directory, inside)) (names : Location) :
    forest.at? (name :: names) = inside.at? names := by
  simp only [at?, h]

/-- An entry that is no directory contains nothing. -/
theorem at?_cons_of_ne_directory {forest inside : Forest} {name : String} {entry : Entry}
    (h : forest.find? name = some (entry, inside)) (hne : entry ≠ .directory) (names : Location) :
    forest.at? (name :: names) = if names = [] then some entry else none := by
  cases entry with
  | directory => exact absurd rfl hne
  | file => simp only [at?, h]
  | link => simp only [at?, h]

/-- Nothing is below a name that is not there. -/
theorem at?_cons_of_eq_none {forest : Forest} {name : String} (h : forest.find? name = none)
    (names : Location) : forest.at? (name :: names) = none := by
  simp only [at?, h]

/-- Look-ups that start with a name depend on what that name stands for only. -/
theorem at?_congr {a b : Forest} {name : String} (h : a.find? name = b.find? name)
    (names : Location) : a.at? (name :: names) = b.at? (name :: names) := by
  simp only [at?, h]

/-- The entry with a name is the one at the location of that name alone. -/
theorem at?_singleton (forest : Forest) (name : String) :
    forest.at? [name] = (forest.find? name).map (·.1) := by
  rcases forest.find?_cases name with h | ⟨inside, h⟩ | ⟨entry, inside, h, hne⟩
  · rw [at?_cons_of_eq_none h, h]
    rfl
  · rw [at?_cons_of_directory h, h]
    rfl
  · rw [at?_cons_of_ne_directory h hne, h]
    rfl

/-- What is inside a place below a directory is looked for in the directory. -/
theorem inside?_cons_of_directory {forest inside : Forest} {name : String}
    (h : forest.find? name = some (.directory, inside)) (names : Location) :
    forest.inside? (name :: names) = inside.inside? names := by
  simp only [inside?, h]

/-- Nothing is inside a place below what is no directory. -/
theorem inside?_cons_of_ne_directory {forest : Forest} {name : String}
    (h : ∀ inside, forest.find? name ≠ some (.directory, inside)) (names : Location) :
    forest.inside? (name :: names) = none := by
  unfold inside?
  split
  · rename_i hfind
    exact absurd hfind (h _)
  · rfl

/-- What stands below a directory stands in what that contains. -/
theorem at?_append (forest : Forest) (location : Location) (name : String) (names : Location) :
    forest.at? (location ++ name :: names) =
      (forest.inside? location).bind (·.at? (name :: names)) := by
  induction location generalizing forest with
  | nil => rfl
  | cons first location ih =>
    rw [List.cons_append]
    rcases forest.find?_cases first with h | ⟨inside, h⟩ | ⟨entry, inside, h, hne⟩
    · rw [at?_cons_of_eq_none h, inside?_cons_of_ne_directory (by simp [h]), Option.bind_none]
    · rw [at?_cons_of_directory h, inside?_cons_of_directory h, ih]
    · rw [at?_cons_of_ne_directory h hne, inside?_cons_of_ne_directory (by simp [h, hne])]
      simp

/-- A directory contains a forest, and nothing else does. -/
theorem isSome_inside?_iff {forest : Forest} {location : Location} :
    (forest.inside? location).isSome ↔ forest.at? location = some .directory := by
  induction location generalizing forest with
  | nil => simp [inside?, at?]
  | cons name names ih =>
    rcases forest.find?_cases name with h | ⟨inside, h⟩ | ⟨entry, inside, h, hne⟩
    · rw [at?_cons_of_eq_none h, inside?_cons_of_ne_directory (by simp [h])]
      simp
    · rw [at?_cons_of_directory h, inside?_cons_of_directory h, ih]
    · rw [at?_cons_of_ne_directory h hne, inside?_cons_of_ne_directory (by simp [h, hne])]
      simp [hne]

/-- Below an entry there is something only if the entry is a directory. -/
theorem at?_eq_directory_of_append {forest : Forest} {location names : Location} {entry : Entry}
    (hne : names ≠ []) (h : forest.at? (location ++ names) = some entry) :
    forest.at? location = some .directory := by
  obtain ⟨name, rest, rfl⟩ := List.exists_cons_of_ne_nil hne
  rw [at?_append, Option.bind_eq_some_iff] at h
  obtain ⟨inside, hinside, -⟩ := h
  exact isSome_inside?_iff.mp (by rw [hinside]; rfl)

/-- An inserted entry is at its name, and no other entry changes, if none is lost. -/
theorem at?_insert {forest : Forest} {name : String} (entry : Entry) (location : Location)
    (h : forest.at? [name] ≠ some .directory) :
    (forest.insert name entry).at? location =
      if location = [name] then some entry else forest.at? location := by
  cases location with
  | nil => simp [at?]
  | cons first names =>
    have hfind := forest.find?_insert name first entry
    by_cases hname : first = name
    · subst hname
      rw [if_pos rfl] at hfind
      cases names with
      | nil => rw [at?_singleton, hfind, if_pos rfl, Option.map_some]
      | cons second names =>
        have hold : forest.at? (first :: second :: names) = none := by
          rw [Option.eq_none_iff_forall_ne_some]
          intro value hvalue
          have hne : second :: names ≠ [] := by simp
          exact h (at?_eq_directory_of_append hne hvalue)
        rw [hold, if_neg (by simp)]
        by_cases hdir : entry = .directory
        · subst hdir
          rw [at?_cons_of_directory hfind]
          rfl
        · rw [at?_cons_of_ne_directory hfind hdir, if_neg (by simp)]
    · rw [if_neg hname] at hfind
      rw [at?_congr hfind, if_neg (by simp [hname])]

/-- A kept name keeps what is below it, and the others are gone. -/
theorem at?_filter (keep : String → Bool) (forest : Forest) (name : String) (names : Location) :
    (forest.filter keep).at? (name :: names) =
      if keep name then forest.at? (name :: names) else none := by
  have hfind := forest.find?_filter keep name
  cases hkeep : keep name
  · rw [hkeep] at hfind
    rw [at?_cons_of_eq_none hfind]
    rfl
  · rw [hkeep] at hfind
    rw [at?_congr hfind]
    rfl

/-- A change of what a directory contains shows below that directory only. -/
theorem at?_within (change : Forest → Forest) (forest : Forest) (location other : Location) :
    (forest.within change location).at? other =
      match Text.dropStart? location other with
      | some (name :: names) =>
        (forest.inside? location).bind fun inside => (change inside).at? (name :: names)
      | _ => forest.at? other := by
  induction location generalizing forest other with
  | nil =>
    cases other with
    | nil => rfl
    | cons name names =>
      have : forest.within change [] = change forest := by cases forest <;> rfl
      rw [this]
      rfl
  | cons first location ih =>
    cases other with
    | nil => rfl
    | cons name names =>
      -- only the first name on the way can be affected at this level
      have hfind := forest.find?_within change first name location
      by_cases hname : first = name
      · subst hname
        have hdrop : Text.dropStart? (first :: location) (first :: names) =
            Text.dropStart? location names := by
          rw [Text.dropStart?, if_pos rfl]
        rw [if_pos rfl] at hfind
        rw [hdrop]
        -- nothing there, a directory to go on in, or an entry that contains nothing
        rcases forest.find?_cases first with h | ⟨inside, h⟩ | ⟨entry, inside, h, hne⟩
        · rw [h, Option.map_none] at hfind
          rw [at?_cons_of_eq_none hfind, at?_cons_of_eq_none h,
            inside?_cons_of_ne_directory (by simp [h])]
          split <;> rfl
        · rw [h, Option.map_some] at hfind
          simp only [if_true] at hfind
          rw [at?_cons_of_directory hfind, at?_cons_of_directory h, inside?_cons_of_directory h, ih]
        · rw [h, Option.map_some] at hfind
          simp only [if_neg hne] at hfind
          rw [at?_cons_of_ne_directory hfind hne, at?_cons_of_ne_directory h hne,
            inside?_cons_of_ne_directory (by simp [h, hne])]
          rcases hrest : Text.dropStart? location names with _ | ⟨_ | _⟩
          · rfl
          · rfl
          · rw [Text.dropStart?_eq_some_iff] at hrest
            simp [hrest]
      · rw [if_neg (Ne.symm hname)] at hfind
        rw [Text.dropStart?, if_neg hname]
        exact at?_congr hfind names

/-- Inserting into a directory puts one entry there and changes no other, if none is lost. -/
theorem at?_within_insert {forest : Forest} {directory : Location} {name : String} (entry : Entry)
    (other : Location) (hdirectory : forest.at? directory = some .directory)
    (h : forest.at? (directory ++ [name]) ≠ some .directory) :
    (forest.within (insert name entry) directory).at? other =
      if other = directory ++ [name] then some entry else forest.at? other := by
  obtain ⟨inside, hinside⟩ := Option.isSome_iff_exists.mp (isSome_inside?_iff.mpr hdirectory)
  rw [at?_append, hinside, Option.bind_some] at h
  rw [at?_within]
  split
  · rename_i first names hdrop
    rw [Text.dropStart?_eq_some_iff] at hdrop
    subst hdrop
    rw [hinside, Option.bind_some, at?_insert entry _ h, at?_append, hinside, Option.bind_some]
    simp only [List.append_cancel_left_eq]
  · rename_i hdrop
    rw [if_neg]
    rintro rfl
    exact hdrop name [] (Text.dropStart?_eq_some_iff.mpr rfl)

/-- Filtering a directory takes away what is below the names that fail, and nothing else. -/
theorem at?_within_filter (keep : String → Bool) (forest : Forest) (directory other : Location) :
    (forest.within (filter keep) directory).at? other =
      match Text.dropStart? directory other with
      | some (name :: _) => if keep name then forest.at? other else none
      | _ => forest.at? other := by
  rw [at?_within]
  rcases hdrop : Text.dropStart? directory other with _ | ⟨_ | ⟨name, names⟩⟩
  · rfl
  · rfl
  · rw [Text.dropStart?_eq_some_iff] at hdrop
    subst hdrop
    simp only [at?_append, at?_filter]
    cases forest.inside? directory <;> cases keep name <;> rfl

/-- Without one of its entries, a directory lacks what lies at that entry or below it. -/
theorem at?_within_filter_ne (forest : Forest) (directory : Location) (name : String)
    (other : Location) :
    (forest.within (filter (· != name)) directory).at? other =
      if directory ++ [name] <+: other then none else forest.at? other := by
  rw [at?_within_filter]
  split
  · rename_i first names hdrop
    rw [Text.dropStart?_eq_some_iff] at hdrop
    subst hdrop
    have hiff : directory ++ [name] <+: directory ++ first :: names ↔ first = name := by
      simp [List.prefix_append_right_inj, List.cons_prefix_cons, eq_comm]
    by_cases heq : first = name <;> simp [hiff, heq]
  · rename_i hdrop
    rw [if_neg]
    rintro ⟨rest, rfl⟩
    exact hdrop name rest (Text.dropStart?_eq_some_iff.mpr (by simp))

/-! ## Order -/

/-- Whether names increase and nothing but directories contains anything. -/
def Ordered : Forest → Prop
  | nil => True
  | cons name entry inside rest =>
    (∀ other, (rest.find? other).isSome → compare name other = .lt) ∧
      (entry ≠ .directory → inside = nil) ∧ inside.Ordered ∧ rest.Ordered

/-- A name stands for one entry only. -/
theorem Ordered.find?_rest {name : String} {entry : Entry} {inside rest : Forest}
    (h : (cons name entry inside rest).Ordered) : rest.find? name = none := by
  rcases hfind : rest.find? name with _ | _
  · rfl
  · have := h.1 name (by rw [hfind]; rfl)
    simp at this

/-- What is inside a tree of an ordered forest is ordered. -/
theorem Ordered.find? {forest inside : Forest} {name : String} {entry : Entry}
    (h : forest.Ordered) (hfind : forest.find? name = some (entry, inside)) : inside.Ordered := by
  induction forest with
  | nil => simp [Forest.find?] at hfind
  | cons first old contents rest _ ih =>
    unfold Forest.find? at hfind
    split at hfind
    · obtain ⟨rfl, rfl⟩ := by simpa using hfind
      exact h.2.2.1
    · exact ih h.2.2.2 hfind

/-- So is what is inside any place of it. -/
theorem Ordered.inside? {forest inside : Forest} {location : Location} (h : forest.Ordered)
    (hinside : forest.inside? location = some inside) : inside.Ordered := by
  induction location generalizing forest with
  | nil =>
    cases hinside
    exact h
  | cons name names ih =>
    rcases hfind : forest.find? name with _ | ⟨_ | _ | _, contents⟩ <;>
      simp only [Forest.inside?, hfind, reduceCtorEq] at hinside
    exact ih (h.find? hfind) hinside

/-- Inserting an entry keeps a forest ordered. -/
theorem Ordered.insert {forest : Forest} (h : forest.Ordered) (name : String) (entry : Entry) :
    (forest.insert name entry).Ordered := by
  induction forest with
  | nil => exact ⟨fun _ h => by simp [Forest.find?] at h, fun _ => rfl, trivial, trivial⟩
  | cons first old inside rest _ ih =>
    unfold Forest.insert
    split
    · rename_i hlt
      refine ⟨fun other ho => ?_, fun _ => rfl, trivial, h⟩
      by_cases hfirst : first = other
      · exact hfirst ▸ hlt
      · rw [Forest.find?, if_neg hfirst] at ho
        exact Std.TransCmp.lt_trans hlt (h.1 other ho)
    · rename_i heq
      obtain rfl := Std.LawfulEqCmp.eq_of_compare heq
      exact ⟨h.1, fun _ => rfl, trivial, h.2.2.2⟩
    · rename_i hgt
      refine ⟨fun other ho => ?_, h.2.1, h.2.2.1, ih h.2.2.2⟩
      rw [find?_insert] at ho
      by_cases hname : other = name
      · exact hname ▸ Std.OrientedCmp.lt_of_gt hgt
      · rw [if_neg hname] at ho
        exact h.1 other ho

/-- Dropping entries keeps a forest ordered. -/
theorem Ordered.filter {forest : Forest} (h : forest.Ordered) (keep : String → Bool) :
    (forest.filter keep).Ordered := by
  induction forest with
  | nil => trivial
  | cons first entry inside rest _ ih =>
    unfold Forest.filter
    split
    · refine ⟨fun other ho => h.1 other ?_, h.2.1, h.2.2.1, ih h.2.2.2⟩
      rw [find?_filter] at ho
      split at ho
      · exact ho
      · simp at ho
    · exact ih h.2.2.2

/-- A change that keeps forests ordered does so at any place. -/
theorem Ordered.within {change : Forest → Forest}
    (hchange : ∀ inside, Ordered inside → (change inside).Ordered) {forest : Forest}
    (h : forest.Ordered) (location : Location) : (forest.within change location).Ordered := by
  induction forest generalizing location with
  | nil =>
    cases location with
    | nil => exact hchange nil h
    | cons => trivial
  | cons first entry inside rest ihinside ihrest =>
    cases location with
    | nil => exact hchange _ h
    | cons name names =>
      unfold Forest.within
      split
      · refine ⟨h.1, fun hne => ?_, ?_, h.2.2.2⟩
        · rw [if_neg hne]
          exact h.2.1 hne
        · split
          · exact ihinside h.2.2.1 names
          · exact h.2.2.1
      · refine ⟨fun other ho => h.1 other ?_, h.2.1, h.2.2.1, ihrest h.2.2.2 (name :: names)⟩
        rw [find?_within] at ho
        split at ho
        · rename_i heq
          simpa [heq] using ho
        · exact ho

/-- Ordered forests with the same entries at the same locations are the same. -/
theorem ext_at? {a b : Forest} (ha : a.Ordered) (hb : b.Ordered)
    (h : ∀ location, a.at? location = b.at? location) : a = b := by
  induction a generalizing b with
  | nil =>
    cases b with
    | nil => rfl
    | cons name entry inside rest =>
      have := h [name]
      simp [at?_singleton, find?] at this
  | cons name entry inside rest ihinside ihrest =>
    cases b with
    | nil =>
      have := h [name]
      simp [at?_singleton, find?] at this
    | cons other entry' inside' rest' =>
      -- if the first names differed, each would have to come before the other
      have hname : name = other := by
        have hleft := h [name]
        have hright := h [other]
        simp only [at?_singleton, find?, if_true] at hleft hright
        by_cases heq : name = other
        · exact heq
        · rw [if_neg (Ne.symm heq)] at hleft
          rw [if_neg heq] at hright
          have h₁ := hb.1 name (by
            rcases hf : rest'.find? name with _ | _
            · simp [hf] at hleft
            · rfl)
          have h₂ := ha.1 other (by
            rcases hf : rest.find? other with _ | _
            · simp [hf] at hright
            · rfl)
          have := Std.TransCmp.lt_trans h₁ h₂
          simp at this
      subst hname
      have hentry : entry = entry' := by
        have := h [name]
        simpa [at?_singleton, find?] using this
      subst hentry
      -- only a directory has something inside, and there the induction goes one level down
      have hinside : inside = inside' := by
        by_cases hdir : entry = .directory
        · subst hdir
          refine ihinside ha.2.2.1 hb.2.2.1 fun location => ?_
          have := h (name :: location)
          rwa [at?_cons_of_directory (find?_cons_self ..),
            at?_cons_of_directory (find?_cons_self ..)] at this
        · rw [ha.2.1 hdir, hb.2.1 hdir]
      subst hinside
      have hrest : rest = rest' := by
        refine ihrest ha.2.2.2 hb.2.2.2 fun location => ?_
        cases location with
        | nil => rfl
        | cons first names =>
          by_cases hfirst : name = first
          · subst hfirst
            rw [at?_cons_of_eq_none ha.find?_rest, at?_cons_of_eq_none hb.find?_rest]
          · have := h (first :: names)
            simpa only [at?, find?, if_neg hfirst] using this
      rw [hrest]

/-- The entries of a forest are those at the locations of one name. -/
theorem mem_entries_iff {forest : Forest} (h : forest.Ordered) {name : String} {entry : Entry} :
    (name, entry) ∈ forest.entries ↔ forest.at? [name] = some entry := by
  rw [at?_singleton]
  induction forest with
  | nil => simp [entries, find?]
  | cons first old inside rest _ ih =>
    rw [entries, List.mem_cons, ih h.2.2.2, find?]
    by_cases hname : first = name
    · subst hname
      simp [h.find?_rest, eq_comm]
    · simp [hname, Ne.symm hname]

/-- The entries of a forest come by increasing name. -/
theorem pairwise_entries {forest : Forest} (h : forest.Ordered) :
    forest.entries.Pairwise fun first second => compare first.1 second.1 = .lt := by
  induction forest with
  | nil => exact .nil
  | cons name entry inside rest _ ih =>
    rw [entries, List.pairwise_cons]
    refine ⟨fun other hmem => h.1 other.1 ?_, ih h.2.2.2⟩
    have hfound := (mem_entries_iff h.2.2.2).mp hmem
    rw [at?_singleton] at hfound
    rw [← Option.isSome_map, hfound, Option.isSome_some]

/-- The entries below a directory are those at locations of at least one name. -/
theorem mem_descendants_iff {forest : Forest} (h : forest.Ordered) {location : Location}
    {entry : Entry} :
    (location, entry) ∈ forest.descendants ↔ location ≠ [] ∧ forest.at? location = some entry := by
  induction forest generalizing location with
  | nil =>
    cases location with
    | nil => simp [descendants]
    | cons => simp [descendants, at?, find?]
  | cons first old inside rest ihinside ihrest =>
    rw [descendants, List.mem_append, List.mem_cons, ihrest h.2.2.2]
    cases location with
    | nil => simp
    | cons name names =>
      by_cases hname : first = name
      · subst hname
        rw [at?_cons_of_eq_none h.find?_rest]
        have hfind := find?_cons_self first old inside rest
        by_cases hdir : old = .directory
        · subst hdir
          rw [at?_cons_of_directory hfind]
          simp only [List.mem_map, Prod.mk.injEq, List.cons.injEq, true_and, Prod.exists]
          cases names with
          | nil => simp [ihinside h.2.2.1, at?, eq_comm]
          | cons => simp [ihinside h.2.2.1]
        · rw [at?_cons_of_ne_directory hfind hdir, h.2.1 hdir]
          by_cases hnames : names = [] <;> simp [descendants, hnames, eq_comm]
      · have hfind :
            (cons first old inside rest).at? (name :: names) = rest.at? (name :: names) := by
          simp [at?, find?, hname]
        rw [hfind]
        simp [hname, Ne.symm hname]

end Forest

end ScriptMailbox
