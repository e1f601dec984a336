import ScriptMailbox.Proofs.Disk.Changes
import ScriptMailbox.Proofs.Source.Keys

/-!
# Paths below a directory

The path of what stands below a directory is that of the directory, joined with one name after the
other. It has their components, it is refused only if it is too long (`fault?_joinAll`), and it
leads to the entry that these names lead to (`leads_joinAll`, `read_joinAll`).
-/

namespace ScriptMailbox

/-- A name that an entry of a directory can have. -/
structure IsFileName (name : String) : Prop extends IsEntryName name where
  nul_not_mem : '\x00' ∉ name.toList
  short : name.utf8ByteSize ≤ Disk.nameLimit

instance (name : String) : Decidable (IsFileName name) :=
  decidable_of_iff (name ≠ "" ∧ name ≠ "." ∧ name ≠ ".." ∧ '/' ∉ name.toList ∧
      '\x00' ∉ name.toList ∧ name.utf8ByteSize ≤ Disk.nameLimit)
    ⟨fun ⟨hempty, hcurrent, hparent, hslash, hnul, hshort⟩ =>
      ⟨⟨⟨hempty, hcurrent, hparent⟩, hslash⟩, hnul, hshort⟩,
    fun h => ⟨h.ne_empty, h.ne_current, h.ne_parent, h.slash_not_mem, h.nul_not_mem, h.short⟩⟩

namespace Path

variable {path : Path} {name : String} {names other : List String}

/-! ## Faults -/

/-- A path that can only be refused because it is too long. -/
structure IsWhole (path : Path) : Prop where
  ne_empty : path.text ≠ ""
  nul_not_mem : '\x00' ∉ path.text.toList

/-- A whole path can have no fault but to be too long. -/
theorem IsWhole.fault? (h : path.IsWhole) :
    path.fault? = if byteLimit < path.text.utf8ByteSize then some .nameTooLong else none := by
  rw [Path.fault?, if_neg h.ne_empty, if_neg (by simpa using h.nul_not_mem)]

/-- A path without a fault is whole. -/
theorem isWhole_of_fault? (h : path.fault? = none) : path.IsWhole := by
  rw [Path.fault?] at h
  split_ifs at h with hempty hnul
  exact ⟨hempty, by simpa using hnul⟩

/-- A path is not empty behind a name. -/
theorem join_ne_empty (hname : IsEntryName name) (hpath : path.text ≠ "") :
    (path.join name).text ≠ "" := by
  rcases toList_join path hname with ⟨hempty, -⟩ | ⟨lead, -, -, htext⟩
  · exact absurd hempty hpath
  · intro heq
    rw [heq] at htext
    simp at htext

/-- A whole path stays whole when a name follows it. -/
theorem IsWhole.join (h : path.IsWhole) (hname : IsEntryName name) (hnul : '\x00' ∉ name.toList) :
    (path.join name).IsWhole := by
  refine ⟨join_ne_empty hname h.ne_empty, ?_⟩
  rcases toList_join path hname with ⟨hempty, -⟩ | ⟨lead, hlead, -, htext⟩
  · exact absurd hempty h.ne_empty
  · have hbefore : '\x00' ∉ lead := fun hmem =>
      h.nul_not_mem (by rcases hlead with heq | heq <;> simp [heq, hmem])
    rw [htext, List.mem_append, List.mem_cons]
    rintro (hmem | heq | hmem)
    · exact hbefore hmem
    · exact absurd heq (by decide)
    · exact hnul hmem

/-- Below a path that is not refused, only a path that is too long is refused. -/
theorem fault?_join (hname : IsEntryName name) (hnul : '\x00' ∉ name.toList)
    (h : path.fault? = none) :
    (path.join name).fault? =
      if byteLimit < (path.join name).text.utf8ByteSize then some .nameTooLong else none :=
  ((isWhole_of_fault? h).join hname hnul).fault?

/-! ## Several names -/

/-- The path of what several names lead to below a path. -/
def joinAll (path : Path) (names : List String) : Path :=
  names.foldl join path

/-- No names lead on. -/
@[simp] theorem joinAll_nil (path : Path) : path.joinAll [] = path := rfl

/-- The first name comes first, and the others go on from there. -/
@[simp] theorem joinAll_cons (path : Path) (name : String) (names : List String) :
    path.joinAll (name :: names) = (path.join name).joinAll names := rfl

/-- The last name comes last. -/
theorem joinAll_concat (path : Path) (names : List String) (name : String) :
    path.joinAll (names ++ [name]) = (path.joinAll names).join name := by
  rw [joinAll, List.foldl_append]
  rfl

/-- A whole path stays whole when names follow it. -/
theorem IsWhole.joinAll (h : path.IsWhole) (hnames : ∀ name ∈ names, IsFileName name) :
    (path.joinAll names).IsWhole := by
  induction names generalizing path with
  | nil => exact h
  | cons name names ih =>
    obtain ⟨hname, hnames⟩ := List.forall_mem_cons.mp hnames
    exact ih (h.join hname.toIsEntryName hname.nul_not_mem) hnames

/-- Below a path that is not refused, only a path that is too long is refused. -/
theorem fault?_joinAll (hnames : ∀ name ∈ names, IsFileName name) (h : path.fault? = none) :
    (path.joinAll names).fault? =
      if byteLimit < (path.joinAll names).text.utf8ByteSize then some .nameTooLong else none :=
  ((isWhole_of_fault? h).joinAll hnames).fault?

/-- If the path of an entry is not refused, neither are the paths on the way to it. -/
theorem fault?_of_joinAll (hnames : ∀ name ∈ names, IsFileName name) (hpath : path.text ≠ "")
    (h : (path.joinAll names).fault? = none) : path.fault? = none := by
  induction names generalizing path with
  | nil => exact h
  | cons name names ih =>
    obtain ⟨hname, hnames⟩ := List.forall_mem_cons.mp hnames
    exact fault?_of_join hname.toIsEntryName hpath
      (ih hnames (join_ne_empty hname.toIsEntryName hpath) h)

/-! ## Components -/

/-- The name of an entry is its only component. -/
theorem filterMap_parts (hname : IsEntryName name) :
    (parts ⟨name⟩).filterMap Component.ofPart? = [.normal name] := by
  have hparts : parts ⟨name⟩ = [name.toList] := by
    refine List.splitOnP_eq_singleton fun c hc => ?_
    rw [beq_eq_false_iff_ne]
    rintro rfl
    exact hname.slash_not_mem hc
  have hpart : Component.ofPart? name.toList = some (.normal name) := by
    have hne (text : String) (h : name ≠ text) : name.toList ≠ text.toList :=
      mt String.toList_inj.mp h
    have hstays : ¬(name.toList = [] ∨ name.toList = ['.']) :=
      not_or.mpr ⟨hne "" hname.ne_empty, hne "." hname.ne_current⟩
    have hparent : name.toList ≠ ['.', '.'] := hne ".." hname.ne_parent
    rw [Component.ofPart?, if_neg hstays, if_neg hparent, String.ofList_toList]
  rw [hparts, List.filterMap_cons, hpart, List.filterMap_nil]

/-- The path of an entry has one more component. -/
theorem components_join (hname : IsEntryName name) (hpath : path.text ≠ "") :
    (path.join name).components = path.components ++ [.normal name] := by
  have hjoined (front : String) :
      components ⟨front ++ "/" ++ name⟩ = components ⟨front ++ "/"⟩ ++ [.normal name] := by
    rw [components_append, filterMap_parts hname]
  rw [join, not_isAbsolute_entry hname, if_neg Bool.false_ne_true]
  by_cases hend : path.endsWithSeparator = true
  · obtain ⟨lead, hlead⟩ := endsWithSeparator_iff.mp hend
    have htext : path.text = String.ofList lead ++ "/" := by
      rw [← String.toList_inj, hlead]
      simp
    obtain ⟨text⟩ := path
    subst htext
    rw [if_pos (.inr hend)]
    exact hjoined _
  · rw [if_neg (not_or_intro hpath hend), hjoined,
      (Shortens.lastSeparator path.text hpath).components_eq]

/-- Names that follow a path are its last components. -/
theorem components_joinAll (hnames : ∀ name ∈ names, IsFileName name) (hpath : path.IsWhole) :
    (path.joinAll names).components = path.components ++ names.map .normal := by
  induction names generalizing path with
  | nil => simp
  | cons name names ih =>
    obtain ⟨hname, hnames⟩ := List.forall_mem_cons.mp hnames
    rw [joinAll_cons, ih hnames (hpath.join hname.toIsEntryName hname.nul_not_mem),
      components_join hname.toIsEntryName hpath.ne_empty, List.append_assoc]
    rfl

/-- Different names lead to different paths. -/
theorem names_eq_of_components (hnames : ∀ name ∈ names, IsFileName name)
    (hother : ∀ name ∈ other, IsFileName name) (hpath : path.IsWhole)
    (h : (path.joinAll names).components = (path.joinAll other).components) : names = other := by
  rw [components_joinAll hnames hpath, components_joinAll hother hpath,
    List.append_cancel_left_eq] at h
  exact List.map_injective_iff.mpr (fun _ _ heq => Component.normal.inj heq) h

end Path

namespace Disk

variable {disk : Disk} {path : Path} {directory : Location} {name : String} {names : List String}
  {content : Bytes}

/-! ## Entries -/

/-- Whether every entry has a name that an entry can have. What lies above the working directory
has none. -/
def IsNamed (disk : Disk) : Prop :=
  ∀ directory name, (disk.at? (directory ++ [name])).isSome →
    directory ++ [name] ≠ Location.outer → IsFileName name

/-- Inside a directory of a named disk all names are names of files. -/
theorem IsNamed.isFileName (h : disk.IsNamed) (hentry : (disk.at? (directory ++ names)).isSome)
    (hinside : names.head? ≠ some outerName) : ∀ name ∈ names, IsFileName name := by
  intro name hmem
  obtain ⟨before, after, rfl⟩ := List.append_of_mem hmem
  refine h (directory ++ before) name ?_ fun houter => ?_
  · have hlocation : directory ++ (before ++ name :: after) =
        directory ++ before ++ [name] ++ after := by simp
    rw [hlocation] at hentry
    cases hafter : after with
    | nil => simpa [hafter] using hentry
    | cons next rest =>
      obtain ⟨entry, hat⟩ := Option.isSome_iff_exists.mp hentry
      have hne : after ≠ [] := by simp [hafter]
      rw [at?, Forest.at?_eq_directory_of_append hne hat]
      rfl
  · rw [Location.outer, List.append_eq_singleton_iff] at houter
    rcases houter with ⟨hbefore, hname⟩ | ⟨-, hname⟩
    · obtain ⟨-, rfl⟩ := List.append_eq_nil_iff.mp hbefore
      rw [List.singleton_inj.mp hname] at hinside
      exact hinside rfl
    · simp at hname

/-- What leads to a directory passes directories. -/
theorem at?_of_append (h : disk.at? (directory ++ names) = some .directory) :
    disk.at? directory = some .directory := by
  by_cases hnames : names = []
  · simpa [hnames] using h
  · exact Forest.at?_eq_directory_of_append hnames h

/-- The path of a directory below another one leads there. -/
theorem leads_joinAll (hleads : disk.Leads path directory)
    (hnames : ∀ name ∈ names, IsFileName name) (hpath : path.text ≠ "")
    (hfault : (path.joinAll names).fault? = none)
    (hentry : disk.at? (directory ++ names) = some .directory) :
    disk.Leads (path.joinAll names) (directory ++ names) := by
  induction names generalizing path directory with
  | nil => simpa using hleads
  | cons name names ih =>
    obtain ⟨hname, hnames⟩ := List.forall_mem_cons.mp hnames
    rw [List.append_cons] at hentry ⊢
    have hinside : disk.at? (directory ++ [name]) = some .directory := at?_of_append hentry
    have hne : (path.join name).text ≠ "" := Path.join_ne_empty hname.toIsEntryName hpath
    have hjoin : (path.join name).fault? = none := Path.fault?_of_joinAll hnames hne hfault
    have hresolve : disk.resolve .target (path.join name) = .ok (directory ++ [name]) := by
      rw [resolve_join hname.toIsEntryName (.inr fun other hother target hlink => ?_)]
      · exact ⟨⟨hjoin, hname.short⟩, directory, hleads, rfl, fun _ => by simp [hinside]⟩
      · obtain rfl := hother.unique hleads
        rw [hinside] at hlink
        cases hlink
    exact ih (resolve_directory_iff.mp ⟨hresolve, hinside⟩).2 hnames hne hfault hentry

/-- A file below a directory is read, unless its path is too long. -/
theorem read_joinAll (hleads : disk.Leads path directory)
    (hnames : ∀ name ∈ names, IsFileName name) (hpath : path.fault? = none) (hne : names ≠ [])
    (hfile : disk.at? (directory ++ names) = some (.file content)) :
    disk.read (path.joinAll names) =
      if Path.byteLimit < (path.joinAll names).text.utf8ByteSize then .error .nameTooLong
      else .ok content := by
  have hwhole := Path.isWhole_of_fault? hpath
  have hfault := Path.fault?_joinAll hnames hpath
  split_ifs with hlong
  · rw [if_pos hlong] at hfault
    rw [read, resolve, hfault]
  · rw [if_neg hlong] at hfault
    -- the directories above lead to the last name, which is no link
    obtain ⟨above, name, rfl⟩ := List.eq_nil_or_concat' names |>.resolve_left hne
    rw [List.forall_mem_append, List.forall_mem_singleton] at hnames
    obtain ⟨habove, hname⟩ := hnames
    rw [← List.append_assoc] at hfile
    rw [Path.joinAll_concat] at hfault ⊢
    have hinside : disk.at? (directory ++ above) = some .directory := by
      have := at?_dropLast hfile
      rwa [List.dropLast_concat] at this
    have hparent : (path.joinAll above).fault? = none :=
      Path.fault?_of_join hname.toIsEntryName (hwhole.joinAll habove).ne_empty hfault
    have habove := leads_joinAll hleads habove hwhole.ne_empty hparent hinside
    have hresolve : disk.resolve .target ((path.joinAll above).join name) =
        .ok (directory ++ above ++ [name]) := by
      rw [resolve_join hname.toIsEntryName (.inr fun other hother target hlink => ?_)]
      · exact ⟨⟨hfault, hname.short⟩, _, habove, rfl, fun _ => by rw [hfile]; rfl⟩
      · obtain rfl := hother.unique habove
        rw [hfile] at hlink
        cases hlink
    rw [read, hresolve]
    simp only [hfile]

end Disk

end ScriptMailbox
