import ScriptMailbox.Proofs.Source.Copies
import ScriptMailbox.Proofs.Source.Keys
import Mathlib.Data.Finset.Card
import Mathlib.Data.List.Dedup

/-!
# Trees into which files have been inserted

A tree is a map from components to sources, whatever has been inserted into it: each path stands in
it once, spelled as it was first inserted and with the source that was inserted last
(`ofFiles_isMap`). So the order in which different paths are inserted does not matter.
-/

namespace ScriptMailbox.SourceTree

variable {files other : List (Path × String)} {tree loaded : SourceTree} {path root : Path}
  {content : String} {components : List Component} {file : Path × String}

/-- The tree into which files have been inserted, first ones first. -/
def ofFiles (files : List (Path × String)) : SourceTree :=
  files.foldl (fun tree file => tree.insert file.1 file.2) empty

/-- The first file whose path has these components. -/
def firstUnder (files : List (Path × String)) (components : List Component) :
    Option (Path × String) :=
  files.find? (·.1.components = components)

/-- The last file whose path has these components. -/
def lastUnder (files : List (Path × String)) (components : List Component) :
    Option (Path × String) :=
  files.reverse.find? (·.1.components = components)

/-- Whether no two files have paths with the same components. -/
def AreDistinct (files : List (Path × String)) : Prop :=
  files.Pairwise fun a b => a.1.components ≠ b.1.components

instance (files : List (Path × String)) : Decidable (AreDistinct files) :=
  inferInstanceAs (Decidable (List.Pairwise _ _))

/-! ## What has been inserted -/

/-- One more file is inserted at the end. -/
theorem ofFiles_concat (files : List (Path × String)) (file : Path × String) :
    ofFiles (files ++ [file]) = (ofFiles files).insert file.1 file.2 := by
  rw [ofFiles, List.foldl_append]
  rfl

/-- It comes first under its path only if none has come before. -/
theorem firstUnder_concat (files : List (Path × String)) (file : Path × String)
    (components : List Component) :
    firstUnder (files ++ [file]) components =
      (firstUnder files components).or
        (if components = file.1.components then some file else none) := by
  rw [firstUnder, List.find?_append, firstUnder, List.find?_singleton]
  simp only [decide_eq_true_eq, @eq_comm _ components]

/-- What comes first under a path is a file of that path. -/
theorem of_firstUnder (h : firstUnder files components = some file) :
    file ∈ files ∧ file.1.components = components := by
  rw [firstUnder] at h
  have hcomponents := List.find?_some h
  exact ⟨List.mem_of_find?_eq_some h, of_decide_eq_true hcomponents⟩

/-- Every file has a first one under its path. -/
theorem exists_firstUnder (h : file ∈ files) :
    ∃ first, firstUnder files file.1.components = some first := by
  rw [← Option.isSome_iff_exists, firstUnder, List.find?_isSome]
  exact ⟨file, h, decide_eq_true rfl⟩

/-- One more file comes last under its path. -/
theorem lastUnder_concat (files : List (Path × String)) (file : Path × String)
    (components : List Component) :
    lastUnder (files ++ [file]) components =
      if components = file.1.components then some file else lastUnder files components := by
  rw [lastUnder, List.reverse_concat, List.find?_cons, lastUnder]
  split_ifs with heq
  · simp [heq]
  · simp [Ne.symm heq]

/-- The path under which a tree has a source is the first one that was inserted. -/
theorem key_ofFiles (files : List (Path × String)) (components : List Component) :
    ((ofFiles files).table.get? components).map (·.1) =
      (firstUnder files components).map (·.1) := by
  induction files using List.reverseRecOn with
  | nil => rfl
  | append_singleton files file ih =>
    rw [ofFiles_concat, get?_table_insert, firstUnder_concat]
    split_ifs with heq
    · subst heq
      rw [ih]
      cases firstUnder files file.1.components <;> rfl
    · rw [ih, Option.or_none]

/-- The source that it has is the last one. -/
theorem content_ofFiles (files : List (Path × String)) (components : List Component) :
    ((ofFiles files).table.get? components).map (·.2) =
      (lastUnder files components).map (·.2) := by
  induction files using List.reverseRecOn with
  | nil => rfl
  | append_singleton files file ih =>
    rw [ofFiles_concat, get?_table_insert, lastUnder_concat]
    split_ifs with heq
    · rfl
    · exact ih

/-- Every source stands under the components of its path. -/
theorem components_of_get? (h : (ofFiles files).table.get? components = some (path, content)) :
    path.components = components := by
  have hfirst := key_ofFiles files components
  rw [h, Option.map_some] at hfirst
  obtain ⟨file, hfile, hpath⟩ := Option.map_eq_some_iff.mp hfirst.symm
  rw [← show file.1 = path from hpath]
  exact (of_firstUnder hfile).2

/-- The files of such a tree are what it has under the components of their paths. -/
theorem mem_files_ofFiles_iff : (path, content) ∈ (ofFiles files).files ↔
    (ofFiles files).table.get? path.components = some (path, content) := by
  rw [mem_files_iff]
  constructor
  · rintro ⟨components, hget⟩
    rwa [components_of_get? hget]
  · intro hget
    exact ⟨path.components, hget⟩

/-- The files of a tree stand in the order of their components. -/
theorem pairwise_files (files : List (Path × String)) :
    (ofFiles files).files.Pairwise fun a b => compare a.1.components b.1.components = .lt := by
  rw [SourceTree.files, List.pairwise_map]
  have hkeys : ∀ entry ∈ (ofFiles files).table.entries, entry.2.1.components = entry.1 :=
    fun entry hentry => components_of_get? (Table.get?_eq_some_iff.mpr hentry)
  refine (ofFiles files).table.sorted.imp_of_mem fun ha hb hlt => ?_
  rwa [hkeys _ ha, hkeys _ hb]

/-- So no two of them have the same path. -/
theorem areDistinct_files (files : List (Path × String)) : AreDistinct (ofFiles files).files := by
  refine (pairwise_files files).imp fun hlt heq => ?_
  rw [heq, Std.ReflOrd.compare_self] at hlt
  cases hlt

/-! ## Different orders -/

/-- A tree of distinct files has these files. -/
theorem get?_ofFiles_iff (h : AreDistinct files) :
    (ofFiles files).table.get? components = some file ↔
      file ∈ files ∧ file.1.components = components := by
  induction files using List.reverseRecOn generalizing components file with
  | nil => exact iff_of_false nofun (by simp)
  | append_singleton files last ih =>
    obtain ⟨hfiles, -, hlast⟩ := List.pairwise_append.mp h
    rw [ofFiles_concat, get?_table_insert, List.mem_append, List.mem_singleton]
    split_ifs with heq
    · -- the last file is the only one with these components
      have hnone : (ofFiles files).table.get? last.1.components = none := by
        refine Option.eq_none_iff_forall_ne_some.mpr fun found hfound => ?_
        obtain ⟨hmem, hcomponents⟩ := (ih hfiles).mp hfound
        exact hlast found hmem last (List.mem_singleton_self last) hcomponents
      rw [hnone, Option.map_none, Option.getD_none, Option.some_inj]
      constructor
      · rintro rfl
        exact ⟨.inr rfl, heq.symm⟩
      · rintro ⟨hmem | rfl, hcomponents⟩
        · exact absurd (hcomponents.trans heq)
            (hlast file hmem last (List.mem_singleton_self last))
        · rfl
    · rw [ih hfiles]
      refine and_congr_left fun hcomponents => ⟨.inl, fun hmem => hmem.resolve_right ?_⟩
      rintro rfl
      exact heq hcomponents.symm

/-- Their order does not matter then. -/
theorem ofFiles_eq_of_perm (h : AreDistinct files) (hperm : other.Perm files) :
    ofFiles other = ofFiles files := by
  have hother : AreDistinct other := hperm.symm.pairwise h Ne.symm
  have htable : (ofFiles other).table = (ofFiles files).table := by
    refine Table.ext_get? fun components => Option.ext fun file => ?_
    rw [get?_ofFiles_iff hother, get?_ofFiles_iff h, hperm.mem_iff]
  exact congrArg SourceTree.mk htable

/-- Inserting the files of a tree gives it back, in whatever order. -/
theorem ofFiles_of_perm_files (hperm : other.Perm (ofFiles files).files) :
    ofFiles other = ofFiles files := by
  rw [ofFiles_eq_of_perm (areDistinct_files files) hperm]
  have htable : (ofFiles (ofFiles files).files).table = (ofFiles files).table := by
    refine Table.ext_get? fun components => Option.ext fun file => ?_
    rw [get?_ofFiles_iff (areDistinct_files files), mem_files_ofFiles_iff]
    constructor
    · rintro ⟨hget, rfl⟩
      exact hget
    · intro hget
      obtain rfl := components_of_get? hget
      exact ⟨hget, rfl⟩
  exact congrArg SourceTree.mk htable

/-! ## A tree is a map -/

/-- The paths of a tree are the first spellings. -/
theorem mem_paths_ofFiles_iff : path ∈ (ofFiles files).paths ↔
    (firstUnder files path.components).map (·.1) = some path := by
  rw [mem_paths_iff, ← key_ofFiles, Option.map_eq_some_iff]
  constructor
  · rintro ⟨components, content, hget⟩
    rw [components_of_get? hget]
    exact ⟨_, hget, rfl⟩
  · rintro ⟨⟨_, content⟩, hget, rfl⟩
    exact ⟨_, content, hget⟩

/-- Each path that has been inserted is in the tree, in one spelling. -/
theorem existsUnique_path (h : file ∈ files) :
    ∃! path, path ∈ (ofFiles files).paths ∧ path.components = file.1.components := by
  obtain ⟨first, hfirst⟩ := exists_firstUnder h
  obtain ⟨-, hcomponents⟩ := of_firstUnder hfirst
  refine ⟨first.1, ⟨?_, hcomponents⟩, fun path ⟨hpath, heq⟩ => ?_⟩
  · rw [mem_paths_ofFiles_iff, hcomponents, hfirst, Option.map_some]
  · rw [mem_paths_ofFiles_iff, heq, hfirst, Option.map_some, Option.some_inj] at hpath
    exact hpath.symm

/-- Every path of the tree is that of a file, perhaps in another spelling. -/
theorem exists_mem_of_mem_paths (h : path ∈ (ofFiles files).paths) :
    ∃ file ∈ files, file.1.components = path.components := by
  obtain ⟨file, hfile, -⟩ := Option.map_eq_some_iff.mp (mem_paths_ofFiles_iff.mp h)
  exact ⟨file, of_firstUnder hfile⟩

/-- A tree has as many sources as its files have paths. -/
theorem size_ofFiles (files : List (Path × String)) :
    (ofFiles files).size = (files.map (·.1.components)).toFinset.card := by
  have hnodup : ((ofFiles files).paths.map Path.components).Nodup := by
    rw [paths, List.map_map]
    exact List.pairwise_map.mpr (areDistinct_files files)
  have hsize : (ofFiles files).size = ((ofFiles files).paths.map Path.components).length := by
    rw [size, paths, SourceTree.files, List.length_map, List.length_map, List.length_map]
  rw [hsize, ← List.toFinset_card_of_nodup hnodup]
  congr 1
  ext components
  simp only [List.mem_toFinset, List.mem_map]
  constructor
  · rintro ⟨path, hpath, rfl⟩
    exact exists_mem_of_mem_paths hpath
  · rintro ⟨file, hfile, rfl⟩
    obtain ⟨path, hpath, -⟩ := existsUnique_path hfile
    exact ⟨path, hpath⟩

/-- The paths of a tree increase. -/
theorem pairwise_paths (files : List (Path × String)) :
    (ofFiles files).paths.Pairwise fun a b => compare a.components b.components = .lt :=
  List.pairwise_map.mpr (pairwise_files files)

/-- Under a path a tree has the last file. -/
theorem get?_ofFiles (files : List (Path × String)) (path : Path) :
    (ofFiles files).get? path = (lastUnder files path.components).map (·.2) :=
  content_ofFiles files path.components

/-- Whatever files have been inserted, the tree is a map from the components of paths to sources,
where spellings have the same components exactly if separators and inner dots make the difference.
Its paths stand in the order of their components; they are the first spellings of the paths that
have been inserted, and there is one for each of these. Under any spelling of a path it has the
source that was inserted last, if any. It has as many files as different paths have been inserted.
And where all of them are different, their order does not matter. -/
theorem ofFiles_isMap (files : List (Path × String)) :
    let tree := ofFiles files
    (∀ path other : Path,
      path.components = other.components ↔ Relation.EqvGen Path.Shortens path other) ∧
    (tree.paths.Pairwise fun a b => compare a.components b.components = .lt) ∧
    (∀ path, path ∈ tree.paths ↔
      (firstUnder files path.components).map (·.1) = some path) ∧
    (∀ file ∈ files, ∃! path, path ∈ tree.paths ∧ path.components = file.1.components) ∧
    (∀ path, tree.get? path = (lastUnder files path.components).map (·.2)) ∧
    tree.size = (files.map (·.1.components)).toFinset.card ∧
    ∀ other, AreDistinct files → other.Perm files → ofFiles other = tree :=
  ⟨fun _ _ => Path.components_eq_iff, pairwise_paths files, fun _ => mem_paths_ofFiles_iff,
    fun _ => existsUnique_path, get?_ofFiles files, size_ofFiles files,
    fun _ => ofFiles_eq_of_perm⟩

/-- In the order of components `a/x.lua` stands in front of `a.lua`, and `./a.lua` is another path
than `a.lua`. -/
theorem ofFiles_isMap_spellings :
    let files : List (Path × String) :=
      [(⟨"a.lua"⟩, "one"), (⟨"a/x.lua"⟩, "two"), (⟨"./a.lua"⟩, "three")]
    (ofFiles (files ++ [(⟨"a//./x.lua/"⟩, "four")])).paths =
        [⟨"./a.lua"⟩, ⟨"a/x.lua"⟩, ⟨"a.lua"⟩] ∧
      (ofFiles (files ++ [(⟨"a//./x.lua/"⟩, "four")])).get? ⟨"a/x.lua/."⟩ = some "four" ∧
      ofFiles files.reverse = ofFiles files := by
  intro files
  have hdistinct : AreDistinct files := by decide +kernel
  obtain ⟨-, -, -, -, hget, -, -⟩ := ofFiles_isMap (files ++ [(⟨"a//./x.lua/"⟩, "four")])
  obtain ⟨-, -, -, -, -, -, horder⟩ := ofFiles_isMap files
  refine ⟨by decide +kernel, ?_, horder _ hdistinct (List.reverse_perm files)⟩
  rw [hget]
  decide +kernel

/-! ## Loaded trees -/

/-- A tree into which files have been loaded is one into which files have been inserted. -/
theorem exists_ofFiles_of_loadFiles {paths : List Path} {world : World}
    (h : ((loadFiles (ofFiles files) paths : Model (Except Failure SourceTree)) world).1 =
      .ok loaded) : ∃ more, loaded = ofFiles (files ++ more) := by
  induction paths generalizing files with
  | nil =>
    cases h
    exact ⟨[], by rw [List.append_nil]⟩
  | cons path paths ih =>
    rw [loadFiles_cons] at h
    cases htext : TextFile.textOf path (world.disk.read path) with
    | error failure =>
      rw [htext] at h
      cases h
    | ok content =>
      simp only [htext] at h
      rw [← ofFiles_concat files (path, content)] at h
      obtain ⟨more, rfl⟩ := ih h
      exact ⟨(path, content) :: more, by rw [List.append_assoc, List.singleton_append]⟩

/-- A tree that has been loaded is one into which files have been inserted. -/
theorem exists_ofFiles_of_load {world : World}
    (h : ((load root : Model (Except Failure SourceTree)) world).1 = .ok loaded) :
    ∃ files, loaded = ofFiles files := by
  rw [load_apply] at h
  split_ifs at h
  obtain ⟨files, rfl⟩ : ∃ files, loaded = ofFiles ([] ++ files) := exists_ofFiles_of_loadFiles h
  exact ⟨files, rfl⟩

end ScriptMailbox.SourceTree
