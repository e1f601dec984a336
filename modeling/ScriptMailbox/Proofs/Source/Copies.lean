import ScriptMailbox.Proofs.Disk.Spellings
import ScriptMailbox.Proofs.Text.Encoding
import ScriptMailbox.Source.Load
import ScriptMailbox.World

/-!
# Sources are copies of files

A tree copies the disk when every source is what stands at the end of its path. A tree that has been
loaded does (`copies_load`), and goes on doing so when a source and the file under its path get a
new content (`copies_insert`).
-/

namespace ScriptMailbox.SourceTree

variable {tree loaded : SourceTree} {disk : Disk} {world : World} {path key root : Path}
  {content : String}

/-! ## Sources under paths -/

/-- A tree has a content under a path if it has it under the components of the path. -/
theorem get?_eq_some_iff :
    tree.get? path = some content ↔
      ∃ key, tree.table.get? path.components = some (key, content) := by
  simp [get?]

/-- The files of a tree are its entries. -/
theorem mem_files_iff : (path, content) ∈ tree.files ↔
    ∃ components, tree.table.get? components = some (path, content) := by
  simp [files, Table.get?_eq_some_iff]

/-- Its paths are those of its entries. -/
theorem mem_paths_iff : path ∈ tree.paths ↔
    ∃ components content, tree.table.get? components = some (path, content) := by
  rw [paths, List.mem_map]
  constructor
  · rintro ⟨⟨path, content⟩, hmem, rfl⟩
    obtain ⟨components, hget⟩ := mem_files_iff.mp hmem
    exact ⟨components, content, hget⟩
  · rintro ⟨components, content, hget⟩
    exact ⟨(path, content), mem_files_iff.mpr ⟨components, hget⟩, rfl⟩

/-- What a tree has under the components of a path after an insertion. -/
theorem get?_table_insert (tree : SourceTree) (path : Path) (content : String)
    (components : List Component) :
    (tree.insert path content).table.get? components =
      if components = path.components then
        some (((tree.table.get? path.components).map (·.1)).getD path, content)
      else tree.table.get? components :=
  Table.get?_alter ..

/-- An insertion brings at most one more path. -/
theorem mem_paths_insert (h : key ∈ (tree.insert path content).paths) :
    key = path ∨ key ∈ tree.paths := by
  obtain ⟨components, old, hget⟩ := mem_paths_iff.mp h
  rw [get?_table_insert] at hget
  split_ifs at hget with heq
  · cases hold : tree.table.get? path.components with
    | none =>
      simp only [hold, Option.map_none, Option.getD_none, Option.some.injEq, Prod.mk.injEq] at hget
      exact .inl hget.1.symm
    | some entry =>
      simp only [hold, Option.map_some, Option.getD_some, Option.some.injEq, Prod.mk.injEq] at hget
      refine .inr (mem_paths_iff.mpr ⟨path.components, entry.2, ?_⟩)
      rw [hold, ← hget.1]
  · exact .inr (mem_paths_iff.mpr ⟨components, old, hget⟩)

/-! ## Copying -/

/-- Every source stands under the components of its path, and is what the disk holds there. -/
def Copies (tree : SourceTree) (disk : Disk) : Prop :=
  ∀ components path content, tree.table.get? components = some (path, content) →
    path.components = components ∧ disk.read path = .ok (Text.Utf8.encode content)

/-- The empty tree copies every disk. -/
theorem copies_empty (disk : Disk) : empty.Copies disk := by
  intro components path content hget
  cases hget

/-- A source is inserted that the disk holds under one spelling of its path; under the others, the
disk holds some file. -/
theorem copies_insert
    (hothers : ∀ components key old, tree.table.get? components = some (key, old) →
      key.components = components ∧ ∃ bytes, disk.read key = .ok bytes ∧
        (components ≠ path.components → bytes = Text.Utf8.encode old))
    (hread : disk.read path = .ok (Text.Utf8.encode content)) :
    (tree.insert path content).Copies disk := by
  intro components key old hget
  rw [get?_table_insert] at hget
  split_ifs at hget with heq
  · cases hold : tree.table.get? path.components with
    | none =>
      simp only [hold, Option.map_none, Option.getD_none, Option.some.injEq, Prod.mk.injEq] at hget
      obtain ⟨rfl, rfl⟩ := hget
      exact ⟨heq.symm, hread⟩
    | some entry =>
      simp only [hold, Option.map_some, Option.getD_some, Option.some.injEq, Prod.mk.injEq] at hget
      obtain ⟨rfl, rfl⟩ := hget
      obtain ⟨hcomponents, bytes, hbytes, -⟩ := hothers _ entry.1 entry.2 hold
      obtain ⟨location, hkey⟩ := Disk.read_eq_ok_iff.mp hbytes
      obtain ⟨place, hpath⟩ := Disk.read_eq_ok_iff.mp hread
      obtain rfl := hkey.location_eq hpath hcomponents
      have hsame : bytes = Text.Utf8.encode content := by
        simpa using hkey.holds.symm.trans hpath.holds
      exact ⟨hcomponents.trans heq.symm, hsame ▸ hbytes⟩
  · obtain ⟨hcomponents, bytes, hbytes, hsame⟩ := hothers components key old hget
    exact ⟨hcomponents, hsame heq ▸ hbytes⟩

/-! ## Loading -/

/-- A text is exactly what its bytes encode. -/
theorem textOf_eq_ok_iff {result : Except DiskFault Bytes} :
    TextFile.textOf path result = .ok content ↔ result = .ok (Text.Utf8.encode content) := by
  cases result with
  | error fault => simp [TextFile.textOf]
  | ok bytes =>
    rw [TextFile.textOf, Except.ok.injEq, ← Text.Utf8.decode?_eq_some_iff]
    cases Text.Utf8.decode? bytes <;> simp

/-- The first file is loaded, and then the others. -/
theorem loadFiles_cons (tree : SourceTree) (path : Path) (paths : List Path) (world : World) :
    (loadFiles tree (path :: paths) : Model (Except Failure SourceTree)) world =
      match TextFile.textOf path (world.disk.read path) with
      | .error failure => (.error failure, world)
      | .ok content => (loadFiles (tree.insert path content) paths : Model _) world := by
  show (match TextFile.textOf path (world.disk.read path) with
    | .error failure => (pure (.error failure) : Model (Except Failure SourceTree))
    | .ok content => loadFiles (tree.insert path content) paths) world = _
  cases TextFile.textOf path (world.disk.read path) <;> rfl

/-- What is loaded copies the disk. -/
theorem copies_loadFiles {paths : List Path} (htree : tree.Copies world.disk)
    (h : ((loadFiles tree paths : Model (Except Failure SourceTree)) world).1 = .ok loaded) :
    loaded.Copies world.disk := by
  induction paths generalizing tree with
  | nil =>
    cases h
    exact htree
  | cons path paths ih =>
    rw [loadFiles_cons] at h
    cases htext : TextFile.textOf path (world.disk.read path) with
    | error failure =>
      rw [htext] at h
      cases h
    | ok content =>
      simp only [htext] at h
      refine ih (copies_insert (fun components key old hget => ?_) (textOf_eq_ok_iff.mp htext)) h
      obtain ⟨hcomponents, hread⟩ := htree components key old hget
      exact ⟨hcomponents, _, hread, fun _ => rfl⟩

/-- Loading a directory loads the scripts that are found below it. -/
theorem load_apply (root : Path) (world : World) :
    (load root : Model (Except Failure SourceTree)) world =
      if world.disk.kind? root = some .directory then
        (loadFiles empty ((world.disk.filesBelow root).filter isScript) : Model _) world
      else (.error (.missingFile root), world) := by
  show (if world.disk.kind? root = some .directory then
    (do
      let paths ← Host.filesBelow root
      loadFiles empty (paths.filter isScript) : Model (Except Failure SourceTree))
    else pure (.error (.missingFile root))) world = _
  split_ifs <;> rfl

/-- The sources of a directory are copies. -/
theorem copies_load
    (h : ((load root : Model (Except Failure SourceTree)) world).1 = .ok loaded) :
    loaded.Copies world.disk := by
  rw [load_apply] at h
  split_ifs at h
  exact copies_loadFiles (copies_empty world.disk) h

end ScriptMailbox.SourceTree
