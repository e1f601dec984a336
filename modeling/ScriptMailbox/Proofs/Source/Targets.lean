import ScriptMailbox.Proofs.Source.Copies
import ScriptMailbox.Proofs.Source.Locating
import ScriptMailbox.Source.Patch

/-!
# What a patch is about

A patch is about the source that the tree has under a path, in any spelling, or else about the one
that the disk holds there. Without a path it is about the first source of the tree that has the
function. Nothing is written before the text has been inserted.
-/

namespace ScriptMailbox

/-- A script is read where a file is, and nothing changes. -/
theorem TextFile.readNamed_apply (path : Path) (world : World) :
    (readNamed path : Model (Except Failure String)) world =
      (if world.disk.kind? path = some .file then textOf path (world.disk.read path)
        else .error (.missingFile path), world) := by
  show (if world.disk.kind? path = some .file then
    (TextFile.read path : Model (Except Failure String))
    else pure (.error (.missingFile path))) world = _
  split_ifs <;> rfl

namespace SourceTree

variable {tree : SourceTree} {disk : Disk} {world : World} {path : Path} {content text : String}
  {query : Query} {span : Span} {file : Option Path} {afterLine : ℕ} {patched : Patched}

/-! ## The source under a path -/

/-- Whether a content is what a tree has under a path, or else what the disk has. -/
def IsSource (tree : SourceTree) (disk : Disk) (path : Path) (content : String) : Prop :=
  tree.get? path = some content ∨
    tree.get? path = none ∧ disk.read path = .ok (Text.Utf8.encode content)

/-- What is read as the source under a path. -/
def sourceOn (tree : SourceTree) (disk : Disk) (path : Path) : Except Failure String :=
  match tree.get? path with
  | some content => .ok content
  | none =>
    if disk.kind? path = some .file then TextFile.textOf path (disk.read path)
    else .error (.missingFile path)

/-- A source is read from the tree or the disk, and nothing changes. -/
theorem readSource_apply (tree : SourceTree) (path : Path) (world : World) :
    (tree.readSource path : Model (Except Failure String)) world =
      (tree.sourceOn world.disk path, world) := by
  rw [readSource, sourceOn]
  cases tree.get? path with
  | some content => rfl
  | none => exact TextFile.readNamed_apply path world

/-- What is read is the source under the path. -/
theorem sourceOn_eq_ok_iff :
    tree.sourceOn disk path = .ok content ↔ tree.IsSource disk path content := by
  rw [sourceOn, IsSource]
  cases tree.get? path with
  | some source => simp
  | none =>
    simp only [reduceCtorEq, true_and, false_or]
    by_cases hkind : disk.kind? path = some .file
    · rw [if_pos hkind, textOf_eq_ok_iff]
    · rw [if_neg hkind]
      exact iff_of_false (by simp) fun hread => hkind (Disk.kind?_of_read hread)

/-! ## The source that is chosen -/

/-- What a query is about, which may name a file: the source under a path. -/
inductive IsTarget (tree : SourceTree) (disk : Disk) :
    Option Path → Query → Path → String → Prop
  /-- The file that is named. -/
  | named {query : Query} {path : Path} {content : String}
    (hsource : tree.IsSource disk path content) : IsTarget tree disk (some path) query path content
  /-- The first file in which the name is located. -/
  | found {name : String} {path : Path} {span : Span} {content : String}
    (hfind : tree.find? name = some (path, span)) (hget : tree.get? path = some content) :
    IsTarget tree disk none (.name name) path content

/-- A target is a source. -/
theorem IsTarget.isSource (h : tree.IsTarget disk file query path content) :
    tree.IsSource disk path content := by
  cases h with
  | named hsource => exact hsource
  | found _ hget => exact .inl hget

/-- A function is found in one of the sources. -/
theorem mem_paths_of_find? {name : String} (h : tree.find? name = some (path, span)) :
    path ∈ tree.paths := by
  obtain ⟨⟨key, content⟩, hmem, hlocated⟩ := List.exists_of_findSome?_eq_some h
  dsimp only at hlocated
  split at hlocated <;> cases hlocated
  exact List.mem_map.mpr ⟨_, hmem, rfl⟩

/-- What is not named is looked for in the tree. -/
theorem IsTarget.path_cases (h : tree.IsTarget disk file query path content) :
    file = some path ∨ file = none ∧ path ∈ tree.paths := by
  cases h with
  | named => exact .inl rfl
  | found hfind => exact .inr ⟨rfl, mem_paths_of_find? hfind⟩

/-- The path and the source that a query is answered with. -/
def choose (tree : SourceTree) (disk : Disk) (file : Option Path) (query : Query) :
    Except Failure (Path × String) :=
  match file with
  | none => tree.sourceOf? query
  | some path => (tree.sourceOn disk path).map (path, ·)

/-- Nothing is located in an empty source. -/
theorem locate_empty_ne_ok : Source.locate "" query ≠ .ok span := by
  intro hlocate
  obtain ⟨before, function, after, hlines, hlocates, -⟩ := Source.locate_eq_ok_iff.mp hlocate
  have hfunction : function = [] :=
    (List.append_eq_nil_iff.mp (List.append_eq_nil_iff.mp hlines.symm).1).2
  exact hlocates.ne_nil hfunction

/-- Where a source is chosen that has the function, it is the target. A name that is found under a
path without a source would be answered with the empty source, which has no functions. -/
theorem choose_eq_ok_iff (hlocate : Source.locate content query = .ok span) :
    tree.choose disk file query = .ok (path, content) ↔
      tree.IsTarget disk file query path content := by
  constructor
  · intro h
    cases file with
    | some named =>
      cases hsource : tree.sourceOn disk named <;> simp [choose, hsource, Except.map] at h
      obtain ⟨rfl, rfl⟩ := h
      exact .named (sourceOn_eq_ok_iff.mp hsource)
    | none =>
      cases query with
      | line number => cases h
      | name name =>
        cases hfind : tree.find? name with
        | none => simp [choose, sourceOf?, hfind] at h
        | some found =>
          simp only [choose, sourceOf?, hfind, Except.ok.injEq, Prod.mk.injEq] at h
          obtain ⟨rfl, hcontent⟩ := h
          cases hget : tree.get? found.1 with
          | some source =>
            rw [hget, Option.getD_some] at hcontent
            exact .found hfind (hcontent ▸ hget)
          | none =>
            -- the empty source, which has no function to locate
            rw [hget, Option.getD_none] at hcontent
            exact absurd hlocate (hcontent ▸ locate_empty_ne_ok)
  · intro h
    cases h with
    | named hsource =>
      rw [choose, sourceOn_eq_ok_iff.mpr hsource]
      rfl
    | found hfind hget => simp only [choose, sourceOf?, hfind, hget, Option.getD_some]

/-! ## The patched source -/

/-- A source is patched exactly if the function is located and the text inserted. -/
theorem patchContent_eq_ok_iff :
    patchContent path content query text afterLine = .ok patched ↔
      patched.path = path ∧ Source.locate content query = .ok patched.span ∧
        Source.insert content patched.span text afterLine = .ok patched.content := by
  rw [patchContent]
  obtain ⟨key, inserted, span⟩ := patched
  cases hlocate : Source.locate content query with
  | error miss => simp
  | ok found =>
    cases hinsert : Source.insert content found text afterLine with
    | error fault => simp +contextual [hinsert, eq_comm]
    | ok other =>
      simp only [hinsert, Except.ok.injEq, Patched.mk.injEq]
      constructor
      · rintro ⟨rfl, rfl, rfl⟩
        exact ⟨rfl, rfl, hinsert⟩
      · rintro ⟨rfl, rfl, hother⟩
        exact ⟨rfl, Except.ok.inj (hinsert.symm.trans hother), rfl⟩

/-- The patched source stays under its path. -/
theorem path_of_patchContent
    (h : patchContent path content query text afterLine = .ok patched) : patched.path = path :=
  (patchContent_eq_ok_iff.mp h).1

/-- The source with the text inserted, before it is written. -/
def draft (tree : SourceTree) (disk : Disk) (file : Option Path) (query : Query) (text : String)
    (afterLine : ℕ) : Except Failure Patched :=
  tree.choose disk file query >>= fun source =>
    patchContent source.1 source.2 query text afterLine

/-- A patch of a tree is its draft, and nothing changes. -/
theorem patch_apply (tree : SourceTree) (file : Option Path) (query : Query) (text : String)
    (afterLine : ℕ) (world : World) :
    (tree.patch file query text afterLine : Model (Except Failure Patched)) world =
      (tree.draft world.disk file query text afterLine, world) := by
  cases file with
  | none => rfl
  | some path =>
    show ((fun found : Except Failure String × World =>
      (found.1 >>= fun content => patchContent path content query text afterLine, found.2))
        ((tree.readSource path : Model (Except Failure String)) world)) = _
    rw [readSource_apply, draft, choose]
    cases tree.sourceOn world.disk path <;> rfl

/-- A draft fails where no source is chosen, or where the text cannot be inserted into it. -/
theorem draft_eq_error_iff {failure : Failure} :
    tree.draft disk file query text afterLine = .error failure ↔
      tree.choose disk file query = .error failure ∨ ∃ source,
        tree.choose disk file query = .ok source ∧
          patchContent source.1 source.2 query text afterLine = .error failure := by
  rw [draft]
  cases tree.choose disk file query <;> simp [bind, Except.bind]

/-- A draft is made of the target, if that has the function and the line in it. -/
theorem draft_eq_ok_iff :
    tree.draft disk file query text afterLine = .ok patched ↔
      ∃ content, tree.IsTarget disk file query patched.path content ∧
        patchContent patched.path content query text afterLine = .ok patched := by
  rw [draft]
  constructor
  · intro h
    cases hchoose : tree.choose disk file query with
    | error failure =>
      rw [hchoose] at h
      cases h
    | ok source =>
      rw [hchoose] at h
      obtain ⟨path, content⟩ := source
      have hpatched : patchContent path content query text afterLine = .ok patched := h
      obtain ⟨rfl, hlocate, -⟩ := patchContent_eq_ok_iff.mp hpatched
      exact ⟨content, (choose_eq_ok_iff hlocate).mp hchoose, hpatched⟩
  · rintro ⟨content, htarget, hpatched⟩
    obtain ⟨-, hlocate, -⟩ := patchContent_eq_ok_iff.mp hpatched
    rw [(choose_eq_ok_iff hlocate).mpr htarget]
    exact hpatched

end SourceTree

end ScriptMailbox
