import ScriptMailbox.Proofs.Source.Spans
import ScriptMailbox.Proofs.Source.Targets
import ScriptMailbox.Proofs.Source.Trees

/-!
# Patching what is found by name

A name is looked for in the files of a tree in the order of their components, and the first file in
which it is located is patched, just as if it had been named (`patch_name_least`).
-/

namespace ScriptMailbox.SourceTree

variable {files : List (Path × String)} {tree : SourceTree} {path : Path}
  {content name text : String} {query : Query} {span : Span} {afterLine : ℕ} {world : World}

/-! ## The first file that has a name -/

/-- Whether a name is not located in a file. The file may mention it. -/
def Misses (name : String) (file : Path × String) : Prop :=
  ∃ miss, Source.locate file.2 (.name name) = .error miss

/-- A function is not found exactly if every source misses it. -/
theorem find?_eq_none_iff : tree.find? name = none ↔ ∀ file ∈ tree.files, Misses name file := by
  rw [find?, List.findSome?_eq_none_iff]
  refine forall₂_congr fun file _ => ?_
  cases hlocate : Source.locate file.2 (.name name) <;> simp [Misses, hlocate]

/-- A file that is found has the name, and those in front of it have not. -/
theorem exists_of_find? (h : tree.find? name = some (path, span)) :
    ∃ before content after, tree.files = before ++ (path, content) :: after ∧
      Source.locate content (.name name) = .ok span ∧
      ∀ file ∈ before, Misses name file := by
  obtain ⟨before, ⟨key, content⟩, after, hfiles, hlocated, hbefore⟩ :=
    List.findSome?_eq_some_iff.mp h
  cases hlocate : Source.locate content (.name name) with
  | error miss => simp [hlocate] at hlocated
  | ok found =>
    simp only [hlocate, Option.some.injEq, Prod.mk.injEq] at hlocated
    obtain ⟨rfl, rfl⟩ := hlocated
    refine ⟨before, content, after, hfiles, hlocate, fun file hfile => ?_⟩
    have hnone := hbefore file hfile
    cases hmiss : Source.locate file.2 (.name name) with
    | error miss => exact ⟨miss, hmiss⟩
    | ok other => simp [hmiss] at hnone

/-! ## Patches of files of the tree -/

/-- Where a tree has a source, that is what is patched under its path. -/
theorem patch_some_of_get? (hget : tree.get? path = some content) (query : Query) (text : String)
    (afterLine : ℕ) (world : World) :
    (tree.patch (some path) query text afterLine : Model (Except Failure Patched)) world =
      (patchContent path content query text afterLine, world) := by
  have hchoose : tree.choose world.disk (some path) query = .ok (path, content) := by
    rw [choose, sourceOn_eq_ok_iff.mpr (.inl hget)]
    rfl
  rw [patch_apply, draft, hchoose]
  rfl

/-- A patch without a path is that of the source in which the function is found. -/
theorem patch_none_of_find? (hfind : tree.find? name = some (path, span))
    (hget : tree.get? path = some content) (text : String) (afterLine : ℕ) (world : World) :
    (tree.patch none (.name name) text afterLine : Model (Except Failure Patched)) world =
      (patchContent path content (.name name) text afterLine, world) := by
  have hchoose : tree.choose world.disk none (.name name) = .ok (path, content) := by
    simp only [choose, sourceOf?, hfind, hget, Option.getD_some]
  rw [patch_apply, draft, hchoose]
  rfl

/-- It fails if the function is found nowhere. -/
theorem patch_none_of_find?_eq_none (hfind : tree.find? name = none) (text : String)
    (afterLine : ℕ) (world : World) :
    (tree.patch none (.name name) text afterLine : Model (Except Failure Patched)) world =
      (.error (.notFound (Query.name name).describe), world) := by
  have hchoose : tree.choose world.disk none (.name name) =
      .error (.notFound (Query.name name).describe) := by
    simp only [choose, sourceOf?, hfind]
  rw [patch_apply, draft, hchoose]
  rfl

/-- Where the name has been located, the function is not missed any more. -/
theorem patchContent_ne_notFound (hlocate : Source.locate content query = .ok span) (path : Path)
    (text : String) (afterLine : ℕ) (wanted : String) :
    patchContent path content query text afterLine ≠ .error (.notFound wanted) := by
  rcases Source.patchContent_cases path content query text afterLine with
    ⟨miss, hmiss, -⟩ | ⟨_, -, hresult | ⟨patched, -, hresult⟩⟩
  · rw [hlocate] at hmiss
    cases hmiss
  · simp [hresult]
  · simp [hresult]

/-- A file of a tree is what the tree has under its path. -/
theorem get?_of_mem_files (h : (path, content) ∈ (ofFiles files).files) :
    (ofFiles files).get? path = some content :=
  get?_eq_some_iff.mpr ⟨path, mem_files_ofFiles_iff.mp h⟩

/-- The file that is found is the least one that has the name. -/
theorem exists_least_of_find? (h : (ofFiles files).find? name = some (path, span)) :
    ∃ content, (path, content) ∈ (ofFiles files).files ∧
      Source.locate content (.name name) = .ok span ∧
      ∀ file ∈ (ofFiles files).files, ¬Misses name file →
        file = (path, content) ∨ compare path.components file.1.components = .lt := by
  obtain ⟨before, content, after, hfiles, hlocate, hbefore⟩ := exists_of_find? h
  have hsorted := pairwise_files files
  rw [hfiles] at hsorted ⊢
  refine ⟨content, by simp, hlocate, fun file hfile hhas => ?_⟩
  rw [List.mem_append, List.mem_cons] at hfile
  rcases hfile with hfile | rfl | hfile
  · exact absurd (hbefore file hfile) hhas
  · exact .inl rfl
  · exact .inr (List.rel_of_pairwise_cons (List.pairwise_append.mp hsorted).2.1 hfile)

/-- A patch by name finds no function exactly if the name is not located in any file of the tree.
Otherwise there is a first file, in the order of components, in which it is located, whatever files
mention it without an end in front of that one. This file is found, and the patch has the same
result or failure as one of this file, also where the file has too few lines and a later one has
enough. Nothing of this depends on the order in which the files have been inserted. -/
theorem patch_name_least (files : List (Path × String)) (name text : String) (afterLine : ℕ)
    (world : World) :
    let tree := ofFiles files
    let patch (tree : SourceTree) (file : Option Path) :=
      (tree.patch file (.name name) text afterLine : Model (Except Failure Patched)) world
    ((∃ wanted, (patch tree none).1 = .error (.notFound wanted)) ↔
      ∀ file ∈ tree.files, Misses name file) ∧
    ((∀ file ∈ tree.files, Misses name file) ∨ ∃ path content span,
      (path, content) ∈ tree.files ∧ Source.locate content (.name name) = .ok span ∧
      (∀ file ∈ tree.files, ¬Misses name file →
        file = (path, content) ∨ compare path.components file.1.components = .lt) ∧
      tree.find? name = some (path, span) ∧ patch tree none = patch tree (some path)) ∧
    ∀ order, order.Perm tree.files →
      (ofFiles order).find? name = tree.find? name ∧
        patch (ofFiles order) none = patch tree none := by
  intro tree patch
  -- a tree is determined by its files, whatever their order
  have horder : ∀ order, order.Perm tree.files → (ofFiles order).find? name = tree.find? name ∧
      patch (ofFiles order) none = patch tree none := by
    intro order hperm
    rw [ofFiles_of_perm_files hperm]
    exact ⟨rfl, rfl⟩
  cases hfind : tree.find? name with
  | none =>
    have hmisses := find?_eq_none_iff.mp hfind
    have hpatch := patch_none_of_find?_eq_none hfind text afterLine world
    exact ⟨iff_of_true ⟨_, congrArg Prod.fst hpatch⟩ hmisses, .inl hmisses, hfind ▸ horder⟩
  | some found =>
    obtain ⟨path, span⟩ := found
    obtain ⟨content, hmem, hlocate, hleast⟩ := exists_least_of_find? hfind
    have hget := get?_of_mem_files hmem
    have hpatch := patch_none_of_find? hfind hget text afterLine world
    have hsame := hpatch.trans (patch_some_of_get? hget (.name name) text afterLine world).symm
    refine ⟨iff_of_false ?_ ?_,
      .inr ⟨path, content, span, hmem, hlocate, hleast, rfl, hsame⟩, hfind ▸ horder⟩
    · rintro ⟨wanted, hwanted⟩
      refine patchContent_ne_notFound hlocate path text afterLine wanted ?_
      rw [← hwanted]
      exact congrArg Prod.fst hpatch.symm
    · intro hmisses
      obtain ⟨miss, hmiss⟩ := hmisses _ hmem
      rw [hlocate] at hmiss
      cases hmiss

/-- The file `a/x.lua` comes first and never ends the function, so `a.lua` is patched. That it has
too few lines is the failure, although `b.lua` has enough of them. -/
theorem patch_name_least_skipping :
    let files : List (Path × String) := [(⟨"b.lua"⟩, "function f()\n\n\n\nend\n"),
      (⟨"a.lua"⟩, "function f()\nend\n"), (⟨"a/x.lua"⟩, "function f()\n")]
    let world : World := .ofDisk .empty
    let patch (tree : SourceTree) (file : Option Path) :=
      (tree.patch file (.name "f") "g()" 4 : Model (Except Failure Patched)) world
    (patch (ofFiles files) none).1 = .error (.indexOutOfRange 4 2) ∧
      patch (ofFiles files) none = patch (ofFiles files) (some ⟨"a.lua"⟩) ∧
      patch (ofFiles (ofFiles files).files.reverse) none = patch (ofFiles files) none := by
  intro files world patch
  have hfind : (ofFiles files).find? "f" =
      some (⟨"a.lua"⟩, ⟨0, 17, "function f()\nend\n"⟩) := by
    decide +kernel
  have hresult : (patch (ofFiles files) none).1 = .error (.indexOutOfRange 4 2) := by
    decide +kernel
  obtain ⟨hnotFound, hcases, horder⟩ := patch_name_least files "f" "g()" 4 world
  refine ⟨hresult, ?_, (horder _ (List.reverse_perm _)).2⟩
  rcases hcases with hmisses | ⟨path, content, span, -, -, -, hfound, hsame⟩
  · obtain ⟨wanted, hwanted⟩ := hnotFound.mpr hmisses
    cases hresult.symm.trans hwanted
  · obtain ⟨rfl, -⟩ := Prod.mk.inj (Option.some.inj (hfind.symm.trans hfound))
    exact hsame

end ScriptMailbox.SourceTree
