import ScriptMailbox.Proofs.Source.Patching
import ScriptMailbox.Proofs.Source.Spans

/-!
# Patches are transactions

A patch chooses its source, locates the function, inserts the text, writes the file and takes the
new source over, in this order, and each of the first four can fail. Where one does, nothing has
happened. Otherwise the file and the tree have the same new source, and everything else is as it
was (`patch_all_or_nothing`).
-/

namespace ScriptMailbox

open Source SourceTree

/-! ## What can go wrong -/

namespace Failure

/-- The codes of what can go wrong with a patch. -/
def patchCodes : List String :=
  ["PATCH_NOT_FOUND", "PATCH_INDEX_OUT_OF_RANGE", "SESSION_MISSING_FILE", "IO"]

/-- Whether a patch can fail in this way. -/
def IsOfPatch (failure : Failure) : Prop :=
  failure.code ∈ patchCodes

/-- A function may not be found. -/
theorem isOfPatch_notFound (wanted : String) : (notFound wanted).IsOfPatch := by
  show "PATCH_NOT_FOUND" ∈ patchCodes
  decide

/-- The line may be behind the function. -/
theorem isOfPatch_indexOutOfRange (afterLine lineCount : ℕ) :
    (indexOutOfRange afterLine lineCount).IsOfPatch := by
  show "PATCH_INDEX_OUT_OF_RANGE" ∈ patchCodes
  decide

/-- The file may be missing. -/
theorem isOfPatch_missingFile (path : Path) : (missingFile path).IsOfPatch := by
  show "SESSION_MISSING_FILE" ∈ patchCodes
  decide

/-- The machine may fail. -/
theorem isOfPatch_io (path : Path) (cause : String) : (io path cause).IsOfPatch := by
  show "IO" ∈ patchCodes
  decide

end Failure

namespace SourceTree

variable {tree : SourceTree} {disk : Disk} {path : Path} {content text : String} {query : Query}
  {file : Option Path} {afterLine : ℕ} {failure : Failure}

/-- What is no text is a failure of the machine. -/
theorem exists_io_of_textOf {result : Except DiskFault Bytes}
    (h : TextFile.textOf path result = .error failure) : ∃ cause, failure = .io path cause := by
  cases result with
  | error fault =>
    cases h
    exact ⟨fault.message, rfl⟩
  | ok bytes =>
    rw [TextFile.textOf] at h
    cases hdecode : Text.Utf8.decode? bytes <;> simp only [hdecode] at h <;> cases h
    exact ⟨TextFile.notText, rfl⟩

/-- So a source that is not there fails as a patch may. -/
theorem isOfPatch_of_sourceOn (h : tree.sourceOn disk path = .error failure) :
    failure.IsOfPatch := by
  rw [sourceOn] at h
  cases hget : tree.get? path with
  | some content => simp [hget] at h
  | none =>
    simp only [hget] at h
    split_ifs at h
    · obtain ⟨cause, rfl⟩ := exists_io_of_textOf h
      exact Failure.isOfPatch_io path cause
    · cases h
      exact Failure.isOfPatch_missingFile path

/-- So does a query that no source answers. -/
theorem isOfPatch_of_choose (h : tree.choose disk file query = .error failure) :
    failure.IsOfPatch := by
  cases file with
  | some path =>
    cases hsource : tree.sourceOn disk path <;> rw [choose, hsource] at h <;> cases h
    exact isOfPatch_of_sourceOn hsource
  | none =>
    cases query with
    | line number =>
      cases h
      exact Failure.isOfPatch_notFound _
    | name name =>
      cases hfind : tree.find? name <;> simp only [choose, sourceOf?, hfind] at h <;> cases h
      exact Failure.isOfPatch_notFound _

/-- So does an insertion into a source. -/
theorem isOfPatch_of_patchContent
    (h : patchContent path content query text afterLine = .error failure) :
    failure.IsOfPatch := by
  rcases patchContent_cases path content query text afterLine with
    ⟨miss, -, hresult⟩ | ⟨span, -, hresult | ⟨patched, -, hresult⟩⟩
  · cases hresult.symm.trans h
    exact Failure.isOfPatch_notFound _
  · cases hresult.symm.trans h
    exact Failure.isOfPatch_indexOutOfRange afterLine span.lineCount
  · cases hresult.symm.trans h

/-- So does all that comes before the source is written. -/
theorem isOfPatch_of_draft (h : tree.draft disk file query text afterLine = .error failure) :
    failure.IsOfPatch := by
  rcases draft_eq_error_iff.mp h with hchoose | ⟨source, -, hresult⟩
  · exact isOfPatch_of_choose hchoose
  · exact isOfPatch_of_patchContent hresult

end SourceTree

/-! ## What a patch leaves -/

namespace Site

variable {site before after : Site} {request : PatchRequest} {patched : Patched} {disk : Disk}

/-- What a patch that succeeds gives and leaves: the text is inserted into its target, the file and
the tree have the new source, and everything else is as it was. -/
structure Commits (request : PatchRequest) (patched : Patched) (before after : Site) : Prop where
  /-- The result is the target with the text inserted into the function. -/
  inserts : ∃ content,
    before.session.sources.IsTarget before.world.disk request.file request.query patched.path
      content ∧
    locate content request.query = .ok patched.span ∧
    Source.insert content patched.span request.text request.afterLine = .ok patched.content
  /-- The file under the path has the new source, and all other files are as they were. -/
  writes : ∃ location, before.world.disk.resolve .place patched.path = .ok location ∧
    after.world.disk.HasFile patched.path location (Text.Utf8.encode patched.content) ∧
    before.world.disk.Sets location (some (.file (Text.Utf8.encode patched.content)))
      after.world.disk
  /-- The tree has the new source under the path, in any spelling. -/
  takes : after.session.sources.get? patched.path = some patched.content
  /-- The other sources of the tree are as they were. -/
  keeps : ∀ components, components ≠ patched.path.components →
    after.session.sources.table.get? components = before.session.sources.table.get? components
  /-- So is the channel. -/
  channel : after.session.channel = before.session.channel
  /-- So is everything in the world but the disk. -/
  world : after.world = { before.world with disk := after.world.disk }

/-- Once the source has been written, the patch is committed. -/
theorem commits_of_write (hdraft : site.draft request = .ok patched)
    (hwrite : site.world.disk.write patched.path (Text.Utf8.encode patched.content) = .ok disk) :
    Commits request patched site
      ⟨{ site.session with sources := site.session.sources.insert patched.path patched.content },
        { site.world with disk := disk }⟩ where
  inserts := by
    obtain ⟨content, htarget, hresult⟩ := draft_eq_ok_iff.mp hdraft
    exact ⟨content, htarget, (patchContent_eq_ok_iff.mp hresult).2⟩
  writes := by
    obtain ⟨location, hresolve, hplain, hsets⟩ := Disk.write_eq_ok hwrite
    have hplace : disk.resolve .target patched.path = .ok location :=
      Disk.resolve_of_keepsWays (hsets.keepsWays hplain) (.inr ⟨_, hsets.at?_self⟩) hresolve
    exact ⟨location, hresolve, ⟨hplace, hsets.at?_self⟩, hsets⟩
  takes := by
    simp [get?, get?_table_insert]
  keeps components hne := by
    rw [get?_table_insert, if_neg hne]
  channel := rfl
  world := rfl

/-- A patch that fails changes nothing. -/
theorem patch_of_error {halt : Halt} (h : (site.patch request).1 = .error halt) :
    (site.patch request).2 = site ∧ ∃ failure, halt = .failed failure ∧ failure.IsOfPatch := by
  rcases patch_cases site request with ⟨failure, hfailed, hcause⟩ | ⟨patched, _, -, -, hdone⟩
  · rw [hfailed] at h ⊢
    cases h
    refine ⟨rfl, failure, rfl, ?_⟩
    rcases hcause with hdraft | ⟨patched, fault, -, -, rfl⟩
    · exact isOfPatch_of_draft hdraft
    · exact Failure.isOfPatch_io patched.path fault.message
  · rw [hdone] at h
    cases h

/-- A patch that succeeds is committed. -/
theorem commits_of_patch (h : (site.patch request).1 = .ok patched) :
    Commits request patched site (site.patch request).2 := by
  rcases patch_cases site request with ⟨failure, hfailed, -⟩ | ⟨other, _, hdraft, hwrite, hdone⟩
  · rw [hfailed] at h
    cases h
  · rw [hdone] at h ⊢
    cases h
    exact commits_of_write hdraft hwrite

/-- Nothing but the target, its function, the line in it and the file decides whether a patch
succeeds. -/
theorem exists_patch_iff :
    (∃ patched, (site.patch request).1 = .ok patched) ↔ ∃ path content span inserted written,
      site.session.sources.IsTarget site.world.disk request.file request.query path content ∧
      locate content request.query = .ok span ∧
      Source.insert content span request.text request.afterLine = .ok inserted ∧
      site.world.disk.write path (Text.Utf8.encode inserted) = .ok written := by
  constructor
  · rintro ⟨patched, hpatched⟩
    rcases patch_cases site request with
      ⟨failure, hfailed, -⟩ | ⟨other, written, hdraft, hwrite, -⟩
    · rw [hfailed] at hpatched
      cases hpatched
    · obtain ⟨content, htarget, hlocate, hinsert⟩ := (commits_of_write hdraft hwrite).inserts
      exact ⟨other.path, content, other.span, other.content, written, htarget, hlocate, hinsert,
        hwrite⟩
  · rintro ⟨path, content, span, inserted, written, htarget, hlocate, hinsert, hwrite⟩
    have hresult : patchContent path content request.query request.text request.afterLine =
        .ok ⟨path, inserted, span⟩ :=
      patchContent_eq_ok_iff.mpr ⟨rfl, hlocate, hinsert⟩
    have hmade : site.draft request = .ok ⟨path, inserted, span⟩ :=
      draft_eq_ok_iff.mpr ⟨content, htarget, hresult⟩
    rcases patch_cases site request with
      ⟨failure, -, hdraft | ⟨patched, fault, hdraft, hfault, -⟩⟩ | ⟨patched, _, -, -, hdone⟩
    · cases hdraft.symm.trans hmade
    · -- the draft is what is written, so the writing does not fail
      cases hdraft.symm.trans hmade
      cases hwrite.symm.trans hfault
    · exact ⟨patched, congrArg Prod.fst hdone⟩

/-- A patch fails and leaves the site as it was, whatever has gone wrong. Or it succeeds, and then
the file and the tree have the new source, and nothing else has changed. It succeeds exactly if it
has a target with the function and the line in it, and the file can be written. -/
theorem patch_all_or_nothing (site : Site) (request : PatchRequest) :
    (∀ halt, (site.patch request).1 = .error halt →
      (site.patch request).2 = site ∧ ∃ failure, halt = .failed failure ∧ failure.IsOfPatch) ∧
    (∀ patched, (site.patch request).1 = .ok patched →
      Commits request patched site (site.patch request).2) ∧
    ((∃ patched, (site.patch request).1 = .ok patched) ↔ ∃ path content span inserted written,
      site.session.sources.IsTarget site.world.disk request.file request.query path content ∧
      locate content request.query = .ok span ∧
      Source.insert content span request.text request.afterLine = .ok inserted ∧
      site.world.disk.write path (Text.Utf8.encode inserted) = .ok written) :=
  ⟨fun _ => patch_of_error, fun _ => commits_of_patch, exists_patch_iff⟩

/-- Under another spelling of its path, a source is patched on the disk and in the tree. Where a
directory has taken the place of the file, the text is inserted but cannot be written, and the tree
keeps its source. -/
theorem patch_all_or_nothing_unwritten :
    let site := ofScript "function f()\nend\n"
    let taken : Site := ⟨site.session, .ofDisk
      ((Disk.empty.put ["src"] .directory).put ["src", "a.lua"] .directory)⟩
    let request : PatchRequest := ⟨some ⟨"src//a.lua"⟩, .line 1, "g()", 1⟩
    let patched : Patched :=
      ⟨⟨"src//a.lua"⟩, "function f()\ng()\nend\n", ⟨0, 17, "function f()\nend\n"⟩⟩
    ((site.patch request).1 = .ok patched ∧
      Commits request patched site (site.patch request).2 ∧
      (site.patch request).2.session.sources.paths = [⟨"src/a.lua"⟩]) ∧
    (taken.patch request).1 = .error (.failed (.io ⟨"src//a.lua"⟩ "Is a directory (os error 21)")) ∧
      (taken.patch request).2 = taken := by
  intro site taken request patched
  have hdone : (site.patch request).1 = .ok patched := by decide +kernel
  have hfailed : (taken.patch request).1 =
      .error (.failed (.io ⟨"src//a.lua"⟩ "Is a directory (os error 21)")) := by
    decide +kernel
  refine ⟨⟨hdone, (patch_all_or_nothing site request).2.1 patched hdone, ?_⟩, hfailed,
    ((patch_all_or_nothing taken request).1 _ hfailed).1⟩
  decide +kernel

end Site

end ScriptMailbox
