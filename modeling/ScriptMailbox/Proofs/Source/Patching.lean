import ScriptMailbox.Proofs.Computations
import ScriptMailbox.Proofs.Source.Splicing
import ScriptMailbox.Proofs.Source.Targets
import ScriptMailbox.World.Run

/-!
# Patching again and again

While nobody else writes the files, a patch goes into what its file holds, and what it inserts stays
there, whatever is patched later (`patch_stands`). Sources are told apart by the components of their
paths. So this rests on no file being reached by paths with different components: otherwise a patch
under one of them works on a copy that lacks the patches under the other, and undoes them.
-/

namespace ScriptMailbox

open Source SourceTree

/-- What is asked of a patch. -/
structure PatchRequest where
  /-- The file to patch; without one, the function is looked for in the sources. -/
  file : Option Path
  /-- The function to patch. -/
  query : Query
  /-- What is inserted. -/
  text : String
  /-- The line of the function behind which it is inserted. -/
  afterLine : ℕ

/-- A session in a world. -/
structure Site where
  session : Session
  world : World

namespace Site

/-- What a patch gives, and the site behind it. -/
def patch (site : Site) (request : PatchRequest) : Except Halt Patched × Site :=
  let run := site.world.runSession site.session
    (Session.patch request.file request.query request.text request.afterLine)
  (run.1.1, ⟨run.1.2, run.2⟩)

/-- The site behind patches that are made one after the other, whatever comes of them. -/
def patches (site : Site) (requests : List PatchRequest) : Site :=
  requests.foldl (fun site request => (site.patch request).2) site

variable {site : Site} {request : PatchRequest} {requests earlier later : List PatchRequest}
  {patched : Patched} {paths : List Path} {content text : String} {path : Path}
  {disk before after : Disk} {location : Location}

/-! ## One patch -/

/-- The source with the text inserted, before it is written. -/
def draft (site : Site) (request : PatchRequest) : Except Failure Patched :=
  site.session.sources.draft site.world.disk request.file request.query request.text
    request.afterLine

/-- A patch fails and changes nothing, or it writes the patched source and takes it over. -/
theorem patch_cases (site : Site) (request : PatchRequest) :
    (∃ failure, site.patch request = (.error (.failed failure), site) ∧
      (site.draft request = .error failure ∨
        ∃ patched fault, site.draft request = .ok patched ∧
          site.world.disk.write patched.path (Text.Utf8.encode patched.content) = .error fault ∧
          failure = .io patched.path fault.message)) ∨
      ∃ patched disk, site.draft request = .ok patched ∧
        site.world.disk.write patched.path (Text.Utf8.encode patched.content) = .ok disk ∧
        site.patch request = (.ok patched,
          ⟨{ site.session with
            sources := site.session.sources.insert patched.path patched.content },
          { site.world with disk := disk }⟩) := by
  have hpatch : (site.session.sources.patch request.file request.query request.text
      request.afterLine : Model (Except Failure Patched)) site.world =
      (site.draft request, site.world) :=
    patch_apply ..
  simp only [patch, World.runSession, Session.patch]
  rw [bind_ok get_apply, lift_bind hpatch]
  -- the draft is made before anything is written, and the session changes last
  cases site.draft request with
  | error failure =>
    rw [Session.orHalt, Except.mapError, bind_error (ofExcept_apply _)]
    exact .inl ⟨failure, rfl, .inl rfl⟩
  | ok patched =>
    rw [Session.orHalt, Except.mapError, bind_ok (ofExcept_apply _)]
    cases hwrite : site.world.disk.write patched.path (Text.Utf8.encode patched.content) with
    | error fault =>
      have hhost : (Host.write patched.path (Text.Utf8.encode patched.content) :
          Model (Except DiskFault Unit)) site.world = (.error fault, site.world) := by
        show Model.change _ site.world = _
        rw [Model.change, hwrite]
      rw [lift_bind hhost, Channel.orFailed_error, bind_error (ofExcept_apply _)]
      exact .inl ⟨_, rfl, .inr ⟨patched, fault, rfl, hwrite, rfl⟩⟩
    | ok disk =>
      have hhost : (Host.write patched.path (Text.Utf8.encode patched.content) :
          Model (Except DiskFault Unit)) site.world =
          (.ok (), { site.world with disk := disk }) := by
        show Model.change _ site.world = _
        rw [Model.change, hwrite]
      rw [lift_bind hhost, Channel.orFailed_ok, bind_ok (ofExcept_apply _)]
      exact .inr ⟨patched, disk, rfl, hwrite, rfl⟩

/-- What is patched has the text inserted. -/
theorem inserts_of_patchContent {query : Query} {afterLine : ℕ}
    (h : patchContent path content query text afterLine = .ok patched) :
    Inserts content text patched.content := by
  obtain ⟨-, hlocate, hinsert⟩ := patchContent_eq_ok_iff.mp h
  obtain ⟨lead, found, rest, hlines, hlocates, hspan⟩ := locate_eq_ok_iff.mp hlocate
  exact inserts_of_insert hlines hlocates.ne_nil (hspan ▸ hinsert)

/-! ## Patches on the disk -/

/-- A patch that succeeds puts its text, as asked, into what the file holds, and changes nothing
else. -/
structure Patches (request : PatchRequest) (patched : Patched) (before after : Disk)
    (content : String) (location : Location) : Prop where
  holds : before.HasFile patched.path location (Text.Utf8.encode content)
  result : patchContent patched.path content request.query request.text request.afterLine =
    .ok patched
  sets : before.Sets location (some (.file (Text.Utf8.encode patched.content))) after

/-- Every file is reached by spellings of one of the paths at most. -/
def AreApart (paths : List Path) (disk : Disk) : Prop :=
  ∀ path ∈ paths, ∀ other ∈ paths, ∀ location content, disk.HasFile path location content →
    disk.HasFile other location content → path.components = other.components

/-- Where the patches of some paths can go wrong nowhere. -/
structure IsSound (paths : List Path) (site : Site) : Prop where
  copies : site.session.sources.Copies site.world.disk
  apart : AreApart paths site.world.disk
  keys : ∀ path ∈ site.session.sources.paths, path ∈ paths

/-- After a patch every file has what it had, but for the patched one. -/
theorem Patches.hasFile (h : Patches request patched before after content location)
    {place : Location} {bytes : Bytes} (hfile : before.HasFile path place bytes) :
    after.HasFile path place
      (if place = location then Text.Utf8.encode patched.content else bytes) :=
  h.sets.hasFile h.holds.holds hfile

/-- Every file afterwards was one before. -/
theorem Patches.hasFile_before (h : Patches request patched before after content location)
    {place : Location} {bytes : Bytes} (hfile : after.HasFile path place bytes) :
    before.HasFile path place
      (if place = location then Text.Utf8.encode content else bytes) :=
  (h.sets.symm h.holds.holds).hasFile h.sets.at?_self hfile

/-- Files that are apart stay apart. -/
theorem Patches.areApart (h : Patches request patched before after content location)
    (hapart : AreApart paths before) : AreApart paths after :=
  fun path hpath other hother place _ hfile hfile' =>
    hapart path hpath other hother place _ (h.hasFile_before hfile) (h.hasFile_before hfile')

/-- A patch of a sound site goes into what the disk holds, and the site stays sound. -/
theorem IsSound.patch (h : IsSound paths site) (hfile : ∀ path ∈ request.file, path ∈ paths) :
    IsSound paths (site.patch request).2 ∧
      ((∃ halt, site.patch request = (.error halt, site)) ∨
        ∃ patched content location, (site.patch request).1 = .ok patched ∧
          Patches request patched site.world.disk (site.patch request).2.world.disk content
            location) := by
  rcases patch_cases site request with
    ⟨failure, hfailed, -⟩ | ⟨patched, disk, hdraft, hwrite, heq⟩
  · rw [hfailed]
    exact ⟨h, .inl ⟨_, rfl⟩⟩
  rw [heq]
  obtain ⟨content, htarget, hresult⟩ := draft_eq_ok_iff.mp hdraft
  have hmem : patched.path ∈ paths := by
    rcases htarget.path_cases with hrequest | ⟨-, hkey⟩
    · exact hfile patched.path hrequest
    · exact h.keys patched.path hkey
  -- the source has been read from the file, under this spelling of its path or another one
  obtain ⟨location, hpatches⟩ :
      ∃ location, Patches request patched site.world.disk disk content location := by
    rcases htarget.isSource with hget | ⟨-, hread⟩
    · obtain ⟨key, hkey⟩ := get?_eq_some_iff.mp hget
      obtain ⟨hcomponents, hread⟩ := h.copies _ key content hkey
      obtain ⟨location, hholds⟩ := Disk.read_eq_ok_iff.mp hread
      obtain ⟨hspelled, hsets⟩ := Disk.write_spelling hholds hcomponents.symm hwrite
      exact ⟨location, hspelled, hresult, hsets⟩
    · obtain ⟨location, hholds⟩ := Disk.read_eq_ok_iff.mp hread
      obtain ⟨hspelled, hsets⟩ := Disk.write_spelling hholds rfl hwrite
      exact ⟨location, hspelled, hresult, hsets⟩
  refine ⟨⟨?_, hpatches.areApart h.apart, ?_⟩,
    .inr ⟨patched, content, location, rfl, hpatches⟩⟩
  · refine copies_insert (fun components key old hkey => ?_) (Disk.read_write hwrite)
    obtain ⟨hcomponents, hread⟩ := h.copies components key old hkey
    obtain ⟨place, hholds⟩ := Disk.read_eq_ok_iff.mp hread
    refine ⟨hcomponents, _, Disk.read_eq_ok_iff.mpr ⟨place, hpatches.hasFile hholds⟩, ?_⟩
    intro hne
    refine if_neg fun heq => hne ?_
    subst heq
    have hsame : Text.Utf8.encode old = Text.Utf8.encode content := by
      simpa using hholds.holds.symm.trans hpatches.holds.holds
    have hkeys := h.keys key (mem_paths_iff.mpr ⟨components, old, hkey⟩)
    rw [← hcomponents]
    exact h.apart key hkeys patched.path hmem place _ (hsame ▸ hholds) hpatches.holds
  · intro path hpath
    rcases mem_paths_insert hpath with rfl | hkey
    · exact hmem
    · exact h.keys path hkey

/-- The first patch comes first. -/
theorem patches_cons (site : Site) (request : PatchRequest) (requests : List PatchRequest) :
    site.patches (request :: requests) = (site.patch request).2.patches requests := rfl

/-- Patches may be taken apart anywhere. -/
theorem patches_append (site : Site) (earlier later : List PatchRequest) :
    site.patches (earlier ++ later) = (site.patches earlier).patches later :=
  List.foldl_append ..

/-- A sound site stays sound, by induction on the patches. -/
theorem IsSound.patches (h : IsSound paths site)
    (hfiles : ∀ request ∈ requests, ∀ path ∈ request.file, path ∈ paths) :
    IsSound paths (site.patches requests) := by
  induction requests generalizing site with
  | nil => exact h
  | cons request requests ih =>
    obtain ⟨hfile, hmore⟩ := List.forall_mem_cons.mp hfiles
    exact ih (h.patch hfile).1 hmore

/-! ## What has been inserted -/

/-- The lines of an inserted text stand in a file, in their order. -/
def Stands (text : String) (path : Path) (disk : Disk) : Prop :=
  ∃ content, disk.read path = .ok (Text.Utf8.encode content) ∧
    (Text.lines (text.toList ++ ['\n'])).Sublist (Text.lines content.toList)

/-- The text of a patch stands in the file after it. -/
theorem Patches.stands_self (h : Patches request patched before after content location) :
    Stands request.text patched.path after := by
  have hfile := h.hasFile h.holds
  rw [if_pos rfl] at hfile
  exact ⟨patched.content, Disk.read_eq_ok_iff.mpr ⟨location, hfile⟩,
    (inserts_of_patchContent h.result).text_sublist⟩

/-- Closed lines stay, so a text stays that stands in a file. -/
theorem Patches.stands (h : Patches request patched before after content location)
    (hstands : Stands text path before) : Stands text path after := by
  obtain ⟨source, hread, hsub⟩ := hstands
  obtain ⟨place, hholds⟩ := Disk.read_eq_ok_iff.mp hread
  have hfile := h.hasFile hholds
  split_ifs at hfile with heq
  · subst heq
    have hsame : Text.Utf8.encode source = Text.Utf8.encode content := by
      simpa using hholds.holds.symm.trans h.holds.holds
    obtain rfl : source = content := by
      rw [← Option.some_inj, ← Text.Utf8.decode?_eq_some_iff.mpr hsame,
        Text.Utf8.decode?_eq_some_iff.mpr rfl]
    refine ⟨patched.content, Disk.read_eq_ok_iff.mpr ⟨place, hfile⟩, ?_⟩
    have hclosed := hsub.filter isClosed
    rw [filter_isClosed_concat] at hclosed
    exact hclosed.trans (inserts_of_patchContent h.result).keeps_closed
  · exact ⟨source, Disk.read_eq_ok_iff.mpr ⟨place, hfile⟩, hsub⟩

/-- It goes on standing there, whatever else is patched. -/
theorem IsSound.stands_patches (h : IsSound paths site)
    (hfiles : ∀ request ∈ requests, ∀ path ∈ request.file, path ∈ paths)
    (hstands : Stands text path site.world.disk) :
    Stands text path (site.patches requests).world.disk := by
  induction requests generalizing site with
  | nil => exact hstands
  | cons request requests ih =>
    obtain ⟨hfile, hmore⟩ := List.forall_mem_cons.mp hfiles
    obtain ⟨hnext, hcases⟩ := h.patch hfile
    rw [patches_cons]
    refine ih hnext hmore ?_
    rcases hcases with ⟨halt, hhalt⟩ | ⟨patched, content, location, -, hpatches⟩
    · rwa [hhalt]
    · exact hpatches.stands hstands

/-- Sources that have been loaded, or none: whatever is patched then, by name or in a file, a patch
goes into what its file holds, and the lines that it inserts stay there in their order, as long as
no file is reached by paths with different components. -/
theorem patch_stands
    (hsources : site.session.sources = .empty ∨ ∃ root,
      ((SourceTree.load root : Model (Except Failure SourceTree)) site.world).1 =
        .ok site.session.sources)
    (hapart : AreApart
      (site.session.sources.paths ++ (earlier ++ request :: later).filterMap (·.file))
      site.world.disk)
    (hpatched : ((site.patches earlier).patch request).1 = .ok patched) :
    (∃ content location,
      (site.patches earlier).world.disk.read patched.path = .ok (Text.Utf8.encode content) ∧
      Inserts content request.text patched.content ∧
      Patches request patched (site.patches earlier).world.disk
        (site.patches (earlier ++ [request])).world.disk content location) ∧
      Stands request.text patched.path
        (site.patches (earlier ++ request :: later)).world.disk := by
  have hsound : IsSound
      (site.session.sources.paths ++ (earlier ++ request :: later).filterMap (·.file)) site := by
    refine ⟨?_, hapart, fun path hpath => List.mem_append_left _ hpath⟩
    rcases hsources with hempty | ⟨root, hload⟩
    · rw [hempty]
      exact copies_empty site.world.disk
    · exact copies_load hload
  have hfiles : ∀ other ∈ earlier ++ request :: later, ∀ path ∈ other.file, path ∈
      site.session.sources.paths ++ (earlier ++ request :: later).filterMap (·.file) :=
    fun other hother path hpath =>
      List.mem_append_right _ (List.mem_filterMap.mpr ⟨other, hother, hpath⟩)
  obtain ⟨hearlier, hrest⟩ := List.forall_mem_append.mp hfiles
  obtain ⟨hrequest, hlater⟩ := List.forall_mem_cons.mp hrest
  obtain ⟨hnext, ⟨halt, hhalt⟩ | ⟨_, content, location, hresult, hpatches⟩⟩ :=
    (hsound.patches hearlier).patch hrequest
  · rw [hhalt] at hpatched
    cases hpatched
  cases hresult.symm.trans hpatched
  refine ⟨⟨content, location, ?_, inserts_of_patchContent hpatches.result, ?_⟩, ?_⟩
  · exact Disk.read_eq_ok_iff.mpr ⟨location, hpatches.holds⟩
  · rw [patches_append]
    exact hpatches
  · rw [patches_append]
    exact hnext.stands_patches hlater hpatches.stands_self

/-- A session whose sources have been loaded from a directory with one script. -/
def ofScript (script : String) : Site :=
  let disk := (Disk.empty.put ["src"] .directory).put ["src", "a.lua"]
    (.file (Text.Utf8.encode script))
  ⟨.start ⟨"mail"⟩ 100 (SourceTree.empty.insert ⟨"src/a.lua"⟩ script), .ofDisk disk⟩

/-- Patches under spellings of one path, and one by name, keep one another's texts. -/
theorem patch_stands_spellings :
    let site := ofScript "function f()\nend\n"
    let doubled : PatchRequest := ⟨some ⟨"src//a.lua"⟩, .line 1, "one()", 1⟩
    let named : PatchRequest := ⟨none, .name "f", "two()", 1⟩
    let dotted : PatchRequest := ⟨some ⟨"src/./a.lua"⟩, .line 2, "three()", 2⟩
    ((site.patches [doubled]).patch named).1 = .ok ⟨⟨"src/a.lua"⟩,
        "function f()\ntwo()\none()\nend\n", ⟨0, 23, "function f()\none()\nend\n"⟩⟩ ∧
      Stands "two()" ⟨"src/a.lua"⟩ (site.patches [doubled, named, dotted]).world.disk := by
  intro site doubled named dotted
  have hload : ((SourceTree.load ⟨"src"⟩ : Model (Except Failure SourceTree)) site.world).1 =
      .ok site.session.sources := by rfl
  have hcomponents : ∀ path ∈ site.session.sources.paths ++
      ([doubled] ++ named :: [dotted]).filterMap (·.file),
      path.components = [.normal "src", .normal "a.lua"] := by decide +kernel
  have hpatched : ((site.patches [doubled]).patch named).1 = .ok ⟨⟨"src/a.lua"⟩,
      "function f()\ntwo()\none()\nend\n", ⟨0, 23, "function f()\none()\nend\n"⟩⟩ := by
    decide +kernel
  have hapart : AreApart (site.session.sources.paths ++
      ([doubled] ++ named :: [dotted]).filterMap (·.file)) site.world.disk :=
    fun path hpath other hother _ _ _ _ =>
      (hcomponents path hpath).trans (hcomponents other hother).symm
  exact ⟨hpatched, (patch_stands (.inr ⟨⟨"src"⟩, hload⟩) hapart hpatched).2⟩

/-- A leading dot is a component. So a source that is loaded as `src/a.lua` and patched as
`./src/a.lua` is patched under its own name as it was before, and the first text is lost. And a text
of two lines does not stay in one piece when a third line is inserted between them. -/
theorem patch_undone :
    let site := ofScript "function f()\nend\n"
    let path : Path := ⟨"src/a.lua"⟩
    let dotted : PatchRequest := ⟨some ⟨"./src/a.lua"⟩, .name "f", "one()", 1⟩
    let plain : PatchRequest := ⟨some path, .name "f", "two()", 1⟩
    let pair : PatchRequest := ⟨none, .name "f", "one()\ntwo()", 1⟩
    let between : PatchRequest := ⟨none, .name "f", "three()", 2⟩
    let content (requests : List PatchRequest) := (site.patches requests).world.disk.read path
    ((SourceTree.load ⟨"src"⟩ : Model (Except Failure SourceTree)) site.world).1 =
        .ok site.session.sources ∧
      ((site.patch dotted).1 = .ok ⟨⟨"./src/a.lua"⟩, "function f()\none()\nend\n",
          ⟨0, 17, "function f()\nend\n"⟩⟩ ∧
        content [dotted] = .ok (Text.Utf8.encode "function f()\none()\nend\n") ∧
        ((site.patches [dotted]).patch plain).1 = .ok ⟨path, "function f()\ntwo()\nend\n",
          ⟨0, 17, "function f()\nend\n"⟩⟩ ∧
        content [dotted, plain] = .ok (Text.Utf8.encode "function f()\ntwo()\nend\n")) ∧
      (site.patch pair).1 = .ok ⟨path, "function f()\none()\ntwo()\nend\n",
          ⟨0, 17, "function f()\nend\n"⟩⟩ ∧
        ((site.patches [pair]).patch between).1 =
          .ok ⟨path, "function f()\none()\nthree()\ntwo()\nend\n",
            ⟨0, 29, "function f()\none()\ntwo()\nend\n"⟩⟩ ∧
        content [pair, between] =
          .ok (Text.Utf8.encode "function f()\none()\nthree()\ntwo()\nend\n") ∧
        ¬"one()\ntwo()".toList <:+: "function f()\none()\nthree()\ntwo()\nend\n".toList := by
  intro site path dotted plain pair between content
  refine ⟨?_, ⟨?_, ?_, ?_, ?_⟩, ?_, ?_, ?_, ?_⟩
  · rfl
  all_goals decide +kernel

end Site

end ScriptMailbox
