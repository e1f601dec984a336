import ScriptMailbox.Proofs.Disk.Branches
import ScriptMailbox.Proofs.Program.Leavings
import ScriptMailbox.Proofs.Source.Trees
import ScriptMailbox.Proofs.Text.Ends

/-!
# What is loaded

The sources of a directory are the script files below it that directories lead to, each under its
path and with its text (`load_loads`). Nothing is loaded if one of them has no text or cannot be
reached by its path; what a path that is too long leads to is not looked for.
-/

namespace ScriptMailbox

open Disk

/-! ## Hosts that show a disk -/

/-- A host that shows a disk finds and reads what is there, and finds each file below a directory
once, in some order. Nothing changes thereby. -/
structure Shows {τ : Type} [Host (StateM τ)] (host : τ) (disk : Disk) : Prop where
  kind? : ∀ path, (Host.kind? path : StateM τ (Option Kind)) host = (disk.kind? path, host)
  read : ∀ path,
    (Host.read path : StateM τ (Except DiskFault Bytes)) host = (disk.read path, host)
  filesBelow : ∀ path, ∃ paths,
    (Host.filesBelow path : StateM τ (List Path)) host = (paths, host) ∧
      paths.Perm (disk.filesBelow path)

/-- A world shows its disk. -/
theorem shows_world (world : World) : Shows world world.disk :=
  ⟨fun _ => rfl, fun _ => rfl, fun _ => ⟨_, rfl, .rfl⟩⟩

namespace SourceTree

variable {τ : Type} [Host (StateM τ)] {host : τ} {disk : Disk} {root path : Path} {top : Location}
  {names : List String} {name : String} {content : Bytes} {tree : SourceTree} {text : String}

/-! ## Script files -/

/-- The names of script files: something, and the extension behind it. -/
def IsScriptName (name : String) : Prop :=
  ∃ stem, stem ≠ [] ∧ name.toList = stem ++ ".lua".toList

/-- An extension is what stands behind the last dot, if something stands in front of it. -/
theorem extension?_eq_some_iff {fileName extension : List Char} :
    Path.extension? fileName = some extension ↔
      ∃ stem, stem ≠ [] ∧ fileName = stem ++ '.' :: extension ∧ '.' ∉ extension := by
  constructor
  · intro h
    simp only [Path.extension?] at h
    split at h
    · rename_i last stem hdrop
      cases h
      obtain ⟨hwhole, hdot⟩ := Text.eq_of_dropWhile_reverse hdrop
      exact ⟨_, by simp, hwhole, hdot⟩
    · cases h
  · rintro ⟨stem, hstem, rfl, hdot⟩
    obtain ⟨htake, hdrop⟩ := Text.splitAtLast stem hdot
    obtain ⟨last, before, hreverse⟩ :=
      List.exists_cons_of_ne_nil (List.reverse_ne_nil_iff.mpr hstem)
    simp only [Path.extension?, htake, hdrop, hreverse, List.reverse_reverse]

/-- Whether a file is a script can be seen from its name. -/
theorem isScript_join (hname : IsEntryName name) (hpath : path.text ≠ "") :
    isScript (path.join name) = true ↔ IsScriptName name := by
  have hfile : (path.join name).fileName? = some name := by
    rw [Path.fileName?, Path.components_join hname hpath, List.getLast?_concat]
  rw [isScript, hfile, Option.bind_some, beq_iff_eq, extension?_eq_some_iff]
  refine exists_congr fun stem => and_congr_right fun _ => ?_
  have hextension : '.' :: scriptExtension.toList = ".lua".toList := rfl
  rw [hextension]
  exact and_iff_left (by decide)

/-- Whether names lead from a directory down to a script file, through directories alone, and the
path of the directory that contains it is not too long. -/
structure IsScriptBelow (disk : Disk) (root : Path) (top : Location) (names : List String)
    (content : Bytes) : Prop where
  file : disk.at? (top ++ names) = some (.file content)
  inside : names.head? ≠ some outerName
  script : ∃ name ∈ names.getLast?, IsScriptName name
  reached : (root.joinAll names.dropLast).text.utf8ByteSize ≤ Path.byteLimit

/-- Why a script file has no text. -/
inductive Refuses (root : Path) (names : List String) (content : Bytes) : String → Prop
  | tooLong (h : Path.byteLimit < (root.joinAll names).text.utf8ByteSize) :
    Refuses root names content DiskFault.nameTooLong.message
  | notText (hshort : (root.joinAll names).text.utf8ByteSize ≤ Path.byteLimit)
    (h : ∀ text, content ≠ Text.Utf8.encode text) : Refuses root names content TextFile.notText

/-- What comes out when the sources of a directory are loaded: the refusal of one of them, or a tree
that has each of them under its path, and no other path. -/
inductive Loads (disk : Disk) (root : Path) (top : Location) : Except Failure SourceTree → Prop
  | refused {names : List String} {content : Bytes} {cause : String}
    (hsource : IsScriptBelow disk root top names content) (h : Refuses root names content cause) :
    Loads disk root top (.error (.io (root.joinAll names) cause))
  | loaded {tree : SourceTree}
    (hpaths : ∀ path, path ∈ tree.paths ↔
      ∃ names content, IsScriptBelow disk root top names content ∧ path = root.joinAll names)
    (htexts : ∀ names content, IsScriptBelow disk root top names content →
      (root.joinAll names).text.utf8ByteSize ≤ Path.byteLimit ∧ ∃ text,
        content = Text.Utf8.encode text ∧ tree.get? (root.joinAll names) = some text) :
    Loads disk root top (.ok tree)

/-- A script below a directory has a name there. -/
theorem IsScriptBelow.ne_nil (h : IsScriptBelow disk root top names content) : names ≠ [] := by
  rintro rfl
  obtain ⟨name, hname, -⟩ := h.script
  cases hname

/-- Its names are those of files. -/
theorem IsScriptBelow.isFileName (h : IsScriptBelow disk root top names content)
    (hnamed : disk.IsNamed) : ∀ name ∈ names, IsFileName name :=
  hnamed.isFileName (by rw [h.file]; rfl) h.inside

/-- What is below a directory is not the directory itself, nor beyond the work directory. -/
theorem below?_append : top.below? (top ++ names) = some names ↔
    names ≠ [] ∧ names.head? ≠ some outerName := by
  rw [Location.below?, Text.dropStart?_eq_some_iff.mpr rfl]
  cases names with
  | nil => simp
  | cons name names => by_cases h : name = outerName <;> simp [h]

/-- What is found below a directory are the files whose directory has a path that is short
enough. -/
theorem mem_filesBelow_iff (hroot : root.fault? = none) (hleads : disk.Leads root top) :
    path ∈ disk.filesBelow root ↔ ∃ names content,
      disk.at? (top ++ names) = some (.file content) ∧
        (names ≠ [] ∧ names.head? ≠ some outerName) ∧
        (root.joinAll names.dropLast).fault? = none ∧ path = root.joinAll names := by
  obtain ⟨hresolve, -⟩ := resolve_directory_iff.mpr ⟨hroot, hleads⟩
  rw [filesBelow, hresolve]
  simp only [List.mem_filterMap, Prod.exists, mem_below_iff, below?_append]
  constructor
  · rintro ⟨names, entry, ⟨hentry, hinside⟩, heq⟩
    split at heq
    · rename_i content
      split_ifs at heq with hfault
      cases heq
      exact ⟨names, content, hentry, hinside, Option.isNone_iff_eq_none.mp hfault, rfl⟩
    · cases heq
  · rintro ⟨names, content, hentry, hinside, hfault, rfl⟩
    refine ⟨names, _, ⟨hentry, hinside⟩, ?_⟩
    exact if_pos (Option.isNone_iff_eq_none.mpr hfault)

/-- The script files among them are the sources. -/
theorem mem_scripts_iff (hnamed : disk.IsNamed) (hroot : root.fault? = none)
    (hleads : disk.Leads root top) :
    path ∈ (disk.filesBelow root).filter isScript ↔
      ∃ names content, IsScriptBelow disk root top names content ∧ path = root.joinAll names := by
  have hwhole := Path.isWhole_of_fault? hroot
  rw [List.mem_filter, mem_filesBelow_iff hroot hleads]
  constructor
  · rintro ⟨⟨names, content, hfile, ⟨hne, hinside⟩, hfault, rfl⟩, hscript⟩
    have hnames := hnamed.isFileName (by rw [hfile]; rfl) hinside
    obtain ⟨above, name, rfl⟩ := List.eq_nil_or_concat' names |>.resolve_left hne
    rw [List.forall_mem_append, List.forall_mem_singleton] at hnames
    refine ⟨_, content, ⟨hfile, hinside, ⟨name, by simp, ?_⟩, ?_⟩, rfl⟩
    · -- the extension is that of the last name
      rw [Path.joinAll_concat] at hscript
      exact (isScript_join hnames.2.toIsEntryName (hwhole.joinAll hnames.1).ne_empty).mp hscript
    · rw [List.dropLast_concat] at hfault ⊢
      rw [Path.fault?_joinAll hnames.1 hroot] at hfault
      split_ifs at hfault with hlong
      exact not_lt.mp hlong
  · rintro ⟨names, content, hsource, rfl⟩
    have hnames := hsource.isFileName hnamed
    refine ⟨⟨names, content, hsource.file, ⟨hsource.ne_nil, hsource.inside⟩, ?_, rfl⟩, ?_⟩
    · rw [Path.fault?_joinAll (fun name hmem => hnames name (List.mem_of_mem_dropLast hmem)) hroot,
        if_neg (not_lt.mpr hsource.reached)]
    · obtain ⟨above, name, rfl⟩ := List.eq_nil_or_concat' names |>.resolve_left hsource.ne_nil
      obtain ⟨last, hlast, hscript⟩ := hsource.script
      rw [List.getLast?_concat] at hlast
      cases hlast
      rw [List.forall_mem_append, List.forall_mem_singleton] at hnames
      rw [Path.joinAll_concat]
      exact (isScript_join hnames.2.toIsEntryName (hwhole.joinAll hnames.1).ne_empty).mpr hscript

/-! ## Reading -/

/-- The text of a file on a disk. -/
def textAt (disk : Disk) (path : Path) : Except Failure String :=
  TextFile.textOf path (disk.read path)

/-- Files are loaded one after the other, up to the first that is no text. -/
theorem loadFiles_shows (hshows : Shows host disk) (tree : SourceTree) (paths : List Path) :
    (∃ path ∈ paths, ∃ failure, textAt disk path = .error failure ∧
        (loadFiles tree paths : StateM τ (Except Failure SourceTree)) host =
          (.error failure, host)) ∨
      ∃ files : List (Path × String), files.map Prod.fst = paths ∧
        (∀ file ∈ files, textAt disk file.1 = .ok file.2) ∧
        (loadFiles tree paths : StateM τ (Except Failure SourceTree)) host =
          (.ok (files.foldl (fun tree file => tree.insert file.1 file.2) tree), host) := by
  induction paths generalizing tree with
  | nil => exact .inr ⟨[], rfl, by simp, rfl⟩
  | cons path paths ih =>
    have hread : (TextFile.read path : StateM τ (Except Failure String)) host =
        (textAt disk path, host) := host_bind (hshows.read path)
    rw [loadFiles, host_bind hread]
    cases htext : textAt disk path with
    | error failure => exact .inl ⟨path, List.mem_cons_self, failure, htext, rfl⟩
    | ok text =>
      rcases ih (tree.insert path text) with ⟨other, hmem, hrest⟩ | ⟨files, rfl, htexts, hload⟩
      · exact .inl ⟨other, List.mem_cons_of_mem _ hmem, hrest⟩
      · exact .inr ⟨(path, text) :: files, rfl,
          List.forall_mem_cons.mpr ⟨htext, htexts⟩, hload⟩

/-- A script file has its content as its text, or is refused. -/
theorem textAt_joinAll (hnamed : disk.IsNamed) (hroot : root.fault? = none)
    (hleads : disk.Leads root top) (h : IsScriptBelow disk root top names content) :
    (∃ text, textAt disk (root.joinAll names) = .ok text ∧ content = Text.Utf8.encode text ∧
        (root.joinAll names).text.utf8ByteSize ≤ Path.byteLimit) ∨
      ∃ cause, textAt disk (root.joinAll names) = .error (.io (root.joinAll names) cause) ∧
        Refuses root names content cause := by
  have hread := read_joinAll hleads (h.isFileName hnamed) hroot h.ne_nil h.file
  rw [textAt, hread]
  split_ifs with hlong
  · exact .inr ⟨_, rfl, .tooLong hlong⟩
  · have hshort := not_lt.mp hlong
    cases hdecode : Text.Utf8.decode? content with
    | none =>
      refine .inr ⟨_, by rw [TextFile.textOf, hdecode], .notText hshort fun text htext => ?_⟩
      rw [Text.Utf8.decode?_eq_some_iff.mpr htext] at hdecode
      cases hdecode
    | some text =>
      exact .inl ⟨text, by rw [TextFile.textOf, hdecode],
        Text.Utf8.decode?_eq_some_iff.mp hdecode, hshort⟩

/-! ## The tree -/

variable {files : List (Path × String)}

/-- What comes last under a path is a file of that path. -/
theorem of_lastUnder {components : List Component} {file : Path × String}
    (h : lastUnder files components = some file) :
    file ∈ files ∧ file.1.components = components := by
  have hcomponents := List.find?_some h
  exact ⟨List.mem_reverse.mp (List.mem_of_find?_eq_some h), of_decide_eq_true hcomponents⟩

/-- Every file has a last one under its path. -/
theorem exists_lastUnder {file : Path × String} (h : file ∈ files) :
    ∃ last, lastUnder files file.1.components = some last := by
  rw [← Option.isSome_iff_exists, lastUnder, List.find?_isSome]
  exact ⟨file, List.mem_reverse.mpr h, decide_eq_true rfl⟩

/-- Where each path has one spelling among some files, these spellings are the paths of the tree. -/
theorem mem_paths_iff_of_injective
    (h : ∀ file ∈ files, ∀ other ∈ files, file.1.components = other.1.components →
      file.1 = other.1) : path ∈ (ofFiles files).paths ↔ path ∈ files.map Prod.fst := by
  rw [mem_paths_ofFiles_iff, List.mem_map]
  constructor
  · intro hfirst
    obtain ⟨file, hfile, rfl⟩ := Option.map_eq_some_iff.mp hfirst
    exact ⟨file, (of_firstUnder hfile).1, rfl⟩
  · rintro ⟨file, hfile, rfl⟩
    obtain ⟨first, hfirst⟩ := exists_firstUnder hfile
    obtain ⟨hmem, hcomponents⟩ := of_firstUnder hfirst
    rw [hfirst, Option.map_some, h first hmem file hfile hcomponents]

/-- A tree with the text of every script below a directory is what loading should give. -/
theorem loads_of_files (hnamed : disk.IsNamed) (hroot : root.fault? = none)
    (hleads : disk.Leads root top)
    (hpaths : ∀ path, path ∈ files.map Prod.fst ↔
      ∃ names content, IsScriptBelow disk root top names content ∧ path = root.joinAll names)
    (htexts : ∀ file ∈ files, textAt disk file.1 = .ok file.2) :
    Loads disk root top (.ok (ofFiles files)) := by
  have hwhole := Path.isWhole_of_fault? hroot
  have hsource {file : Path × String} (hfile : file ∈ files) : ∃ names content,
      IsScriptBelow disk root top names content ∧ file.1 = root.joinAll names :=
    (hpaths file.1).mp (List.mem_map_of_mem hfile)
  -- different scripts have different components, so none hides another one
  have hinjective : ∀ file ∈ files, ∀ other ∈ files,
      file.1.components = other.1.components → file.1 = other.1 := by
    intro file hfile other hother hcomponents
    obtain ⟨names, content, hnames, hpath⟩ := hsource hfile
    obtain ⟨names', content', hnames', hpath'⟩ := hsource hother
    rw [hpath, hpath'] at hcomponents ⊢
    rw [Path.names_eq_of_components (hnames.isFileName hnamed) (hnames'.isFileName hnamed) hwhole
      hcomponents]
  refine .loaded (fun path => (mem_paths_iff_of_injective hinjective).trans (hpaths path))
    fun names content h => ?_
  obtain ⟨file, hfile, hpath⟩ := List.mem_map.mp ((hpaths _).mpr ⟨names, content, h, rfl⟩)
  obtain ⟨last, hlast⟩ := exists_lastUnder hfile
  obtain ⟨hmem, hcomponents⟩ := of_lastUnder hlast
  have hsame : last.1 = root.joinAll names :=
    (hinjective last hmem file hfile hcomponents).trans hpath
  have hread := htexts last hmem
  rw [hsame] at hread
  rcases textAt_joinAll hnamed hroot hleads h with
    ⟨text, htext, hcontent, hshort⟩ | ⟨cause, herr, -⟩
  · refine ⟨hshort, text, hcontent, ?_⟩
    rw [get?_ofFiles, ← hpath, hlast, Option.map_some]
    exact congrArg some (Except.ok.inj (hread.symm.trans htext))
  · cases hread.symm.trans herr

/-- A path leads to a directory exactly if something of this kind is found there. -/
theorem kind?_eq_directory_iff :
    disk.kind? root = some .directory ↔ root.fault? = none ∧ ∃ top, disk.Leads root top := by
  rw [← exists_and_left]
  simp only [← resolve_directory_iff]
  rw [Disk.kind?]
  cases hresolve : disk.resolve .target root with
  | error fault => simp
  | ok location =>
    rcases hentry : disk.at? location with _ | content | _ | target <;> simp [hentry]

/-- Loading finds exactly the script files below a directory. A path that leads to no directory is
missing; if one of the files is refused, so is the whole directory; otherwise the tree has each of
them under its path and nothing else. The host stays as it is. -/
theorem load_loads (hshows : Shows host disk) (hnamed : disk.IsNamed) (root : Path) :
    (disk.kind? root ≠ some .directory →
        (load root : StateM τ (Except Failure SourceTree)) host =
          (.error (.missingFile root), host)) ∧
      (disk.kind? root = some .directory → ∃ top, disk.Leads root top ∧ ∃ result,
        (load root : StateM τ (Except Failure SourceTree)) host = (result, host) ∧
          Loads disk root top result) := by
  have hload : (load root : StateM τ (Except Failure SourceTree)) host =
      (if disk.kind? root = some .directory then do
        let paths ← Host.filesBelow root
        loadFiles empty (paths.filter isScript)
      else pure (.error (.missingFile root)) : StateM τ (Except Failure SourceTree)) host :=
    host_bind (hshows.kind? root)
  refine ⟨fun hkind => ?_, fun hkind => ?_⟩
  · rw [if_neg hkind] at hload
    exact hload
  · obtain ⟨hroot, top, hleads⟩ := kind?_eq_directory_iff.mp hkind
    obtain ⟨paths, hfound, hperm⟩ := hshows.filesBelow root
    rw [if_pos hkind, host_bind hfound] at hload
    have hmem (path : Path) : path ∈ paths.filter isScript ↔ ∃ names content,
        IsScriptBelow disk root top names content ∧ path = root.joinAll names := by
      rw [(hperm.filter _).mem_iff]
      exact mem_scripts_iff hnamed hroot hleads
    refine ⟨top, hleads, ?_⟩
    -- reading stops at the first file that is refused
    rcases loadFiles_shows hshows empty (paths.filter isScript) with
      ⟨path, hpath, failure, herror, hrest⟩ | ⟨files, hfiles, htexts, hrest⟩
    · refine ⟨_, hload.trans hrest, ?_⟩
      obtain ⟨names, content, hsource, rfl⟩ := (hmem path).mp hpath
      rcases textAt_joinAll hnamed hroot hleads hsource with ⟨text, htext, -⟩ | ⟨cause, hcause, h⟩
      · cases herror.symm.trans htext
      · cases herror.symm.trans hcause
        exact .refused hsource h
    · exact ⟨_, hload.trans hrest,
        loads_of_files hnamed hroot hleads (fun path => hfiles ▸ hmem path) htexts⟩

/-- A directory `s` with two script files below it, other entries with similar names, and a link `k`
to the directory. -/
def scripts : Disk :=
  [(["s"], .directory), (["s", "a.lua"], .file (Text.Utf8.encode "one")),
    (["s", "b"], .directory), (["s", "b", "c..lua"], .file (Text.Utf8.encode "two")),
    (["s", ".lua"], .file []), (["s", "x.lua.txt"], .file []), (["s", "d.lua"], .directory),
    (["s", "l.lua"], .link ⟨"a.lua"⟩), (["k"], .link ⟨"s"⟩)].foldl
    (fun disk (entry : Location × Entry) => disk.put entry.1 entry.2) Disk.empty

/-- The names of this disk are names of files. -/
theorem isNamed_scripts : scripts.IsNamed := by
  intro directory name hentry houter
  obtain ⟨entry, hat⟩ := Option.isSome_iff_exists.mp hentry
  have hmem : (directory ++ [name], entry) ∈ scripts.entries.descendants :=
    (Forest.mem_descendants_iff scripts.ordered).mpr ⟨by simp, hat⟩
  have hall : ∀ pair ∈ scripts.entries.descendants, pair.1 ≠ Location.outer →
      ∀ name ∈ pair.1.getLast?, IsFileName name := by decide +kernel
  exact hall _ hmem houter name (by simp)

/-- Under the link, both files are loaded and nothing else. -/
theorem load_loads_scripts :
    let tree := ofFiles [(⟨"k/a.lua"⟩, "one"), (⟨"k/b/c..lua"⟩, "two")]
    (load ⟨"k"⟩ : Model (Except Failure SourceTree)) (.ofDisk scripts) =
        (.ok tree, .ofDisk scripts) ∧
      Loads scripts ⟨"k"⟩ ["s"] (.ok tree) := by
  intro tree
  obtain ⟨top, hleads, result, hload, hloads⟩ :=
    (load_loads (shows_world (.ofDisk scripts)) isNamed_scripts ⟨"k"⟩).2 (by decide +kernel)
  have htop : scripts.Leads ⟨"k"⟩ ["s"] := by decide +kernel
  obtain rfl := hleads.unique htop
  have hresult : ((load ⟨"k"⟩ : Model (Except Failure SourceTree)) (.ofDisk scripts)).1 =
      .ok tree := by decide +kernel
  rw [hload] at hresult
  obtain rfl : result = .ok tree := hresult
  exact ⟨hload, hloads⟩

/-- A mailbox `t` with an empty script file. -/
def scriptMailbox : Disk :=
  Program.emptyMailbox.put ["t", "a.lua"] (.file [])

section

variable {count : ℕ}

/-- All these paths lead to the same directory of scripts. -/
theorem leads_scriptMailbox (count : ℕ) : scriptMailbox.Leads ⟨Program.slashed count⟩ ["t"] := by
  rw [Leads, origin, Program.names_slashed, Path.isAbsolute, Program.toList_slashed]
  exact ⟨by rfl, by rfl⟩

/-- Below a path that is just short enough for the machine, no script can be read. -/
theorem load_slashed (hcount : count + 1 = Path.byteLimit) :
    let root : Path := ⟨Program.slashed count⟩
    scriptMailbox.kind? root = some .directory ∧
      (load root : Model (Except Failure SourceTree)) (.ofDisk scriptMailbox) =
        (.error (.io (root.join "a.lua") DiskFault.nameTooLong.message),
          .ofDisk scriptMailbox) := by
  intro root
  have hname : IsFileName "a.lua" := by decide +kernel
  have hnames : ∀ name ∈ ["a.lua"], IsFileName name := List.forall_mem_singleton.mpr hname
  have hsize : root.text.utf8ByteSize = Path.byteLimit :=
    (Program.utf8ByteSize_slashed count).trans hcount
  have hroot : root.fault? = none := by
    rw [Program.fault?_slashed, if_neg (by omega)]
  have hleads := leads_scriptMailbox count
  have hkind : (World.ofDisk scriptMailbox).disk.kind? root = some .directory :=
    kind?_eq_directory_iff.mpr ⟨hroot, ["t"], hleads⟩
  have hfile : scriptMailbox.at? (["t"] ++ ["a.lua"]) = some (.file []) := by decide +kernel
  have hbelow : scriptMailbox.below ["t"] = [(["a.lua"], .file [])] := by decide +kernel
  have hfound : ((World.ofDisk scriptMailbox).disk.filesBelow root).filter isScript =
      [root.join "a.lua"] := by
    have hscript : isScript (root.join "a.lua") = true :=
      (isScript_join hname.toIsEntryName (Path.isWhole_of_fault? hroot).ne_empty).mpr
        ⟨['a'], by decide, by decide⟩
    obtain ⟨hresolve, -⟩ := resolve_directory_iff.mpr ⟨hroot, hleads⟩
    rw [World.ofDisk, filesBelow, hresolve]
    simp only [hbelow, List.filterMap_cons, List.dropLast_singleton, List.foldl_nil, hroot,
      Option.isNone_none, if_true, List.foldl_cons, List.filterMap_nil, List.filter_cons, hscript,
      List.filter_nil]
  have hread : (World.ofDisk scriptMailbox).disk.read (root.join "a.lua") =
      .error .nameTooLong :=
    (read_joinAll hleads hnames hroot (List.cons_ne_nil _ _) hfile).trans
      (if_pos (hsize ▸ Path.utf8ByteSize_lt_join root hname.toIsEntryName))
  refine ⟨hkind, ?_⟩
  rw [load_apply, if_pos hkind, hfound, loadFiles_cons, hread]
  rfl

end

/-- Below a path that is just short enough for the machine, a file that is text is refused. -/
theorem load_refuses_slashed :
    let root : Path := ⟨Program.slashed 4094⟩
    (∀ pair ∈ scriptMailbox.entries.descendants,
        pair.2 = .directory ∨ pair.2 = .file (Text.Utf8.encode "")) ∧
      scriptMailbox.kind? root = some .directory ∧
      (load root : Model (Except Failure SourceTree)) (.ofDisk scriptMailbox) =
        (.error (.io (root.join "a.lua") DiskFault.nameTooLong.message),
          .ofDisk scriptMailbox) :=
  ⟨by decide +kernel, load_slashed rfl⟩

end SourceTree

end ScriptMailbox
