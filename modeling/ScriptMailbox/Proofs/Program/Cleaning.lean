import ScriptMailbox.Proofs.Disk.Branches
import ScriptMailbox.Proofs.Program.StaleFiles
import Mathlib.Data.List.Nodup

/-!
# Cleaning a mailbox

A sweep with which nobody interferes takes away the exchange files whose paths are short enough for
the machine, reports each of them once, and reports the others as failures; nothing else changes. So
a second sweep finds nothing to take away (`sweep_cleans`).
-/

namespace ScriptMailbox

open Disk Mailbox

/-! ## Paths that are too long -/

/-- Whether the path of an entry and its name are short enough for the machine. -/
def IsShort (root : Path) (name : String) : Prop :=
  (root.join name).text.utf8ByteSize ≤ Path.byteLimit ∧ name.utf8ByteSize ≤ nameLimit

instance (root : Path) (name : String) : Decidable (IsShort root name) :=
  inferInstanceAs (Decidable (_ ∧ _))

variable {root : Path} {directory location : Location} {name : String} {names : List String}
  {disk before after : Disk} {listing : Listing}

/-- The name of an exchange file has no NUL. -/
theorem nul_not_mem_of_isExchangeName (h : isExchangeName name = true) :
    '\x00' ∉ name.toList := by
  obtain ⟨start, digits, hstart, hname, -, hdigits⟩ := isExchangeName_iff.mp h
  rw [hname, List.mem_append, List.mem_append]
  rintro (hmem | hmem | hmem)
  · rcases hstart with rfl | rfl
    · exact absurd hmem (by decide)
    · exact absurd hmem (by decide)
  · have := hdigits _ hmem
    simp at this
  · exact absurd hmem (by decide)

/-- So its path is taken by the system exactly when neither the path nor the name is too long. -/
theorem isFit_iff_isShort (hname : isExchangeName name = true) (hroot : root.fault? = none) :
    IsFit root name ↔ IsShort root name := by
  rw [IsFit, IsShort, Path.fault?_join (isEntryName_of_isExchangeName hname)
    (nul_not_mem_of_isExchangeName hname) hroot]
  simp

/-- A file whose path is too long is not deleted. -/
theorem removeFile_of_not_isShort (hname : isExchangeName name = true) (hroot : root.fault? = none)
    (hleads : disk.Leads root directory) (h : ¬IsShort root name) :
    disk.removeFile (root.join name) = .error .nameTooLong := by
  have hentry := isEntryName_of_isExchangeName hname
  have hresolve : disk.resolve .entry (root.join name) = .error .nameTooLong := by
    rw [resolve, Path.fault?_join hentry (nul_not_mem_of_isExchangeName hname) hroot]
    split_ifs with hlong
    · rfl
    · have hlongName : nameLimit < name.utf8ByteSize := by
        by_contra hshort
        exact h ⟨not_lt.mp hlong, not_lt.mp hshort⟩
      have hplace : Arrival.entry = .place → [name] ≠ [""] := fun h => by cases h
      obtain ⟨left, hleft⟩ := walk_append linkLimit root.names (List.cons_ne_nil name []) hplace
        (at?_start disk root)
      obtain ⟨hwalk, hdirectory⟩ := hleads
      rw [resolveFrom] at hwalk
      simp only [resolveFrom, origin_join hentry, Path.steps_join hentry, hleft, hwalk,
        if_pos hdirectory]
      rw [walk_eq, advance_name hentry.toIsName, if_neg (by simp), if_pos hlongName]
  rw [removeFile, hresolve]

/-! ## What a sweep does -/

/-- The names of exchange files, as they are written: a start, digits, and the extension. -/
def HasExchangeForm (name : String) : Prop :=
  ∃ start digits, (start = "in" ∨ start = "out") ∧
    name.toList = start.toList ++ (digits ++ ".txt".toList) ∧ digits ≠ [] ∧
    ∀ c ∈ digits, c.isDigit = true

/-- The names that have the form of an exchange file are those that a sweep deletes. -/
theorem hasExchangeForm_iff : HasExchangeForm name ↔ isExchangeName name = true := by
  rw [isExchangeName_iff]
  exact exists_congr fun start => exists_congr fun digits => and_congr_left' or_comm

/-- Whether an entry of a mailbox is an exchange file. -/
structure IsExchangeFile (disk : Disk) (directory : Location) (name : String) : Prop where
  form : HasExchangeForm name
  file : ∃ content, disk.at? (directory ++ [name]) = some (.file content)

/-- What a sweep makes of a mailbox: the exchange files are gone whose paths are short enough, and
nothing else. Each of them has been reported once, and so have the others as failures. -/
structure Cleans (root : Path) (directory : Location) (before after : Disk)
    (report : SweepReport) : Prop where
  gone : ∀ name, IsExchangeFile before directory name → IsShort root name →
    after.at? (directory ++ [name]) = none
  kept : ∀ location, (∀ name, IsExchangeFile before directory name → IsShort root name →
    location ≠ directory ++ [name]) → after.at? location = before.at? location
  removed_nodup : report.removed.Nodup
  mem_removed_iff : ∀ path, path ∈ report.removed ↔
    ∃ name, IsExchangeFile before directory name ∧ IsShort root name ∧ path = root.join name
  failed_nodup : (report.failed.map Prod.fst).Nodup
  mem_failed_iff : ∀ path fault, (path, fault) ∈ report.failed ↔
    ∃ name, IsExchangeFile before directory name ∧ ¬IsShort root name ∧
      path = root.join name ∧ fault = .nameTooLong

/-- The report of the deletion of some files. -/
def reportOf (root : Path) (names : List String) : SweepReport where
  removed := (names.filter fun name => IsShort root name).map root.join
  failed := (names.filter fun name => ¬IsShort root name).map fun name =>
    (root.join name, .nameTooLong)

namespace Stage

variable {stage : Stage}

/-- The stage with another disk and something more that has happened. -/
def goOn (stage : Stage) (disk : Disk) (operations : List Operation) : Stage :=
  { stage with
    scene := { stage.scene with disk := disk }
    history := stage.history ++ operations.map .own }

/-- Where nobody will act, a deletion changes the disk alone. -/
theorem removeFile_quiet (path : Path) (h : stage.future = []) :
    (Host.removeFile path : Play _) stage =
      ((stage.scene.disk.removeFile path).map fun _ => (),
        stage.goOn (stage.scene.disk.discard path)
          [.removed path ((stage.scene.disk.removeFile path).map fun _ => ())]) := by
  show Stage.perform _ _ stage = _
  rw [perform, pass_of_future_nil h, Scene.change, Disk.discard]
  cases stage.scene.disk.removeFile path <;> rfl

/-- A stage that goes on twice goes on. -/
theorem goOn_goOn (stage : Stage) (disk other : Disk) (first more : List Operation) :
    (stage.goOn disk first).goOn other more = stage.goOn other (first ++ more) := by
  simp [goOn]

/-- With nobody around, deleting some files is what a disk makes of it, and the report tells which
ones went. -/
theorem removeAll_quiet {directory : Location} {names : List String} (hquiet : stage.future = [])
    (hroot : root.fault? = none) (hleads : stage.scene.disk.Leads root directory)
    (hnodup : names.Nodup)
    (hnames : ∀ name ∈ names, isExchangeName name = true ∧
      ∃ content, stage.scene.disk.at? (directory ++ [name]) = some (.file content)) :
    ∃ operations, (removeAll root names : Play SweepReport) stage =
      (reportOf root names, stage.goOn (discardAll root names stage.scene.disk) operations) := by
  -- on the files to delete: what is deleted first leaves the others where they are
  induction names generalizing stage with
  | nil => exact ⟨[], Prod.ext rfl (by simp [goOn, discardAll, removeAll]; rfl)⟩
  | cons name names ih =>
    obtain ⟨hfirst, hrest⟩ := List.forall_mem_cons.mp hnames
    obtain ⟨hname, content, hfile⟩ := hfirst
    obtain ⟨hother, hnodup⟩ := List.nodup_cons.mp hnodup
    have hplain : stage.scene.disk.IsPlain (directory ++ [name]) := by simp [IsPlain, hfile]
    have hloses := loses_discard hname hleads hplain
    let after := stage.scene.disk.discard (root.join name)
    let result := (stage.scene.disk.removeFile (root.join name)).map fun _ => ()
    have hgoes : (stage.goOn after [.removed (root.join name) result]).future = [] := hquiet
    obtain ⟨operations, hremove⟩ := ih hgoes
      (hloses.leads (List.forall_mem_singleton.mpr hplain) hleads) hnodup
      fun other hmem => by
        obtain ⟨hexchange, content, hentry⟩ := hrest other hmem
        refine ⟨hexchange, content, ?_⟩
        show after.at? _ = _
        rw [hloses.kept, hentry]
        rintro gone hgone - heq
        rw [List.mem_singleton.mp hgone] at heq
        rw [List.singleton_inj.mp (List.append_cancel_left heq)] at hmem
        exact hother hmem
    refine ⟨.removed (root.join name) result :: operations, ?_⟩
    rw [removeAll, host_bind (removeFile_quiet _ hquiet), host_bind hremove, goOn_goOn]
    -- whether a file can be deleted is known from its path alone
    have hreport : (reportOf root names).note (root.join name) result =
        reportOf root (name :: names) := by
      by_cases hshort : IsShort root name
      · have hresult : result = .ok () := by
          show Except.map _ (removeFile _ _) = _
          rw [removeFile_exchange hname ((isFit_iff_isShort hname hroot).mpr hshort) hleads hfile]
          rfl
        simp [hresult, SweepReport.note, reportOf, hshort]
      · have hresult : result = .error .nameTooLong := by
          show Except.map _ (removeFile _ _) = _
          rw [removeFile_of_not_isShort hname hroot hleads hshort]
          rfl
        simp [hresult, SweepReport.note, reportOf, hshort]
    rw [← hreport]
    rfl

/-- The exchange files that a sweep deletes. -/
def swept (listing : Listing) (directory : Location) (disk : Disk) : List String :=
  (listing.order (Model.regularNames (disk.children directory))).filter isExchangeName

/-- A sweep deletes no name twice. -/
theorem nodup_swept (listing : Listing) (directory : Location) (disk : Disk) :
    (swept listing directory disk).Nodup :=
  (((listing.perm _).nodup_iff).mpr ((pairwise_regularNames disk directory).imp ne_of_lt)).filter _

/-- It deletes exactly the exchange files. -/
theorem mem_swept_iff :
    name ∈ swept listing directory disk ↔ IsExchangeFile disk directory name := by
  rw [swept, List.mem_filter, (listing.perm _).mem_iff, mem_regularNames_iff,
    Option.isSome_iff_exists]
  simp only [fileAt?_eq_some_iff]
  constructor
  · rintro ⟨⟨hfile, -⟩, hname⟩
    exact ⟨hasExchangeForm_iff.mpr hname, hfile⟩
  · rintro ⟨hform, hfile⟩
    have hname := hasExchangeForm_iff.mp hform
    exact ⟨⟨hfile, (isEntryName_of_isExchangeName hname).ne_parent⟩, hname⟩

/-- A mailbox that can be listed is swept. -/
theorem sweep_listed (hquiet : stage.future = []) (hroot : root.fault? = none)
    (hleads : stage.scene.disk.Leads root directory) :
    let names := swept stage.listing directory stage.scene.disk
    ∃ operations, (sweep root : Play SweepReport) stage =
      (reportOf root names, stage.goOn (discardAll root names stage.scene.disk) operations) := by
  intro names
  let found := stage.listing.order (Model.regularNames (stage.scene.disk.children directory))
  have hlist : (Host.fileNames root : Play _) stage =
      (.ok found, stage.goOn stage.scene.disk [.listed root (.ok found)]) := by
    have hnames : stage.listing.names root stage.scene.disk = .ok found := by
      rw [Listing.names, list_eq_ok_iff.mpr ⟨hroot, directory, hleads, rfl⟩]
      rfl
    show Stage.perform _ _ stage = _
    rw [perform, pass_of_future_nil hquiet, Scene.view, hnames]
    rfl
  have hgoes : (stage.goOn stage.scene.disk [.listed root (.ok found)]).future = [] := hquiet
  have hnodup : names.Nodup := nodup_swept ..
  obtain ⟨operations, hremove⟩ := removeAll_quiet hgoes hroot hleads hnodup fun name hmem => by
    obtain ⟨hform, hfile⟩ := mem_swept_iff.mp hmem
    exact ⟨hasExchangeForm_iff.mp hform, hfile⟩
  exact ⟨_, by rw [sweep, host_bind hlist]; exact hremove.trans (by rw [goOn_goOn]; rfl)⟩

/-- Where nothing is listed, nothing is done. -/
theorem sweep_unlisted {fault : DiskFault} (hquiet : stage.future = [])
    (hlist : stage.scene.disk.list root = .error fault) :
    (sweep root : Play SweepReport) stage =
      (if fault = .noEntry then .nothing else ⟨[], [(root, fault)]⟩,
        stage.goOn stage.scene.disk [.listed root (.error fault)]) := by
  have hnames : (Host.fileNames root : Play _) stage =
      (.error fault, stage.goOn stage.scene.disk [.listed root (.error fault)]) := by
    have hnames : stage.listing.names root stage.scene.disk = .error fault := by
      rw [Listing.names, hlist]
      rfl
    show Stage.perform _ _ stage = _
    rw [perform, pass_of_future_nil hquiet, Scene.view, hnames]
    rfl
  rw [sweep, host_bind hnames]
  by_cases hmissing : fault = .noEntry
  · subst hmissing
    rfl
  · rw [if_neg hmissing]
    cases fault with
    | noEntry => exact absurd rfl hmissing
    | _ => rfl

end Stage

/-- The files that have been deleted, and nothing else, are gone. -/
theorem cleans_discardAll (hroot : root.fault? = none) (hleads : disk.Leads root directory)
    (hnodup : names.Nodup) (hnames : ∀ name, name ∈ names ↔ IsExchangeFile disk directory name) :
    Cleans root directory disk (discardAll root names disk) (reportOf root names) := by
  have hform {name : String} (hmem : name ∈ names) : isExchangeName name = true :=
    hasExchangeForm_iff.mp ((hnames name).mp hmem).form
  have hfit {name : String} (hmem : name ∈ names) : IsFit root name ↔ IsShort root name :=
    isFit_iff_isShort (hform hmem) hroot
  have hloses := loses_discardAll hleads fun name hmem => ⟨hform hmem, by
    obtain ⟨content, hfile⟩ := ((hnames name).mp hmem).file
    simp [IsPlain, hfile]⟩
  have hmapped (keep : String → Bool) : ((names.filter keep).map root.join).Nodup :=
    List.Nodup.map_on (fun name hname other hother => Path.join_injective
      (isEntryName_of_isExchangeName (hform (List.mem_of_mem_filter hname)))
      (isEntryName_of_isExchangeName (hform (List.mem_of_mem_filter hother))))
      (hnodup.filter keep)
  refine ⟨?_, ?_, ?_, ?_, ?_, ?_⟩
  · intro name hfile hshort
    have hmem := (hnames name).mpr hfile
    exact hloses.gone name hmem ((hfit hmem).mpr hshort)
  · refine fun location hother => hloses.kept location fun name hmem hfits => ?_
    exact hother name ((hnames name).mp hmem) ((hfit hmem).mp hfits)
  · exact hmapped _
  · intro path
    simp only [reportOf, List.mem_map, List.mem_filter, decide_eq_true_eq, hnames, and_assoc,
      eq_comm (a := path)]
  · rw [reportOf, List.map_map]
    exact hmapped _
  · intro path fault
    simp only [reportOf, List.mem_map, List.mem_filter, decide_eq_true_eq, hnames, and_assoc,
      Prod.mk.injEq, eq_comm (a := path), eq_comm (a := fault)]

namespace Cleans

variable {report : SweepReport}

/-- Only exchange files whose paths are too long are left. -/
theorem isExchangeFile_iff (h : Cleans root directory before after report) :
    IsExchangeFile after directory name ↔
      IsExchangeFile before directory name ∧ ¬IsShort root name := by
  by_cases hgone : IsExchangeFile before directory name ∧ IsShort root name
  · refine iff_of_false (fun hafter => ?_) fun hleft => hleft.2 hgone.2
    obtain ⟨content, hfile⟩ := hafter.file
    rw [h.gone name hgone.1 hgone.2] at hfile
    cases hfile
  · have hkept : after.at? (directory ++ [name]) = before.at? (directory ++ [name]) :=
      h.kept _ fun other hfile hshort heq => hgone (by
        rw [List.singleton_inj.mp (List.append_cancel_left heq)]
        exact ⟨hfile, hshort⟩)
    constructor
    · rintro ⟨hform, content, hfile⟩
      have hbefore : IsExchangeFile before directory name := ⟨hform, content, hkept ▸ hfile⟩
      exact ⟨hbefore, fun hshort => hgone ⟨hbefore, hshort⟩⟩
    · rintro ⟨⟨hform, content, hfile⟩, -⟩
      exact ⟨hform, content, hkept.trans hfile⟩

/-- A sweep leaves the mailbox where it is. -/
theorem leads (h : Cleans root directory before after report)
    (hleads : before.Leads root directory) : after.Leads root directory := by
  refine hleads.of_keepsWays (keepsWays_of_plain fun location hne => ?_)
  by_contra hplain
  refine hne (h.kept location fun name hfile _ heq => hplain ?_)
  obtain ⟨content, hfile⟩ := hfile.file
  simp [IsPlain, heq, hfile]

/-- A mailbox that has been swept loses nothing more. -/
theorem again {last : Disk} {second : SweepReport} (h : Cleans root directory before after report)
    (hagain : Cleans root directory after last second) :
    last = after ∧ second.removed = [] ∧ (report.isClean = true → second.isClean = true) := by
  have hlong {name : String} (hfile : IsExchangeFile after directory name) : ¬IsShort root name :=
    (h.isExchangeFile_iff.mp hfile).2
  refine ⟨ext_at? fun location => hagain.kept location fun name hfile hshort =>
    absurd hshort (hlong hfile), List.eq_nil_iff_forall_not_mem.mpr fun path hmem => ?_, ?_⟩
  · obtain ⟨name, hfile, hshort, -⟩ := (hagain.mem_removed_iff path).mp hmem
    exact hlong hfile hshort
  · simp only [SweepReport.isClean, List.isEmpty_iff, List.eq_nil_iff_forall_not_mem]
    rintro hclean ⟨path, fault⟩ hmem
    obtain ⟨name, hfile, hshort, hpath⟩ := (hagain.mem_failed_iff path fault).mp hmem
    exact hclean (path, fault) ((h.mem_failed_iff path fault).mpr
      ⟨name, (h.isExchangeFile_iff.mp hfile).1, hshort, hpath⟩)

end Cleans

/-- What a sweep makes of a scene. -/
structure Sweeps (root : Path) (before after : Scene) (report : SweepReport) : Prop where
  missing : before.disk.list root = .error .noEntry → after = before ∧ report = .nothing
  unlisted : ∀ fault, before.disk.list root = .error fault → fault ≠ .noEntry →
    after = before ∧ report = ⟨[], [(root, fault)]⟩
  listed : ∀ entries, before.disk.list root = .ok entries → ∃ directory,
    before.disk.Leads root directory ∧ Cleans root directory before.disk after.disk report
  cancelled_eq : after.cancelled = before.cancelled

/-- With nobody around, a sweep does what a sweep should, whatever comes of the listing. -/
theorem Stage.sweep_sweeps (stage : Stage) (hquiet : stage.future = []) (root : Path) :
    Sweeps root stage.scene ((sweep root : Play SweepReport) stage).2.scene
      ((sweep root : Play SweepReport) stage).1 := by
  cases hlist : stage.scene.disk.list root with
  | error fault =>
    rw [Stage.sweep_unlisted hquiet hlist]
    refine ⟨fun h => ?_, fun other h hne => ?_, fun entries h => ?_, rfl⟩
    · cases hlist.symm.trans h
      exact ⟨rfl, rfl⟩
    · cases hlist.symm.trans h
      exact ⟨rfl, if_neg hne⟩
    · cases hlist.symm.trans h
  | ok entries =>
    obtain ⟨hroot, directory, hleads, -⟩ := list_eq_ok_iff.mp hlist
    obtain ⟨operations, hsweep⟩ := Stage.sweep_listed hquiet hroot hleads
    rw [hsweep]
    refine ⟨fun h => ?_, fun fault h _ => ?_, fun _ _ => ⟨directory, hleads, ?_⟩, rfl⟩
    · cases hlist.symm.trans h
    · cases hlist.symm.trans h
    · exact cleans_discardAll hroot hleads (Stage.nodup_swept ..) fun name => Stage.mem_swept_iff

/-- A sweep right after another one finds nothing to delete. -/
theorem Sweeps.again {first second third : Scene} {report more : SweepReport}
    (h : Sweeps root first second report) (hagain : Sweeps root second third more) :
    third = second ∧ more.removed = [] ∧ (report.isClean = true → more.isClean = true) := by
  cases hlist : first.disk.list root with
  | error fault =>
    by_cases hmissing : fault = .noEntry
    · obtain ⟨rfl, rfl⟩ := h.missing (hmissing ▸ hlist)
      obtain ⟨rfl, rfl⟩ := hagain.missing (hmissing ▸ hlist)
      exact ⟨rfl, rfl, id⟩
    · obtain ⟨rfl, rfl⟩ := h.unlisted fault hlist hmissing
      obtain ⟨rfl, rfl⟩ := hagain.unlisted fault hlist hmissing
      exact ⟨rfl, rfl, id⟩
  | ok entries =>
    obtain ⟨hroot, -⟩ := list_eq_ok_iff.mp hlist
    obtain ⟨directory, hleads, hcleans⟩ := h.listed entries hlist
    have hsecond := hcleans.leads hleads
    obtain ⟨other, hother, hmore⟩ :=
      hagain.listed _ (list_eq_ok_iff.mpr ⟨hroot, directory, hsecond, rfl⟩)
    obtain rfl := hsecond.unique hother
    obtain ⟨hdisk, hrest⟩ := hcleans.again hmore
    obtain ⟨disk, cancelled⟩ := third
    obtain rfl : disk = second.disk := hdisk
    obtain rfl : cancelled = second.cancelled := hagain.cancelled_eq
    exact ⟨rfl, hrest⟩

/-- A sweep takes away the exchange files whose paths are short enough, a second one right after it
takes away nothing, and a reset is a sweep after which the exchanges start at the first index. -/
theorem sweep_cleans (scene : Scene) (listing : Listing) (root : Path) :
    let first := (sweep root : Play SweepReport) (.opening scene [] listing)
    Sweeps root scene first.2.scene first.1 ∧
      (∀ again : Listing,
        let second := (sweep root : Play SweepReport) (.opening first.2.scene [] again)
        second.2.scene = first.2.scene ∧ second.1.removed = [] ∧
          (first.1.isClean = true → second.1.isClean = true)) ∧
      ∀ index pollMs,
        (Channel.reset ⟨root, index, pollMs⟩ : Play (SweepReport × Channel))
          (.opening scene [] listing) = ((first.1, ⟨root, .zero, pollMs⟩), first.2) := by
  intro first
  have hfirst : Sweeps root scene first.2.scene first.1 :=
    Stage.sweep_sweeps (.opening scene [] listing) rfl root
  refine ⟨hfirst, fun again => ?_, fun _ _ => rfl⟩
  exact hfirst.again (Stage.sweep_sweeps (.opening first.2.scene [] again) rfl root)

/-- A mailbox `t` with two exchange files, and other entries whose names are similar. -/
def crowdedMailbox : Disk :=
  [(["t"], .directory), (["t", "in7.txt"], .file []), (["t", "out007.txt"], .file []),
    (["t", "in1.txt"], .directory), (["t", "out1.txt"], .link ⟨"in7.txt"⟩),
    (["t", "in.txt"], .file []), (["t", "in1.txt.bak"], .file [])].foldl
    (fun disk (entry : Location × Entry) => disk.put entry.1 entry.2) Disk.empty

/-- Only the two files go, and the report names them. -/
theorem sweep_cleans_crowded :
    let first := (sweep ⟨"t"⟩ : Play SweepReport) (.opening ⟨crowdedMailbox, false⟩ [] .plain)
    Sweeps ⟨"t"⟩ ⟨crowdedMailbox, false⟩ first.2.scene first.1 ∧
      first.1 = ⟨[⟨"t/in7.txt"⟩, ⟨"t/out007.txt"⟩], []⟩ ∧
      first.2.scene.disk.at? ["t", "in7.txt"] = none ∧
      first.2.scene.disk.at? ["t", "in1.txt"] = some .directory ∧
      first.2.scene.disk.at? ["t", "out1.txt"] = some (.link ⟨"in7.txt"⟩) :=
  ⟨(sweep_cleans ⟨crowdedMailbox, false⟩ .plain ⟨"t"⟩).1, by decide +kernel, by decide +kernel,
    by decide +kernel, by decide +kernel⟩

/-- Below a path that is just short enough for the machine, an exchange file stays. -/
theorem sweep_keeps_slashed :
    let root : Path := ⟨Program.slashed 4094⟩
    let first := (sweep root : Play SweepReport)
      (.opening ⟨Program.staleMailbox, false⟩ [] .plain)
    Program.staleMailbox.list root = .ok [("in0.txt", .file (Text.Utf8.encode "old"))] ∧
      HasExchangeForm "in0.txt" ∧
      first.2.scene.disk.at? ["t", "in0.txt"] = some (.file (Text.Utf8.encode "old")) ∧
      first.1 = ⟨[], [(root.join "in0.txt", .nameTooLong)]⟩ := by
  intro root first
  have hname : isExchangeName "in0.txt" = true := by decide +kernel
  have hroot : root.fault? = none := by
    rw [Program.fault?_slashed]
    rfl
  have hleads : Program.staleMailbox.Leads root ["t"] := Program.leads_slashed 4094
  have hshort : ¬IsShort root "in0.txt" := fun hshort =>
    Program.not_isFit_slashed rfl hname ((isFit_iff_isShort hname hroot).mpr hshort)
  have hnames : Stage.swept .plain ["t"] Program.staleMailbox = ["in0.txt"] := by decide +kernel
  -- deleting by a path that is too long changes nothing
  have hkept : discardAll root ["in0.txt"] Program.staleMailbox = Program.staleMailbox := by
    have hremove := removeFile_of_not_isShort hname hroot hleads hshort
    rw [discardAll, List.foldl_cons, List.foldl_nil, Disk.discard, hremove]
  have hquiet : (Stage.opening ⟨Program.staleMailbox, false⟩ [] .plain).future = [] := rfl
  obtain ⟨operations, hsweep⟩ := Stage.sweep_listed hquiet hroot hleads
  have hfirst : first = (reportOf root ["in0.txt"],
      (Stage.opening ⟨Program.staleMailbox, false⟩ [] .plain).goOn Program.staleMailbox
        operations) := by
    refine Eq.trans hsweep ?_
    show (reportOf root (Stage.swept .plain ["t"] Program.staleMailbox), Stage.goOn _ (discardAll
      root (Stage.swept .plain ["t"] Program.staleMailbox) Program.staleMailbox) operations) = _
    rw [hnames, hkept]
  refine ⟨list_eq_ok_iff.mpr ⟨hroot, ["t"], hleads, by decide +kernel⟩,
    hasExchangeForm_iff.mpr hname, ?_, ?_⟩
  · have hfile : Program.staleMailbox.at? ["t", "in0.txt"] =
        some (.file (Text.Utf8.encode "old")) := by decide +kernel
    rw [hfirst]
    exact hfile
  · rw [hfirst]
    simp [reportOf, hshort]

end ScriptMailbox
