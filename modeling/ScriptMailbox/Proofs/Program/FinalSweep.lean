import ScriptMailbox.Proofs.Mailbox.Sweeping
import ScriptMailbox.Proofs.Program.Footprint
import ScriptMailbox.Proofs.Program.Parts

/-!
# The last sweep

A sweep tries to delete every exchange file that it has listed, whatever becomes of the others,
unless the process ends before. Where it comes to its end and nothing else is written, an exchange
file that is left behind cannot be reached by its path, or others have touched it since the mailbox
was listed (`touched_of_left`).
-/

namespace ScriptMailbox

open Disk

namespace Mailbox

variable {root : Path} {name : String} {names : List String} {operations : List Operation}
  {result : Except DiskFault Unit} {found : Except DiskFault (List String)}
  {content : Bytes} {directory location : Location} {listed before after : Scene}
  {event : Event}
  {events : List Event}

/-! ## What a sweep does -/

/-- Whether some operations try to delete the files with these names, and do nothing else. -/
structure Attempts (root : Path) (names : List String) (operations : List Operation) : Prop where
  only : ∀ operation ∈ operations, ∃ name ∈ names, ∃ result,
    operation = .removed (root.join name) result
  all : ∀ name ∈ names, ∃ result, .removed (root.join name) result ∈ operations

/-- Without names nothing need be tried. -/
theorem attempts_nil (root : Path) : Attempts root [] [] :=
  ⟨nofun, nofun⟩

/-- One more attempt. -/
theorem Attempts.cons (h : Attempts root names operations) (name : String)
    (result : Except DiskFault Unit) :
    Attempts root (name :: names) (.removed (root.join name) result :: operations) := by
  refine ⟨List.forall_mem_cons.mpr ⟨?_, fun operation hmem => ?_⟩,
    List.forall_mem_cons.mpr ⟨⟨result, List.mem_cons_self⟩, fun other hmem => ?_⟩⟩
  · exact ⟨name, List.mem_cons_self, result, rfl⟩
  · obtain ⟨other, hother, hresult⟩ := h.only operation hmem
    exact ⟨other, List.mem_cons_of_mem name hother, hresult⟩
  · obtain ⟨result', hresult⟩ := h.all other hmem
    exact ⟨result', List.mem_cons_of_mem _ hresult⟩

section

variable {desk : Desk} {typed : List Bytes}

/-- The worker tries all deletions if the last sweep is up to it and the process goes on. -/
theorem removeAll_attempts (hnames : ∀ name ∈ names, isExchangeName name = true)
    (hsound : desk.IsSound root typed) (hworker : desk.sweeper = some .worker)
    (hover : ((removeAll root names : DeskM SweepReport) desk).2.isOver = false) :
    ∃ operations, Attempts root names operations ∧
      desk.stage.Does operations ((removeAll root names : DeskM SweepReport) desk).2.stage := by
  -- on the files to delete; what the worker has taken on, it keeps
  induction names generalizing desk with
  | nil => exact ⟨[], attempts_nil root, .refl desk.stage⟩
  | cons name names ih =>
    obtain ⟨hname, hrest⟩ := List.forall_mem_cons.mp hnames
    let removed := (desk.perform (Host.removeFile (root.join name) : Play _)).2
    have hruns : desk.Runs root typed removed := (keeps_removeFile hname desk hsound).1
    have hmore := (keeps_removeAll hrest removed (hsound.runs hruns)).1
    have hnext : ((removeAll root (name :: names) : DeskM SweepReport) desk).2 =
        ((removeAll root names : DeskM SweepReport) removed).2 := rfl
    rw [hnext] at hover ⊢
    -- a process that goes on behind the last deletion went on behind the first one
    have hgoes : removed.isOver = false :=
      Bool.eq_false_iff.mpr fun hremoved => Bool.eq_false_iff.mp hover (hmore.ended hremoved)
    have hremoves := Desk.perform_does (fun stage => Play.removeFile_does stage (root.join name))
      hsound.tracks hworker hgoes
    obtain ⟨operations, hattempts, hdoes⟩ :=
      ih hrest (hsound.runs hruns) (hruns.taken .worker hworker) hover
    exact ⟨_, hattempts.cons name _, hremoves.trans hdoes⟩

/-- So it lists the mailbox, tries to delete every exchange file that it has found, and does nothing
else. -/
theorem sweep_attempts (hsound : desk.IsSound root typed) (hworker : desk.sweeper = some .worker)
    (hover : ((sweep root : DeskM SweepReport) desk).2.isOver = false) :
    ∃ found operations, Attempts root (exchangeNames found) operations ∧
      desk.stage.Does (.listed root found :: operations)
        ((sweep root : DeskM SweepReport) desk).2.stage := by
  rcases hlist : desk.perform (Host.fileNames root : Play _) with ⟨found, listed⟩
  have hfirst : (Host.fileNames root : DeskM (Except DiskFault (List String))) desk =
      (found, listed) := hlist
  have hruns := (keeps_fileNames root desk hsound).1
  rw [hfirst] at hruns
  have hsweep : ((sweep root : DeskM SweepReport) desk).2 =
      ((removeAll root (exchangeNames found) : DeskM SweepReport) listed).2 := by
    rw [sweep, host_bind hfirst]
    rcases found with fault | names
    · cases fault <;> rfl
    · rfl
  rw [hsweep] at hover ⊢
  have hnames : ∀ name ∈ exchangeNames found, isExchangeName name = true :=
    fun name => isExchangeName_of_mem
  have hmore := (keeps_removeAll hnames listed (hsound.runs hruns)).1
  have hgoes : listed.isOver = false :=
    Bool.eq_false_iff.mpr fun hlisted => Bool.eq_false_iff.mp hover (hmore.ended hlisted)
  have hdoes := Desk.perform_does (fun stage => Play.fileNames_lists stage root) hsound.tracks
    hworker (by rw [hlist]; exact hgoes)
  rw [hlist] at hdoes
  obtain ⟨operations, hattempts, hdeletes⟩ := removeAll_attempts hnames
    (hsound.runs hruns) (hruns.taken .worker hworker) hover
  exact ⟨found, operations, hattempts, hdoes.trans hdeletes⟩

end

/-! ## Since the mailbox was listed -/

/-- What the sweep, and others who leave a location alone, make of a disk: the path of the mailbox
leads where it led, and what stands at the location is as it was, or gone. -/
structure Dwindles (root : Path) (location : Location) (start disk : Disk) : Prop where
  links : HasNoLinks disk root
  ways : start.KeepsWays disk
  leads : ∀ directory, disk.Leads root directory → start.Leads root directory
  entry : disk.at? location = none ∨ disk.at? location = start.at? location

/-- A location has dwindled to what it is. -/
theorem Dwindles.refl {disk : Disk} (location : Location) (hlinks : HasNoLinks disk root) :
    Dwindles root location disk disk :=
  ⟨hlinks, .refl disk, fun _ => id, .inr rfl⟩

/-- It goes on dwindling when a file is replaced elsewhere, or deleted here. -/
theorem Dwindles.replaced {start disk made : Disk} {held : Option Bytes}
    (h : Dwindles root location start disk)
    (hreplaces : Replaces disk root name held made directory)
    (hentry : made.at? location = none ∨ made.at? location = disk.at? location) :
    Dwindles root location start made := by
  refine ⟨hreplaces.hasNoLinks h.links, h.ways.trans hreplaces.keepsWays,
    fun inside hleads => h.leads inside (hreplaces.leads_before hleads), ?_⟩
  rcases hentry with hnone | heq
  · exact .inl hnone
  · exact h.entry.imp heq.trans heq.trans

/-- Whether an event is a look, an attempt to delete an exchange file, or an act of others that
leaves a location alone. -/
def Spares (root : Path) (location : Location) : Event → Prop
  | .own operation => operation.isChange = false ∨
    ∃ name, isExchangeName name = true ∧ ∃ result, operation = .removed (root.join name) result
  | .others before after => WritesExchanges root before after ∧
    after.disk.at? location = before.disk.at? location

/-- It does so with every event that spares it. -/
theorem Dwindles.step {start : Disk} (h : Dwindles root location start before.disk)
    (hspares : Spares root location event) (hturns : event.Turns before after) :
    Dwindles root location start after.disk := by
  cases event with
  | own operation =>
    rcases hspares with hlooks | ⟨name, hname, result, rfl⟩
    · rwa [Operation.Turns.eq_of_view hturns hlooks]
    rcases Scene.change_cases hturns with heq | ⟨-, hremove⟩
    · rwa [heq]
    · obtain ⟨directory, hreplaces⟩ := replaces_of_removeFile h.links hname hremove
      refine h.replaced hreplaces ?_
      by_cases heq : location = directory ++ [name]
      · rw [heq]
        exact .inl hreplaces.sets.at?_self
      · exact .inr (hreplaces.sets.at?_of_ne heq)
  | others left reached =>
    obtain ⟨rfl, rfl⟩ := hturns
    obtain ⟨hwrites, hentry⟩ := hspares
    rcases hwrites with heq | ⟨name, content, directory, hname, hreplaces⟩
    · rwa [heq]
    · exact h.replaced hreplaces (.inr hentry)

/-- By induction, it does so in every run that spares it. -/
theorem Dwindles.run {start : Disk} (h : Dwindles root location start before.disk)
    (hspares : ∀ event ∈ events, Spares root location event)
    (hbecomes : before.Becomes events after) :
    Dwindles root location start after.disk :=
  hbecomes.keeps (fun scene => Dwindles root location start scene.disk)
    (fun event hmem _ _ hturns hbefore => hbefore.step (hspares event hmem) hturns) h

/-- What is gone stays gone. -/
theorem Dwindles.at?_eq_none {start disk : Disk} (h : Dwindles root location start disk)
    (hnone : start.at? location = none) : disk.at? location = none :=
  h.entry.elim id fun heq => heq.trans hnone

/-- Deletions of the program spare a location that others leave alone. -/
theorem spares_of_onlyDelete (honly : OnlyDelete root (own events))
    (hothers : Obeys (WritesExchanges root) events)
    (huntouched : ∀ left reached, .others left reached ∈ events →
      reached.disk.at? location = left.disk.at? location) :
    ∀ event ∈ events, Spares root location event := by
  rintro (operation | ⟨left, reached⟩) hmem
  · exact honly operation (mem_own_iff.mpr hmem)
  · exact ⟨hothers left reached hmem, huntouched left reached hmem⟩

/-! ## What is left -/

/-- The files of a mailbox are listed when its path is not refused. -/
theorem listed_of_leads (hturns : (Operation.listed root found).Turns before after)
    (hroot : root.fault? = none) (hleads : before.disk.Leads root directory)
    (hname : isExchangeName name = true)
    (hfile : before.disk.at? (directory ++ [name]) = some (.file content)) :
    name ∈ exchangeNames found := by
  have hlist : before.disk.list root = .ok (before.disk.children directory) :=
    list_eq_ok_iff.mpr ⟨hroot, directory, hleads, rfl⟩
  have hnames : ∃ names, found = .ok names := by
    obtain ⟨listing, hview⟩ := hturns
    have hfound := congrArg Prod.fst hview
    rw [Scene.view, Listing.names, hlist] at hfound
    exact ⟨_, hfound.symm⟩
  obtain ⟨names, rfl⟩ := hnames
  obtain ⟨-, inside, hinside, hmem⟩ := mem_listed_iff hturns
  obtain rfl := hinside.unique hleads
  refine (hmem name hname).mpr ?_
  rw [fileAt?_eq_some_iff.mpr hfile]
  rfl

/-- After an attempt to delete a file that can be reached by its path, nothing is there. -/
theorem at?_of_removed (hturns : (Operation.removed (root.join name) result).Turns before after)
    (hname : isExchangeName name = true) (hfit : IsFit root name)
    (hleads : before.disk.Leads root directory)
    (hfile : before.disk.at? (directory ++ [name]) = some (.file content)) :
    after.disk.at? (directory ++ [name]) = none := by
  have hremove := removeFile_exchange hname hfit hleads hfile
  have hscene : after.disk = before.disk.erase (directory ++ [name]) := by
    have hchange := congrArg (·.2.disk) (Eq.symm hturns)
    simp only [Scene.change, hremove] at hchange
    exact hchange
  rw [hscene]
  exact (sets_erase (by simp [hfile])).at?_self

/-- What is left of the exchange files when the deletion of all that were found has been tried and
nothing else has been written: one that can be reached by its path has been touched by others since
the mailbox was listed. -/
theorem touched_of_left (hroot : root.text ≠ "") (hlinks : HasNoLinks before.disk root)
    (hlist : (Operation.listed root found).Turns before listed)
    (htried : ∀ name ∈ exchangeNames found, ∃ result,
      .own (.removed (root.join name) result) ∈ events)
    (honly : OnlyDelete root (own events)) (hothers : Obeys (WritesExchanges root) events)
    (h : listed.Becomes events after)
    (hleads : after.disk.Leads root directory) (hname : isExchangeName name = true)
    (hfit : IsFit root name) (hfile : after.disk.at? (directory ++ [name]) = some (.file content)) :
    ∃ left reached, .others left reached ∈ events ∧
      reached.disk.at? (directory ++ [name]) ≠ left.disk.at? (directory ++ [name]) := by
  -- if nobody has touched the file, its entry can only have gone away since the listing
  by_contra huntouched
  push Not at huntouched
  have hspares := spares_of_onlyDelete honly hothers huntouched
  obtain rfl : listed = before := Operation.Turns.eq_of_view hlist rfl
  have hwhole := (Dwindles.refl (directory ++ [name]) hlinks).run hspares h
  have hstart := hwhole.leads directory hleads
  have hthere : listed.disk.at? (directory ++ [name]) = some (.file content) :=
    (hwhole.entry.resolve_left (by simp [hfile])).symm.trans hfile
  have hpath := Path.fault?_of_join (isEntryName_of_isExchangeName hname) hroot hfit.1
  obtain ⟨result, hremoved⟩ := htried name (listed_of_leads hlist hpath hstart hname hthere)
  -- it was there when the mailbox was listed, so its deletion has been tried, and succeeded
  obtain ⟨early, late, rfl⟩ := List.append_of_mem hremoved
  obtain ⟨hearly, hlast⟩ := List.forall_mem_append.mp hspares
  obtain ⟨hremoval, hlate⟩ := List.forall_mem_cons.mp hlast
  obtain ⟨ready, hbefore, hrest⟩ := h.of_append
  cases hrest with
  | cons hturns hafter =>
    rename_i done
    have hready := (Dwindles.refl (directory ++ [name]) hlinks).run hearly hbefore
    have hstep := (Dwindles.refl (directory ++ [name]) hready.links).step hremoval hturns
    have hgone : done.disk.at? (directory ++ [name]) = none := by
      rcases hready.entry with hnone | heq
      · exact hstep.at?_eq_none hnone
      · exact at?_of_removed hturns hname hfit (hstart.of_keepsWays hready.ways)
          (heq.trans hthere)
    have hend := (Dwindles.refl (directory ++ [name]) hstep.links).run hlate hafter
    simp [hend.at?_eq_none hgone] at hfile

end Mailbox

end ScriptMailbox
