import ScriptMailbox.Proofs.Computations
import ScriptMailbox.Proofs.Mailbox.Sweeping

/-!
# Mailboxes that are cleared

A sweep with which nobody interferes acts on the disk alone, and it is known what it leaves
(`at?_cleared`). A second sweep finds nothing to do (`cleared_cleared`), and disks that differ only
in exchange files which can be deleted are the same once they have been swept (`cleared_eq`).
-/

namespace ScriptMailbox

open Mailbox

namespace Disk

variable {root path : Path} {directory location : Location} {name : String} {names : List String}
  {before after disk left right : Disk} {listing : Listing}

/-! ## Deleting -/

/-- The disk after a file has been deleted, if that succeeds. -/
def discard (disk : Disk) (path : Path) : Disk :=
  match disk.removeFile path with
  | .ok after => after
  | .error _ => disk

/-- The disk after the files with some names have been deleted, as far as that succeeds. -/
def discardAll (root : Path) (names : List String) (disk : Disk) : Disk :=
  names.foldl (fun disk name => disk.discard (root.join name)) disk

/-- The disk after the exchange files of a mailbox have been deleted, as far as that succeeds. -/
def cleared (listing : Listing) (root : Path) (disk : Disk) : Disk :=
  match listing.names root disk with
  | .ok names => discardAll root (names.filter isExchangeName) disk
  | .error _ => disk

/-- Whether the second disk is the first one without the files of a mailbox that have some names
and can be deleted by their paths. -/
structure Loses (before : Disk) (root : Path) (directory : Location) (names : List String)
    (after : Disk) : Prop where
  gone : ∀ name ∈ names, IsFit root name → after.at? (directory ++ [name]) = none
  kept : ∀ location, (∀ name ∈ names, IsFit root name → location ≠ directory ++ [name]) →
    after.at? location = before.at? location

/-- Without names nothing is lost. -/
theorem Loses.refl (disk : Disk) (root : Path) (directory : Location) :
    disk.Loses root directory [] disk :=
  ⟨fun _ hmem => (List.not_mem_nil hmem).elim, fun _ _ => rfl⟩

/-- Losing one file and then others is losing them all. -/
theorem Loses.cons {between : Disk} (h : before.Loses root directory [name] between)
    (hmore : between.Loses root directory names after) :
    before.Loses root directory (name :: names) after := by
  refine ⟨List.forall_mem_cons.mpr ⟨fun hfit => ?_, hmore.gone⟩, fun location hother => ?_⟩
  · by_cases hagain : name ∈ names
    · exact hmore.gone name hagain hfit
    · rw [hmore.kept]
      · exact h.gone name List.mem_cons_self hfit
      · rintro other hmem - heq
        rw [List.singleton_inj.mp (List.append_cancel_left heq)] at hagain
        exact hagain hmem
  · obtain ⟨hname, hnames⟩ := List.forall_mem_cons.mp hother
    rw [hmore.kept location hnames]
    exact h.kept location (List.forall_mem_singleton.mpr hname)

/-- What has been a file or nothing stays so. -/
theorem Loses.isPlain (h : before.Loses root directory names after)
    (hplain : before.IsPlain location) : after.IsPlain location := by
  by_cases hlost : ∃ name ∈ names, IsFit root name ∧ location = directory ++ [name]
  · obtain ⟨name, hmem, hfit, rfl⟩ := hlost
    simp [IsPlain, h.gone name hmem hfit]
  · rw [IsPlain, h.kept location fun name hmem hfit heq => hlost ⟨name, hmem, hfit, heq⟩]
    exact hplain

/-- A file is lost if its path is fit, and nothing else is. -/
theorem loses_discard (hname : isExchangeName name = true) (hleads : disk.Leads root directory)
    (hplain : disk.IsPlain (directory ++ [name])) :
    disk.Loses root directory [name] (disk.discard (root.join name)) := by
  rw [discard]
  cases hremove : disk.removeFile (root.join name) with
  | ok after =>
    obtain ⟨location, hresolve, -, hsets⟩ := removeFile_eq_ok hremove
    obtain ⟨hfit, inside, hinside, rfl, -⟩ :=
      (resolve_join (isEntryName_of_isExchangeName hname) (.inl rfl)).mp hresolve
    obtain rfl := hinside.unique hleads
    refine ⟨List.forall_mem_singleton.mpr fun _ => hsets.at?_self, fun location hother => ?_⟩
    exact hsets.at?_of_ne (hother name (List.mem_singleton_self name) hfit)
  | error fault =>
    refine ⟨List.forall_mem_singleton.mpr fun hfit => ?_, fun _ _ => rfl⟩
    cases hentry : disk.at? (directory ++ [name]) with
    | none => rfl
    | some entry =>
      cases entry with
      | directory => exact absurd hentry hplain.1
      | link target => exact absurd hentry (hplain.2 target)
      | file content =>
        rw [removeFile_exchange hname hfit hleads hentry] at hremove
        cases hremove

/-- A mailbox that has lost files is where it was. -/
theorem Loses.leads (h : before.Loses root directory names after)
    (hplain : ∀ name ∈ names, before.IsPlain (directory ++ [name]))
    (hleads : before.Leads root directory) : after.Leads root directory := by
  refine hleads.of_keepsWays (keepsWays_of_plain fun location hne => ?_)
  by_contra hplain'
  refine hne (h.kept location fun name hmem _ heq => hplain' ?_)
  rw [heq]
  exact hplain name hmem

/-- Deleting exchange files one after the other takes away those, as far as their paths allow. -/
theorem loses_discardAll (hleads : disk.Leads root directory)
    (hnames : ∀ name ∈ names, isExchangeName name = true ∧ disk.IsPlain (directory ++ [name])) :
    disk.Loses root directory names (discardAll root names disk) := by
  induction names generalizing disk with
  | nil => exact .refl disk root directory
  | cons name names ih =>
    obtain ⟨⟨hname, hplain⟩, hnames⟩ := List.forall_mem_cons.mp hnames
    have hfirst := loses_discard hname hleads hplain
    exact hfirst.cons (ih (hfirst.leads (List.forall_mem_singleton.mpr hplain) hleads)
      fun other hmem => ⟨(hnames other hmem).1, hfirst.isPlain (hnames other hmem).2⟩)

/-! ## Sweeping -/

/-- Whether a location has a file of the mailbox that a sweep can delete, or could have one. -/
def IsSwept (disk : Disk) (root : Path) (directory location : Location) : Prop :=
  ∃ name, isExchangeName name = true ∧ IsFit root name ∧ location = directory ++ [name] ∧
    disk.IsPlain location

/-- Clearing a mailbox takes away the files that a sweep can delete, and nothing else. -/
theorem at?_cleared (listing : Listing) (hfault : root.fault? = none)
    (hleads : disk.Leads root directory) (location : Location) :
    (IsSwept disk root directory location → (disk.cleared listing root).at? location = none) ∧
      (¬IsSwept disk root directory location →
        (disk.cleared listing root).at? location = disk.at? location) := by
  have hlist : disk.list root = .ok (disk.children directory) :=
    list_eq_ok_iff.mpr ⟨hfault, directory, hleads, rfl⟩
  have hnames : listing.names root disk =
      .ok (listing.order (Model.regularNames (disk.children directory))) := by
    rw [Listing.names, hlist]
    rfl
  have hmem (name : String) : name ∈ (listing.order
      (Model.regularNames (disk.children directory))).filter isExchangeName ↔
        isExchangeName name = true ∧ (disk.fileAt? (directory ++ [name])).isSome := by
    rw [List.mem_filter, (listing.perm _).mem_iff, mem_regularNames_iff]
    refine ⟨fun h => ⟨h.2, h.1.1⟩, fun h => ⟨⟨h.2, ?_⟩, h.1⟩⟩
    exact (isEntryName_of_isExchangeName h.1).ne_parent
  have hfile {name : String} (h : (disk.fileAt? (directory ++ [name])).isSome) :
      disk.IsPlain (directory ++ [name]) := by
    obtain ⟨content, hcontent⟩ := Option.isSome_iff_exists.mp h
    simp [IsPlain, fileAt?_eq_some_iff.mp hcontent]
  have hloses := loses_discardAll hleads fun name h =>
    ⟨((hmem name).mp h).1, hfile ((hmem name).mp h).2⟩
  rw [cleared, hnames]
  constructor
  · rintro ⟨name, hname, hfit, rfl, hplain⟩
    -- a swept location holds a listed file, or nothing at all
    by_cases h : (disk.fileAt? (directory ++ [name])).isSome
    · exact hloses.gone name ((hmem name).mpr ⟨hname, h⟩) hfit
    · rw [hloses.kept]
      · rcases hentry : disk.at? (directory ++ [name]) with _ | content | _ | target
        · rfl
        · simp [fileAt?, hentry] at h
        · exact absurd hentry hplain.1
        · exact absurd hentry (hplain.2 target)
      · rintro other hother - heq
        rw [heq] at h
        exact h ((hmem other).mp hother).2
  · refine fun hother => hloses.kept location fun name h hfit heq => hother ⟨name, ?_⟩
    exact ⟨((hmem name).mp h).1, hfit, heq, heq ▸ hfile ((hmem name).mp h).2⟩

/-- Where a path leads to no mailbox, nothing is cleared away. -/
theorem cleared_of_not_listed (listing : Listing)
    (h : ¬(root.fault? = none ∧ ∃ directory, disk.Leads root directory)) :
    disk.cleared listing root = disk := by
  cases hlist : disk.list root with
  | error fault => rw [cleared, Listing.names, hlist]; rfl
  | ok entries =>
    obtain ⟨hfault, directory, hleads, -⟩ := list_eq_ok_iff.mp hlist
    exact absurd ⟨hfault, directory, hleads⟩ h

/-- In a mailbox that has been cleared, nothing is left to be cleared away. -/
theorem cleared_cleared (listing : Listing) (root : Path) (disk : Disk) :
    (disk.cleared listing root).cleared listing root = disk.cleared listing root := by
  by_cases h : root.fault? = none ∧ ∃ directory, disk.Leads root directory
  · obtain ⟨hfault, directory, hleads⟩ := h
    refine ext_at? fun location => ?_
    have honce := at?_cleared listing hfault hleads
    have hways : disk.KeepsWays (disk.cleared listing root) :=
      keepsWays_of_plain fun location hne => by
        by_contra hplain
        exact hne ((honce location).2 fun ⟨_, _, _, _, hswept⟩ => hplain hswept)
    have htwice := at?_cleared listing hfault (hleads.of_keepsWays hways) location
    by_cases hswept : IsSwept (disk.cleared listing root) root directory location
    · rw [htwice.1 hswept, (honce location).1]
      by_contra hnever
      obtain ⟨name, hname, hfit, heq, hplain⟩ := hswept
      rw [IsPlain, (honce location).2 hnever] at hplain
      exact hnever ⟨name, hname, hfit, heq, hplain⟩
    · exact htwice.2 hswept
  · rw [cleared_of_not_listed listing h, cleared_of_not_listed listing h]

/-! ## Disks that differ in exchange files -/

/-- Whether two disks differ only in exchange files of a mailbox: where their entries are not the
same, each of them has a file or nothing. -/
def DifferInExchanges (root : Path) (left right : Disk) : Prop :=
  ∀ location, left.at? location ≠ right.at? location →
    left.IsPlain location ∧ right.IsPlain location ∧
      ∃ directory name, left.Leads root directory ∧ isExchangeName name = true ∧
        location = directory ++ [name]

namespace DifferInExchanges

/-- Disks that differ in exchange files alone have files, or nothing, at the same locations. -/
theorem isPlain_iff (h : DifferInExchanges root left right) :
    left.IsPlain location ↔ right.IsPlain location := by
  by_cases heq : left.at? location = right.at? location
  · rw [IsPlain, IsPlain, heq]
  · exact iff_of_true (h location heq).1 (h location heq).2.1

/-- They have the same locations swept. -/
theorem isSwept_iff (h : DifferInExchanges root left right) :
    IsSwept left root directory location ↔ IsSwept right root directory location := by
  simp only [IsSwept, h.isPlain_iff]

/-- They have the same directories and links. -/
theorem keepsWays (h : DifferInExchanges root left right) : left.KeepsWays right :=
  keepsWays_of_plain fun location hne => (h location hne.symm).1

end DifferInExchanges

/-- Where all files in which they differ can be deleted, such disks are the same once they have
been swept. -/
theorem cleared_eq (listing : Listing) (hroot : root.text ≠ "")
    (h : DifferInExchanges root left right)
    (hfit : ∀ directory name, left.Leads root directory → isExchangeName name = true →
      left.at? (directory ++ [name]) ≠ right.at? (directory ++ [name]) → IsFit root name) :
    left.cleared listing root = right.cleared listing root := by
  by_cases hlisted : root.fault? = none ∧ ∃ directory, left.Leads root directory
  · obtain ⟨hfault, directory, hleads⟩ := hlisted
    refine ext_at? fun location => ?_
    have hleft := at?_cleared listing hfault hleads location
    have hright := at?_cleared listing hfault (hleads.of_keepsWays h.keepsWays) location
    by_cases hswept : IsSwept left root directory location
    · rw [hleft.1 hswept, hright.1 (h.isSwept_iff.mp hswept)]
    · rw [hleft.2 hswept, hright.2 fun hother => hswept (h.isSwept_iff.mpr hother)]
      by_contra hne
      obtain ⟨hplain, -, other, name, hother, hname, rfl⟩ := h location hne
      obtain rfl := hother.unique hleads
      exact hswept ⟨name, hname, hfit other name hother hname hne, rfl, hplain⟩
  · -- no way leads to the mailbox, or its path is refused, and so are those of its files
    have heq : left = right := by
      refine ext_at? fun location => ?_
      by_contra hne
      obtain ⟨-, -, directory, name, hleads, hname, rfl⟩ := h location hne
      have hfault := Path.fault?_of_join (isEntryName_of_isExchangeName hname) hroot
        (hfit directory name hleads hname hne).1
      exact hlisted ⟨hfault, directory, hleads⟩
    rw [heq]

end Disk

/-! ## Hosts on which nobody interferes -/

section

variable {τ : Type} [Host (StateM τ)] (place : Disk → τ) {listing : Listing} {root : Path}

/-- Where a host deletes a file as a disk does, it deletes several as a disk does. -/
theorem removeAll_of_discards
    (hremove : ∀ path disk, ((Host.removeFile path : StateM τ _) (place disk)).2 =
      place (disk.discard path)) (names : List String) (disk : Disk) :
    ((removeAll root names : StateM τ SweepReport) (place disk)).2 =
      place (disk.discardAll root names) := by
  induction names generalizing disk with
  | nil => rfl
  | cons name names ih =>
    have hrest := ih (disk.discard (root.join name))
    rw [← hremove] at hrest
    exact hrest

/-- Where deletions change the disk alone, so does a sweep. -/
theorem sweep_of_discards
    (hremove : ∀ path disk, ((Host.removeFile path : StateM τ _) (place disk)).2 =
      place (disk.discard path))
    (hlist : ∀ path disk, (Host.fileNames path : StateM τ _) (place disk) =
      (listing.names path disk, place disk)) (root : Path) (disk : Disk) :
    ((sweep root : StateM τ SweepReport) (place disk)).2 = place (disk.cleared listing root) := by
  rw [sweep, host_bind (hlist root disk), Disk.cleared]
  cases listing.names root disk with
  | error fault => cases fault <;> rfl
  | ok names => exact removeAll_of_discards place hremove _ disk

end

end ScriptMailbox
