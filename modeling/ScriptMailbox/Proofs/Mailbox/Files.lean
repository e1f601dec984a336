import ScriptMailbox.Proofs.Disk.Changes
import ScriptMailbox.Proofs.Mailbox.Names

/-!
# The files of a mailbox

The root of a mailbox need not be there before the first exchange, so what matters is the directory
to which its path leads once directories have been created (`MayLead`). As long as no entry there is
a link, an exchange file stands at the location of its name, and writing or deleting it changes
nothing but that location (`Replaces`).
-/

namespace ScriptMailbox

namespace Disk

variable {before after disk : Disk} {path : Path} {location other : Location}

/-- Whether a path leads to a directory once some directories have been created. -/
def MayLead (disk : Disk) (path : Path) (location : Location) : Prop :=
  ∃ made, disk.Gains made ∧ made.Leads path location

/-- A path that leads to a directory may do so once directories have been created. -/
theorem Leads.mayLead (h : disk.Leads path location) : disk.MayLead path location :=
  ⟨disk, Gains.refl disk, h⟩

/-- Where a path may lead once more directories are there, it may lead before. -/
theorem MayLead.of_gains (hgains : before.Gains after) (h : after.MayLead path location) :
    before.MayLead path location := by
  obtain ⟨made, hmade, hleads⟩ := h
  exact ⟨made, hgains.trans hmade, hleads⟩

/-- A path that leads somewhere will not lead elsewhere. -/
theorem MayLead.eq_of_leads (h : disk.MayLead path other) (hleads : disk.Leads path location) :
    other = location := by
  obtain ⟨made, hgains, hmade⟩ := h
  exact hmade.unique (hleads.of_keepsWays hgains.keepsWays)

/-- What the file at a location holds, if a file is there. -/
def fileAt? (disk : Disk) (location : Location) : Option Bytes :=
  match disk.at? location with
  | some (.file content) => some content
  | _ => none

/-- The file at a location is the entry there, if it is a file. -/
theorem fileAt?_eq_some_iff {content : Bytes} :
    disk.fileAt? location = some content ↔ disk.at? location = some (.file content) := by
  rw [fileAt?]
  split
  · rename_i hentry
    simp [hentry]
  · rename_i hentry
    simp only [reduceCtorEq, false_iff]
    exact hentry content

/-- Creating directories creates no file. -/
theorem Gains.fileAt?_eq (h : before.Gains after) (location : Location) :
    after.fileAt? location = before.fileAt? location := by
  rw [fileAt?, fileAt?]
  rcases h location with heq | ⟨hnone, hdirectory⟩
  · rw [heq]
  · rw [hnone, hdirectory]

end Disk

namespace Mailbox

open Disk

variable {before after disk : Disk} {root : Path} {name other : String} {content : Bytes}
  {held : Option Bytes} {directory location : Location}

/-- Whether no entry of the mailbox that has the name of an exchange file is a link. -/
def HasNoLinks (disk : Disk) (root : Path) : Prop :=
  ∀ directory, disk.MayLead root directory → ∀ name, isExchangeName name = true →
    ∀ target, disk.at? (directory ++ [name]) ≠ some (.link target)

/-- New directories are no links. -/
theorem HasNoLinks.of_gains (h : HasNoLinks before root) (hgains : before.Gains after) :
    HasNoLinks after root := by
  intro directory hleads name hname target hlink
  rcases hgains (directory ++ [name]) with heq | ⟨-, hdirectory⟩
  · exact h directory (hleads.of_gains hgains) name hname target (heq ▸ hlink)
  · rw [hdirectory] at hlink
    cases hlink

/-- Whether the second disk is the first one with other contents of one file of the mailbox, or
without that file. -/
structure Replaces (before : Disk) (root : Path) (name : String) (held : Option Bytes)
    (after : Disk) (directory : Location) : Prop where
  leads : before.Leads root directory
  plain : before.IsPlain (directory ++ [name])
  sets : before.Sets (directory ++ [name]) (held.map .file) after

namespace Replaces

/-- Replacing an exchange file leaves the ways as they are. -/
theorem keepsWays (h : Replaces before root name held after directory) :
    before.KeepsWays after :=
  h.sets.keepsWays h.plain

/-- The mailbox is where it was. -/
theorem leads_after (h : Replaces before root name held after directory) :
    after.Leads root directory :=
  h.leads.of_keepsWays h.keepsWays

/-- The path of the mailbox leads nowhere where it did not lead before. -/
theorem leads_before (h : Replaces before root name held after directory)
    (hleads : after.Leads root location) : before.Leads root location := by
  obtain rfl := h.leads_after.unique hleads
  exact h.leads

/-- One file has been replaced, and all others are as they were. -/
theorem fileAt?_eq (h : Replaces before root name held after directory) (location : Location) :
    after.fileAt? location =
      if location = directory ++ [name] then held else before.fileAt? location := by
  rw [fileAt?, h.sets location]
  split_ifs
  · cases held <;> rfl
  · rfl

/-- No exchange file has become a link. -/
theorem hasNoLinks (h : Replaces before root name held after directory)
    (hlinks : HasNoLinks before root) : HasNoLinks after root := by
  intro other hother entry hentry target hlink
  obtain rfl := hother.eq_of_leads h.leads_after
  rw [h.sets] at hlink
  split_ifs at hlink
  · cases held <;> cases hlink
  · exact hlinks other h.leads.mayLead entry hentry target hlink

end Replaces

/-! ## Operations on exchange files -/

/-- In a mailbox without links no exchange file is a link. -/
theorem not_link_of_leads (hlinks : HasNoLinks disk root) (hname : isExchangeName name = true)
    (directory : Location) (hleads : disk.Leads root directory) (target : Path) :
    disk.at? (directory ++ [name]) ≠ some (.link target) :=
  hlinks directory hleads.mayLead name hname target

/-- A request or response that is written replaces the file of its name. -/
theorem replaces_of_write (hlinks : HasNoLinks before root) (hname : isExchangeName name = true)
    (h : before.write (root.join name) content = .ok after) :
    ∃ directory, Replaces before root name (some content) after directory := by
  obtain ⟨location, hresolve, hplain, hsets⟩ := write_eq_ok h
  obtain ⟨-, directory, hleads, rfl, -⟩ := (resolve_join (isEntryName_of_isExchangeName hname)
    (.inr fun directory hleads => not_link_of_leads hlinks hname directory hleads)).mp hresolve
  exact ⟨directory, hleads, hplain, hsets⟩

/-- One that is deleted leaves nothing under its name. -/
theorem replaces_of_removeFile (hlinks : HasNoLinks before root)
    (hname : isExchangeName name = true) (h : before.removeFile (root.join name) = .ok after) :
    ∃ directory, Replaces before root name none after directory := by
  obtain ⟨location, hresolve, hplain, hsets⟩ := removeFile_eq_ok h
  obtain ⟨-, directory, hleads, rfl, -⟩ :=
    (resolve_join (isEntryName_of_isExchangeName hname) (.inl rfl)).mp hresolve
  exact ⟨directory, hleads,
    ⟨hplain, not_link_of_leads hlinks hname directory hleads⟩, hsets⟩

/-- A path is fit for a file when it has no fault of its own and its name is not too long. -/
def IsFit (root : Path) (name : String) : Prop :=
  (root.join name).fault? = none ∧ name.utf8ByteSize ≤ nameLimit

/-- An exchange file that can be written has a path that the system takes. -/
theorem isFit_of_write (hlinks : HasNoLinks before root) (hname : isExchangeName name = true)
    (h : before.write (root.join name) content = .ok after) : IsFit root name := by
  obtain ⟨location, hresolve, -, -⟩ := write_eq_ok h
  exact ((resolve_join (isEntryName_of_isExchangeName hname)
    (.inr fun directory hleads => not_link_of_leads hlinks hname directory hleads)).mp hresolve).1

/-- An exchange file can be written where no directory stands. -/
theorem write_exchange (hlinks : HasNoLinks disk root) (hname : isExchangeName name = true)
    (hfit : IsFit root name) (hleads : disk.Leads root directory)
    (hentry : disk.at? (directory ++ [name]) ≠ some .directory) :
    disk.write (root.join name) content =
      .ok (disk.put (directory ++ [name]) (.file content)) := by
  have hresolve : disk.resolve .place (root.join name) = .ok (directory ++ [name]) :=
    (resolve_join (isEntryName_of_isExchangeName hname)
      (.inr fun directory hleads => not_link_of_leads hlinks hname directory hleads)).mpr
      ⟨hfit, directory, hleads, rfl, fun hplace => absurd rfl hplace⟩
  rw [write, hresolve]
  simp only [if_neg hentry]

/-- An exchange file that is there can be deleted. -/
theorem removeFile_exchange (hname : isExchangeName name = true) (hfit : IsFit root name)
    (hleads : disk.Leads root directory)
    (hfile : disk.at? (directory ++ [name]) = some (.file content)) :
    disk.removeFile (root.join name) = .ok (disk.erase (directory ++ [name])) := by
  have hresolve : disk.resolve .entry (root.join name) = .ok (directory ++ [name]) :=
    (resolve_join (isEntryName_of_isExchangeName hname) (.inl rfl)).mpr
      ⟨hfit, directory, hleads, rfl, fun _ => by rw [hfile]; rfl⟩
  rw [removeFile, hresolve]
  simp [hfile]

/-- The path of an exchange file leads to its place in the mailbox if something is there. -/
theorem resolve_exchange_iff (hlinks : HasNoLinks disk root) (hname : isExchangeName name = true) :
    disk.resolve .target (root.join name) = .ok location ↔
      IsFit root name ∧ ∃ directory, disk.Leads root directory ∧
        location = directory ++ [name] ∧ (disk.at? location).isSome := by
  rw [resolve_join (isEntryName_of_isExchangeName hname)
    (.inr fun directory hleads => not_link_of_leads hlinks hname directory hleads)]
  simp [IsFit]

/-- An exchange file is read where it stands. -/
theorem read_eq_ok_iff (hlinks : HasNoLinks disk root) (hname : isExchangeName name = true) :
    disk.read (root.join name) = .ok content ↔
      IsFit root name ∧ ∃ directory, disk.Leads root directory ∧
        disk.fileAt? (directory ++ [name]) = some content := by
  simp only [fileAt?_eq_some_iff]
  constructor
  · intro h
    rw [Disk.read] at h
    cases hresolve : disk.resolve .target (root.join name) with
    | error fault => simp [hresolve] at h
    | ok location =>
      obtain ⟨hfit, directory, hleads, rfl, -⟩ := (resolve_exchange_iff hlinks hname).mp hresolve
      simp only [hresolve] at h
      split at h <;> cases h
      exact ⟨hfit, directory, hleads, ‹_›⟩
  · rintro ⟨hfit, directory, hleads, hentry⟩
    have hresolve := (resolve_exchange_iff hlinks hname).mpr
      ⟨hfit, directory, hleads, rfl, by rw [hentry]; rfl⟩
    rw [Disk.read, hresolve]
    simp only [hentry]

/-- An exchange file that can be written is written in the directory of the mailbox. -/
theorem replaces_write (hlinks : HasNoLinks before root) (hname : isExchangeName name = true)
    (hleads : before.Leads root directory)
    (h : before.write (root.join name) content = .ok after) :
    Replaces before root name (some content) after directory := by
  obtain ⟨inside, hreplaces⟩ := replaces_of_write hlinks hname h
  obtain rfl := hreplaces.leads.unique hleads
  exact hreplaces

/-- An exchange file that can be read can be deleted. -/
theorem exists_removeFile (hlinks : HasNoLinks before root) (hname : isExchangeName name = true)
    (hread : before.read (root.join name) = .ok content) (hleads : before.Leads root directory) :
    ∃ after, before.removeFile (root.join name) = .ok after ∧
      Replaces before root name none after directory := by
  obtain ⟨hfit, inside, hinside, hfile⟩ := (read_eq_ok_iff hlinks hname).mp hread
  have hremoved := removeFile_exchange hname hfit hinside (fileAt?_eq_some_iff.mp hfile)
  obtain ⟨place, hreplaces⟩ := replaces_of_removeFile hlinks hname hremoved
  obtain rfl := hreplaces.leads.unique hleads
  exact ⟨_, hremoved, hreplaces⟩

/-- Where the path is fit, nothing is found only if nothing is there. -/
theorem at?_eq_none_of_kind? (hlinks : HasNoLinks disk root) (hname : isExchangeName name = true)
    (hfit : IsFit root name) (hleads : disk.Leads root directory)
    (h : disk.kind? (root.join name) = none) : disk.at? (directory ++ [name]) = none := by
  by_contra hentry
  have hresolve := (resolve_exchange_iff hlinks hname).mpr
    ⟨hfit, directory, hleads, rfl, Option.isSome_iff_ne_none.mpr hentry⟩
  rw [kind?, hresolve] at h
  rcases hat : disk.at? (directory ++ [name]) with _ | content | _ | target
  · exact hentry hat
  · simp [hat] at h
  · simp [hat] at h
  · exact hlinks directory hleads.mayLead name hname target hat

/-- An exchange file that is not in the mailbox is not seen by its path. -/
theorem kind?_eq_none (hlinks : HasNoLinks disk root) (hname : isExchangeName name = true)
    (hleads : disk.Leads root directory) (h : disk.at? (directory ++ [name]) = none) :
    disk.kind? (root.join name) = none := by
  rw [kind?]
  cases hresolve : disk.resolve .target (root.join name) with
  | error fault => rfl
  | ok location =>
    obtain ⟨-, inside, hinside, rfl, hentry⟩ := (resolve_exchange_iff hlinks hname).mp hresolve
    obtain rfl := hinside.unique hleads
    rw [h] at hentry
    cases hentry

/-- Another file of the mailbox is read as before. -/
theorem Replaces.read_of_ne (h : Replaces before root name held after directory)
    (hlinks : HasNoLinks before root) (hother : isExchangeName other = true) (hne : other ≠ name)
    (hread : before.read (root.join other) = .ok content) :
    after.read (root.join other) = .ok content := by
  obtain ⟨hfit, inside, hleads, hfile⟩ := (read_eq_ok_iff hlinks hother).mp hread
  obtain rfl := hleads.unique h.leads
  rw [read_eq_ok_iff (h.hasNoLinks hlinks) hother]
  refine ⟨hfit, inside, h.leads_after, ?_⟩
  rw [h.fileAt?_eq, if_neg (by simpa using hne), hfile]

end Mailbox

end ScriptMailbox
