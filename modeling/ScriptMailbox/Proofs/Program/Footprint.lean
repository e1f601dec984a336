import ScriptMailbox.Proofs.Disk.Ways
import ScriptMailbox.Proofs.Mailbox.Files
import ScriptMailbox.Proofs.Program.Permits

/-!
# What a run leaves on the disk

While the program does what it may and others write exchange files, every change of the disk is of
an exchange file in the mailbox, of a directory on the way to it, or of a file that a patch makes.
So whatever stands on the disk in the end stood there at the beginning, or is accounted for
(`accounts_of_becomes`).
-/

namespace ScriptMailbox

namespace Mailbox

open Disk

variable {root path : Path} {made : Path → Bytes → Prop} {start before after : Disk}
  {location directory : Location} {name : String} {content : Bytes}

/-- A change of the disk. The files of some contents may be made under some paths. -/
inductive Changes (root : Path) (made : Path → Bytes → Prop) (before after : Disk) : Prop
  | nothing (h : after = before)
  /-- Directories are created on the way to the mailbox, unless it is there. -/
  | creates (h : GainsOn (origin root []) root.moves before after)
    (hleads : ∀ directory, before.Leads root directory → after = before)
  | replaces {name : String} {held : Option Bytes} {directory : Location}
    (hname : isExchangeName name = true) (h : Replaces before root name held after directory)
  | writes {path : Path} {content : Bytes} {location : Location} (hmade : made path content)
    (hplain : before.IsPlain location) (h : before.Sets location (some (.file content)) after)
    (hresolves : after.resolve .target path = .ok location)

/-- Permitted changes leave directories and links as they are. -/
theorem Changes.keepsWays (h : Changes root made before after) : before.KeepsWays after := by
  cases h with
  | nothing h =>
    subst h
    exact .refl after
  | creates h => exact h.gains.keepsWays
  | replaces hname h => exact h.keepsWays
  | writes hmade hplain h => exact h.keepsWays hplain

/-! ## Links -/

/-- The place of a file can have another file, or nothing. -/
theorem exists_sets (hfile : after.at? location = some (.file content))
    (hplain : before.IsPlain location) :
    ∃ undone, after.Sets location (before.at? location) undone := by
  rcases hentry : before.at? location with _ | old | _ | target
  · exact ⟨after.erase location, sets_erase (by simp [hfile])⟩
  · have hput : after.mayPut location := ⟨at?_dropLast hfile, by simp [hfile]⟩
    exact ⟨after.put location (.file old), fun other => at?_put _ other hput⟩
  · exact absurd hentry hplain.1
  · exact absurd hentry (hplain.2 target)

/-- Where the path of the mailbox leads does not depend on files. -/
theorem mayLead_of_sets (h : before.Sets location (some (.file content)) after)
    (hplain : before.IsPlain location) (hleads : after.MayLead root directory) :
    before.MayLead root directory := by
  obtain ⟨gained, hgains, hgained⟩ := hleads
  have hfile := hgains.at?_eq h.at?_self
  obtain ⟨undone, hundone⟩ := exists_sets hfile hplain
  have hways : gained.KeepsWays undone := hundone.keepsWays (by simp [IsPlain, hfile])
  refine ⟨undone, fun other => ?_, hgained.of_keepsWays hways⟩
  by_cases heq : other = location
  · rw [heq]
    exact .inl hundone.at?_self
  · rw [hundone.at?_of_ne heq, ← h.at?_of_ne heq]
    exact hgains other

/-- They make no exchange file a link. -/
theorem Changes.hasNoLinks (h : Changes root made before after) (hlinks : HasNoLinks before root) :
    HasNoLinks after root := by
  cases h with
  | nothing h =>
    subst h
    exact hlinks
  | creates h => exact hlinks.of_gains h.gains
  | replaces hname h => exact h.hasNoLinks hlinks
  | writes hmade hplain h =>
    intro directory hleads name hname target hlink
    rw [h] at hlink
    split_ifs at hlink
    · cases hlink
    · exact hlinks directory (mayLead_of_sets h hplain hleads) name hname target hlink

/-! ## Accounting -/

/-- What stands at a location stood there at the start, or it is accounted for: an exchange file of
the mailbox has come, changed or gone; a directory on the way to the mailbox has been created; or a
file has been made that may be made. -/
inductive Accounts (root : Path) (made : Path → Bytes → Prop) (start disk : Disk)
    (location : Location) : Prop
  | same (h : disk.at? location = start.at? location)
  | exchange {directory : Location} {name : String} (hleads : disk.Leads root directory)
    (hname : isExchangeName name = true) (hlocation : location = directory ++ [name])
    (hstart : start.IsPlain location) (hnow : disk.IsPlain location)
  | created (hstart : start.at? location = none) (hpasses : disk.Passes root location)
  | written {path : Path} {content : Bytes} (hmade : made path content)
    (hstart : start.IsPlain location) (hnow : disk.HasFile path location content)

/-- Whether a location is plain depends on its entry alone. -/
theorem isPlain_congr {other : Disk} (h : other.at? location = before.at? location) :
    other.IsPlain location ↔ before.IsPlain location := by
  rw [IsPlain, IsPlain, h]

/-- Where a file or nothing is now, a file or nothing was at the start. -/
theorem Accounts.isPlain_start (h : Accounts root made start before location)
    (hplain : before.IsPlain location) : start.IsPlain location := by
  cases h with
  | same h => exact (isPlain_congr h).mp hplain
  | exchange _ _ _ hstart => exact hstart
  | created hstart => simp [IsPlain, hstart]
  | written _ hstart => exact hstart

/-- A change elsewhere. -/
theorem Accounts.of_at?_eq (h : Accounts root made start before location)
    (hways : before.KeepsWays after) (heq : after.at? location = before.at? location) :
    Accounts root made start after location := by
  cases h with
  | same h => exact .same (heq.trans h)
  | exchange hleads hname hlocation hstart hnow =>
    exact .exchange (hleads.of_keepsWays hways) hname hlocation hstart
      ((isPlain_congr heq).mpr hnow)
  | created hstart hpasses => exact .created hstart (hpasses.of_keepsWays hways)
  | written hmade hstart hnow =>
    have hfile := heq.trans hnow.holds
    exact .written hmade hstart
      ⟨resolve_of_keepsWays hways (.inr ⟨_, hfile⟩) hnow.resolves, hfile⟩

/-- A change leaves nothing unaccounted for. -/
theorem Accounts.of_changes (h : ∀ location, Accounts root made start before location)
    (hchanges : Changes root made before after) (location : Location) :
    Accounts root made start after location := by
  have hways := hchanges.keepsWays
  -- one case for each kind of change; what was accounted for before stays so elsewhere
  cases hchanges with
  | nothing heq =>
    subst heq
    exact h location
  | creates hgains hleads =>
    rcases hgains location with heq | ⟨hnone, lead, hlead, hreaches⟩
    · exact (h location).of_at?_eq hways heq
    · have hnew := hreaches.directory
      cases h location with
      | same hsame => exact .created (hsame.symm.trans hnone) ⟨lead, hlead, hreaches⟩
      | exchange hthere =>
        rw [hleads _ hthere, hnone] at hnew
        cases hnew
      | created _ hpasses =>
        obtain ⟨_, _, hbefore⟩ := hpasses
        cases hnone.symm.trans hbefore.directory
      | written _ _ hnow => cases hnone.symm.trans hnow.holds
  | replaces hname hreplaces =>
    rename_i name held directory
    by_cases heq : location = directory ++ [name]
    · subst heq
      refine .exchange hreplaces.leads_after hname rfl
        ((h _).isPlain_start hreplaces.plain) ?_
      rw [IsPlain, hreplaces.sets.at?_self]
      cases held <;> simp
    · exact (h location).of_at?_eq hways (hreplaces.sets.at?_of_ne heq)
  | writes hmade hplain hsets hresolves =>
    rename_i path content place
    by_cases heq : location = place
    · subst heq
      exact .written hmade ((h _).isPlain_start hplain) ⟨hresolves, hsets.at?_self⟩
    · exact (h location).of_at?_eq hways (hsets.at?_of_ne heq)

end Mailbox

/-! ## Runs -/

open Mailbox Disk

/-- Others write exchange files of a mailbox, under whatever paths, and leave the other files alone;
they may raise the flag. -/
def WritesExchanges (root : Path) (before after : Scene) : Prop :=
  after.disk = before.disk ∨ ∃ name content directory, isExchangeName name = true ∧
    Replaces before.disk root name (some content) after.disk directory

variable {root : Path} {typed : List Bytes} {before after : Scene} {events : List Event}
  {operation : Operation}

/-- What patch commands have made among some events. -/
def IsPatch (typed : List Bytes) (events : List Event) (path : Path) (content : Bytes) : Prop :=
  IsPatched typed path content ∧ .own (.wrote path content (.ok ())) ∈ events

/-- Others who write exchange files make such changes. -/
theorem changes_of_others (h : WritesExchanges root before after) {made : Path → Bytes → Prop} :
    Changes root made before.disk after.disk := by
  rcases h with heq | ⟨name, content, directory, hname, hreplaces⟩
  · exact .nothing heq
  · exact .replaces hname hreplaces

/-- A change that may fail makes a change, or none. -/
theorem Scene.change_cases {edit : Disk → Except DiskFault Disk} {result : Except DiskFault Unit}
    (h : before.change edit = (result, after)) :
    after.disk = before.disk ∨ result = .ok () ∧ edit before.disk = .ok after.disk := by
  rcases result with fault | ⟨⟩
  · exact .inl (congrArg Scene.disk (eq_of_change_error h))
  · exact .inr ⟨rfl, (change_eq_ok_iff.mp h).1⟩

/-- So does every permitted operation of the program, one case each. -/
theorem changes_of_turns (hlinks : HasNoLinks before.disk root)
    (hmay : Permitted root typed operation) (hmem : .own operation ∈ events)
    (hturns : operation.Turns before after) :
    Changes root (IsPatch typed events) before.disk after.disk := by
  cases hmay with
  | looks hview => exact .nothing (congrArg Scene.disk (Operation.Turns.eq_of_view hturns hview))
  | makes result =>
    have hdisk : after.disk = (before.disk.makeDirectories root).2 :=
      congrArg (fun made => made.2.disk) (Eq.symm hturns)
    rw [hdisk]
    exact .creates (gainsOn_makeDirectories before.disk root)
      fun directory hleads => makeDirectories_of_leads hleads
  | posts index content result =>
    rcases Scene.change_cases hturns with heq | ⟨-, hwrite⟩
    · exact .nothing heq
    · have hname := isExchangeName_requestName index
      obtain ⟨directory, hreplaces⟩ := replaces_of_write hlinks hname hwrite
      exact .replaces hname hreplaces
  | patches result hpatched =>
    rcases Scene.change_cases hturns with heq | ⟨rfl, hwrite⟩
    · exact .nothing heq
    · obtain ⟨location, hresolve, hplain, hsets⟩ := write_eq_ok hwrite
      exact .writes ⟨hpatched, hmem⟩ hplain hsets (resolve_of_keepsWays (hsets.keepsWays hplain)
        (.inr ⟨_, hsets.at?_self⟩) hresolve)
  | deletes result hname =>
    rcases Scene.change_cases hturns with heq | ⟨-, hremove⟩
    · exact .nothing heq
    · obtain ⟨directory, hreplaces⟩ := replaces_of_removeFile hlinks hname hremove
      exact .replaces hname hreplaces

/-- Whether all that happens is what the program may do, and what others do to exchange files. -/
structure AreHarmless (root : Path) (typed : List Bytes) (events : List Event) : Prop where
  own : ∀ operation, .own operation ∈ events → Permitted root typed operation
  others : Obeys (WritesExchanges root) events

/-- Harmless events are harmless at first. -/
theorem AreHarmless.of_append_left {more : List Event}
    (h : AreHarmless root typed (events ++ more)) : AreHarmless root typed events :=
  ⟨fun operation hmem => h.own operation (List.mem_append_left more hmem), h.others.of_append_left⟩

/-- After harmless events every location is accounted for, by induction on the run. -/
theorem accounts_of_becomes (h : before.Becomes events after)
    (hharmless : AreHarmless root typed events) (hlinks : HasNoLinks before.disk root) :
    HasNoLinks after.disk root ∧
      ∀ location, Accounts root (IsPatch typed events) before.disk after.disk location := by
  refine h.keeps (fun scene => HasNoLinks scene.disk root ∧
    ∀ location, Accounts root (IsPatch typed events) before.disk scene.disk location)
    (fun event hmem left reached hturns hholds => ?_) ⟨hlinks, fun location => .same rfl⟩
  obtain ⟨hleft, haccounts⟩ := hholds
  have hchanges : Changes root (IsPatch typed events) left.disk reached.disk := by
    cases event with
    | own operation => exact changes_of_turns hleft (hharmless.own operation hmem) hmem hturns
    | others =>
      obtain ⟨rfl, rfl⟩ := hturns
      exact changes_of_others (hharmless.others left reached hmem)
  exact ⟨hchanges.hasNoLinks hleft, Accounts.of_changes haccounts hchanges⟩

end ScriptMailbox
