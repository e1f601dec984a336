import ScriptMailbox.Duet
import ScriptMailbox.Proofs.Mailbox.Clearing
import ScriptMailbox.Proofs.Program.Leavings

/-!
# Stale files

The console sweeps its mailbox before it does anything else, and nobody reacts before it has written
a file. Disks that differ only in exchange files which can be deleted are the same once they have
been swept, so nothing that the console does depends on which of them it has met
(`runProgram_eq_of_stale`).
-/

namespace ScriptMailbox

open Mailbox

/-! ## Before anyone reacts -/

namespace Duet

variable {root : Path} {duet : Duet}

/-- The duet with another disk. -/
def withDisk (duet : Duet) (disk : Disk) : Duet :=
  { duet with scene := { duet.scene with disk := disk } }

/-- Before a file is written, the sweep at the start of the console acts on the disk alone. -/
theorem sweep_quiet (hquiet : duet.record = []) :
    ((sweep root : DuetM SweepReport) duet).2 =
      duet.withDisk (duet.scene.disk.cleared duet.listing root) := by
  obtain ⟨scene, typed, shown, record, partner, listing, patience⟩ := duet
  obtain rfl : record = [] := hquiet
  refine sweep_of_discards (withDisk ⟨scene, typed, shown, [], partner, listing, patience⟩)
    (fun path disk => ?_) (fun _ _ => rfl) root scene.disk
  show (perform _ _ _).2 = _
  simp only [perform, move, Scene.change, Disk.discard, withDisk, List.isEmpty_nil, if_true]
  cases disk.removeFile path <;> rfl

end Duet

/-! ## Runs -/

section

variable {σ α β : Type} {work : StateM σ α} {left right : σ}

/-- Computations that do the same at first do the same as a whole. -/
theorem bind_congr_host {next : α → StateM σ β} (h : work left = work right) :
    (work >>= next) left = (work >>= next) right := by
  rw [host_bind h]
  rfl

/-- Where the result does not matter, only the state does. -/
theorem bind_congr_state {next : StateM σ β} (h : (work left).2 = (work right).2) :
    (work >>= fun _ => next) left = (work >>= fun _ => next) right := by
  show next (work left).2 = next (work right).2
  rw [h]

end

namespace Program

variable {left right : Disk} {documents : Documents} {arguments : List String}
  {request : Arguments.Request} {settings : Settings} {name : String}

/-- The console does not know more of the disk than what the first sweep leaves. -/
theorem console_congr {left right : Duet}
    (h : ((sweep settings.rootDir : DuetM SweepReport) left).2 =
      ((sweep settings.rootDir : DuetM SweepReport) right).2) :
    (console Duet.serve settings : DuetM (Except Halt Unit)) left =
      console Duet.serve settings right :=
  bind_congr_state h

/-- The task of the console, given or not. -/
theorem perform_console (hconsole : request.task = none ∨ request.task = some .repl)
    {m : Type → Type} [Monad m] [Host m] {serve : SessionM m Unit} :
    perform serve settings request.task = console serve settings := by
  rcases hconsole with h | h <;> rw [h] <;> rfl

/-- Exchange files that were there before and can be deleted do not influence the console: whatever
is typed, and however a partner reacts to what the program writes, it ends in the same way, shows
the same and leaves the same files. -/
theorem runProgram_eq_of_stale (hparse : Arguments.parse arguments = .ok request)
    (hconsole : request.task = none ∨ request.task = some .repl)
    (hsettings : Settings.resolve documents request = .ok settings)
    (hdiffer : Disk.DifferInExchanges settings.rootDir left right)
    (hfit : ∀ directory name, left.Leads settings.rootDir directory →
      isExchangeName name = true →
        left.at? (directory ++ [name]) ≠ right.at? (directory ++ [name]) →
          IsFit settings.rootDir name)
    (cancelled : Bool) (typed : List Bytes) (partner : Partner) (listing : Listing)
    (patience : ℕ) :
    let run (disk : Disk) := (Duet.opening ⟨disk, cancelled⟩ typed partner listing
      patience).runProgram documents arguments
    run left = run right := by
  intro run
  have hrun (disk : Disk) : run disk =
      (console Duet.serve settings >>= conclude : DuetM Ending)
        (.opening ⟨disk, cancelled⟩ typed partner listing patience) := by
    rw [← perform_console hconsole, ← run_eq hparse hsettings]
    rfl
  have hswept : ((sweep settings.rootDir : DuetM SweepReport)
        (.opening ⟨left, cancelled⟩ typed partner listing patience)).2 =
      ((sweep settings.rootDir : DuetM SweepReport)
        (.opening ⟨right, cancelled⟩ typed partner listing patience)).2 := by
    rw [Duet.sweep_quiet rfl, Duet.sweep_quiet rfl]
    exact congrArg (Duet.opening ⟨·, cancelled⟩ typed partner listing patience)
      (Disk.cleared_eq listing (Settings.rootDir_ne_empty hparse hsettings) hdiffer hfit)
  rw [hrun, hrun]
  exact bind_congr_host (console_congr hswept)

/-! ## A stale request -/

/-- A partner who writes the same response whatever happens. -/
def answering : Partner := fun _ scene =>
  (Scene.change (·.write ⟨"t/out0.txt"⟩ (Text.Utf8.encode "new")) scene).2

/-- The two mailboxes differ in the old request alone. -/
theorem at?_stale (location : Location) :
    staleMailbox.at? location =
      if location = ["t", "in0.txt"] then some (.file (Text.Utf8.encode "old"))
      else emptyMailbox.at? location :=
  Disk.at?_put _ location (by decide +kernel)

/-- They do differ. -/
theorem stale_ne_empty : staleMailbox ≠ emptyMailbox := by decide +kernel

/-- They differ in an exchange file that can be deleted. -/
theorem differInExchanges_stale {root : Path} (hleads : staleMailbox.Leads root ["t"]) :
    Disk.DifferInExchanges root staleMailbox emptyMailbox := by
  intro location hne
  by_cases heq : location = ["t", "in0.txt"]
  · subst heq
    have hnone : emptyMailbox.at? ["t", "in0.txt"] = none := by decide +kernel
    refine ⟨?_, ?_, ["t"], "in0.txt", hleads, by decide +kernel, rfl⟩
    · simp [Disk.IsPlain, at?_stale]
    · simp [Disk.IsPlain, hnone]
  · exact absurd ((at?_stale location).trans (if_neg heq)) hne

/-- A console that looks for a stale request, and makes an exchange in its place. -/
theorem runProgram_eq_of_stale_request :
    let run (disk : Disk) := (Duet.opening ⟨disk, false⟩
      (["file t/in0.txt\n", "return 1\n"].map Text.Utf8.encode) answering .plain 2).runProgram
        .absent ["--root-dir", "t"]
    staleMailbox ≠ emptyMailbox ∧ run staleMailbox = run emptyMailbox := by
  refine ⟨stale_ne_empty, ?_⟩
  have hparse : Arguments.parse ["--root-dir", "t"] =
      .ok ⟨some ⟨"t"⟩, none, Arguments.defaultPollMs, none⟩ :=
    Arguments.parse_console (by decide +kernel) (by decide)
  have hleads : staleMailbox.Leads ⟨"t"⟩ ["t"] :=
    leads_stale (by decide +kernel) (by decide +kernel)
  have hsettings : Settings.resolve .absent ⟨some ⟨"t"⟩, none, Arguments.defaultPollMs, none⟩ =
      .ok (sendSettings "t") := rfl
  refine runProgram_eq_of_stale hparse (.inl rfl) hsettings (differInExchanges_stale hleads) ?_
    false _ answering .plain 2
  rintro directory name hdirectory - hne
  obtain rfl := hdirectory.unique hleads
  have hname : ["t", name] = ["t", "in0.txt"] := by
    by_contra hother
    exact hne ((at?_stale _).trans (if_neg hother))
  obtain rfl : name = "in0.txt" := by simpa using hname
  exact ⟨by decide +kernel, by decide +kernel⟩

/-! ## Where a stale request stays -/

section

variable {count : ℕ}

/-- Below a path that is just short enough for the machine, no path of a file is. -/
theorem not_isFit_slashed (hcount : count + 1 = Path.byteLimit)
    (hname : isExchangeName name = true) : ¬IsFit ⟨slashed count⟩ name := by
  have hlong := Path.utf8ByteSize_lt_join ⟨slashed count⟩ (isEntryName_of_isExchangeName hname)
  rw [utf8ByteSize_slashed, hcount] at hlong
  rintro ⟨hfault, -⟩
  rw [Path.fault?, if_pos hlong] at hfault
  split_ifs at hfault

/-- So nothing is deleted there. -/
theorem sweep_slashed (hcount : count + 1 = Path.byteLimit) {duet : Duet}
    (hquiet : duet.record = []) (hleads : duet.scene.disk.Leads ⟨slashed count⟩ ["t"]) :
    ∃ report, (sweep ⟨slashed count⟩ : DuetM SweepReport) duet = (report, duet) := by
  have hfault : Path.fault? ⟨slashed count⟩ = none := by
    rw [fault?_slashed, if_neg (by omega)]
  have hcleared : duet.scene.disk.cleared duet.listing ⟨slashed count⟩ = duet.scene.disk := by
    refine Disk.ext_at? fun location =>
      (Disk.at?_cleared duet.listing hfault hleads location).2 ?_
    rintro ⟨name, hname, hfit, -⟩
    exact not_isFit_slashed hcount hname hfit
  refine ⟨_, Prod.ext rfl ?_⟩
  rw [Duet.sweep_quiet hquiet, hcleared]
  rfl

/-- A console at which nothing is typed leaves the disk as it is there. -/
theorem runProgram_slashed (hcount : count + 1 = Path.byteLimit) {disk : Disk}
    (hleads : disk.Leads ⟨slashed count⟩ ["t"]) :
    ((Duet.opening ⟨disk, false⟩ [] (fun _ scene => scene) .plain 0).runProgram .absent
      ["--root-dir", slashed count]).2.scene.disk = disk := by
  have hparse := Arguments.parse_console (ofArgument_slashed count) (slashed_ne_empty count)
  have hsettings : Settings.resolve .absent ⟨some ⟨slashed count⟩, none, Arguments.defaultPollMs,
      none⟩ = .ok (sendSettings (slashed count)) := rfl
  let start := Duet.opening ⟨disk, false⟩ [] (fun _ scene => scene) .plain 0
  let ended : Duet :=
    { start with shown := "" ++ Console.banner ++ Console.promptText .zero ++ "\n" }
  let settings := sendSettings (slashed count)
  obtain ⟨first, hfirst⟩ : ∃ report, (sweep settings.rootDir : DuetM _) start = (report, start) :=
    sweep_slashed hcount rfl hleads
  obtain ⟨last, hlast⟩ : ∃ report, (sweep settings.rootDir : DuetM _) ended = (report, ended) :=
    sweep_slashed hcount rfl hleads
  have hfinish : ((Crew.single.finish settings.rootDir 0 : DuetM _) ended).2 = ended := by
    rw [Crew.finish, if_neg (by decide), host_bind hlast]
    rfl
  have hconsole : (console Duet.serve settings : DuetM _) start = (.ok (), ended) := by
    rw [console, host_bind hfirst]
    exact Prod.ext rfl hfinish
  rw [Duet.runProgram, run_eq hparse hsettings, perform_console (.inl rfl), host_bind hconsole]
  rfl

/-- Below a path that is just short enough for the machine, the old request outlasts both sweeps. -/
theorem slashed_keeps_stale (hcount : count + 1 = Path.byteLimit) :
    let root := slashed count
    let run (disk : Disk) := (Duet.opening ⟨disk, false⟩ [] (fun _ scene => scene) .plain
      0).runProgram .absent ["--root-dir", root]
    (∃ request settings, Arguments.parse ["--root-dir", root] = .ok request ∧
        request.task = none ∧ Settings.resolve .absent request = .ok settings ∧
        settings.rootDir = ⟨root⟩) ∧
      Disk.DifferInExchanges ⟨root⟩ staleMailbox emptyMailbox ∧
      (run staleMailbox).2.scene.disk ≠ (run emptyMailbox).2.scene.disk := by
  intro root run
  have hparse := Arguments.parse_console (ofArgument_slashed count) (slashed_ne_empty count)
  have hdiffer := differInExchanges_stale (leads_slashed count)
  refine ⟨⟨_, sendSettings root, hparse, rfl, rfl, rfl⟩, hdiffer, ?_⟩
  have hstale : (run staleMailbox).2.scene.disk = staleMailbox :=
    runProgram_slashed hcount (leads_slashed count)
  have hempty : (run emptyMailbox).2.scene.disk = emptyMailbox :=
    runProgram_slashed hcount ((leads_slashed count).of_keepsWays hdiffer.keepsWays)
  rw [hstale, hempty]
  exact stale_ne_empty

/-- Below a path that is just short enough for the machine, a stale request stays. -/
theorem runProgram_ne_of_slashed :
    let root := slashed 4094
    let run (disk : Disk) := (Duet.opening ⟨disk, false⟩ [] (fun _ scene => scene) .plain
      0).runProgram .absent ["--root-dir", root]
    (∃ request settings, Arguments.parse ["--root-dir", root] = .ok request ∧
        request.task = none ∧ Settings.resolve .absent request = .ok settings ∧
        settings.rootDir = ⟨root⟩) ∧
      Disk.DifferInExchanges ⟨root⟩ staleMailbox emptyMailbox ∧
      (run staleMailbox).2.scene.disk ≠ (run emptyMailbox).2.scene.disk :=
  slashed_keeps_stale rfl

end

end Program

end ScriptMailbox
