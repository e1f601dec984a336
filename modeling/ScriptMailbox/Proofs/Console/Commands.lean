import ScriptMailbox.Proofs.Console.Stretches

/-!
# What a line does to the log

Whatever a line asks for, it ends within the bounds of one stretch: after the last look at the flag
that finds it down, the console does little, and a look that finds the flag up ends the exchange.
This is shown for every part of a session, and gives what one turn of the console does.
-/

namespace ScriptMailbox

open Note (did)
open Stage (polls)
open Terminal

/-- The halt with which a computation ends, if it ends with one. -/
def haltOf {α : Type} : Except Halt α → Option Halt
  | .ok _ => none
  | .error halt => some halt

/-- What is known when a part of a session ends, apart from how little it has done. -/
structure IsTold (done : List Note) (halt? : Option Halt) (session : Session)
    (terminal : Terminal) : Prop where
  seen : IsSeen done
  /-- The indexes are used up only by a response that is read. -/
  exhausted : halt? = some .exhausted →
    session.channel.index.value + 1 = Text.Decimal.bound64 ∧
      ∃ raw, did (.opened (session.channel.responsePath session.channel.index) (.ok raw)) ∈ done
  /-- Nobody waits for ever while the flag is up. -/
  unanswered : halt? = some .unanswered → terminal.stage.scene.cancelled = false
  /-- There are no termination signals at a terminal. -/
  terminated : halt? ≠ some .terminated

/-- Whether little has been done since the last look at the flag, or the last look has found it up
and the exchange has been cancelled. -/
def IsEnded (reports : ℕ) (rest : List Note) : Option Halt → Prop
  | none => IsModest reports rest
  | some halt => IsModest 0 rest ∨
      ∃ quiet path, halt = .failed (.cancelled path) ∧ rest = quiet ++ [did (.checked true)] ∧
        IsModest 0 quiet

/-- Whether little has been done since the last look at the flag among some deeds. -/
def IsHandled (reports : ℕ) (done : List Note) (halt? : Option Halt) : Prop :=
  ∃ rest, IsSince done rest ∧ IsEnded reports rest halt?

/-- What an exchange does: nothing, or one look that finds the flag up, or little after its last
look that finds the flag down. -/
inductive IsExchange : List Note → Option Halt → Prop
  | nothing (halt? : Option Halt) : IsExchange [] halt?
  | calledOff (path : Path) :
    IsExchange [did (.checked true)] (some (.failed (.cancelled path)))
  | checked (early : List Note) {rest : List Note} {halt? : Option Halt}
    (h : IsEnded 0 rest halt?) : IsExchange (early ++ did (.checked false) :: rest) halt?

variable {done more rest before : List Note} {halt? : Option Halt} {session session' : Session}
  {terminal terminal' : Terminal} {reports : ℕ} {text : String}

/-- A part that ends well has only to have seen its files. -/
theorem isTold_none (h : IsSeen done) : IsTold done none session terminal := by
  refine ⟨h, fun hhalt => ?_, fun hhalt => ?_, fun hhalt => ?_⟩ <;> cases hhalt

/-- So has one that fails. -/
theorem isTold_failed (h : IsSeen done) (failure : Failure) :
    IsTold done (some (.failed failure)) session terminal := by
  refine ⟨h, fun hhalt => ?_, fun hhalt => ?_, fun hhalt => ?_⟩ <;> cases hhalt

/-- What was done before may be added, if its files were seen. -/
theorem IsTold.prepend (h : IsTold done halt? session terminal) (hbefore : IsSeen before) :
    IsTold (before ++ done) halt? session terminal := by
  refine ⟨hbefore.append h.seen, fun hhalt => ?_, h.unanswered, h.terminated⟩
  obtain ⟨hlast, raw, hmem⟩ := h.exhausted hhalt
  exact ⟨hlast, raw, List.mem_append_right before hmem⟩

/-- Little work without reports ends within every bound. -/
theorem isEnded_of_modest (h : IsModest 0 rest) (halt? : Option Halt) :
    IsEnded reports rest halt? := by
  cases halt? with
  | none => exact h.mono (Nat.zero_le reports)
  | some halt => exact .inl h

/-- An exchange may come behind other work. -/
theorem IsExchange.handled (h : IsExchange done halt?) (hbefore : IsModest 0 before) :
    IsHandled reports (before ++ done) halt? := by
  cases h with
  | nothing =>
    rw [List.append_nil]
    exact ⟨before, isSince_self before, isEnded_of_modest hbefore halt?⟩
  | calledOff path =>
    exact ⟨_, isSince_self _, .inr ⟨before, path, rfl, rfl, hbefore⟩⟩
  | @checked early rest halt? hended =>
    refine ⟨rest, ?_, ?_⟩
    · rw [← List.append_assoc]
      exact (isSince_self rest).behind (before ++ early)
    · cases halt? with
      | none => exact IsModest.mono hended (Nat.zero_le reports)
      | some halt => exact hended

/-- What ends well may be followed by a text. -/
theorem IsHandled.concat_lines (h : IsHandled 0 done none) (hlines : isLines text = true) :
    IsHandled 1 (done ++ [.showed text]) none := by
  obtain ⟨rest, hsince, hmodest⟩ := h
  have hrest : IsModest 1 (rest ++ [.showed text]) := IsModest.concat_lines hmodest hlines
  refine ⟨rest ++ [.showed text], hsince.append [.showed text], ?_⟩
  exact hrest

/-- It is within the bounds of a stretch. -/
theorem isHandled_of_modest (h : IsModest 0 done) : IsHandled reports done halt? :=
  ⟨done, isSince_self done, isEnded_of_modest h halt?⟩

/-- A part within the bounds without a report is within them with one. -/
theorem IsHandled.mono_none (h : IsHandled 0 done none) : IsHandled 1 done none := by
  obtain ⟨rest, hsince, hmodest⟩ := h
  exact ⟨rest, hsince, IsModest.mono hmodest (Nat.zero_le 1)⟩

/-! ## Exchanges -/

/-- One more try is one more look and one more check that finds the flag down. -/
theorem polls_succ (path : Path) (tries : ℕ) :
    polls path (tries + 1) = polls path tries ++ [.looked path none, .checked false] := by
  induction tries with
  | zero => rfl
  | succ tries ih =>
    calc
      polls path (tries + 2) = [.looked path none, .checked false] ++ polls path (tries + 1) := rfl
      _ = [.looked path none, .checked false] ++
          (polls path tries ++ [.looked path none, .checked false]) := by rw [ih]
      _ = polls path (tries + 1) ++ [.looked path none, .checked false] := rfl

/-- While a response is waited for, the last look that has found the flag down stands at the start,
or behind the last look for the response. -/
theorem exists_last_check (channel : Channel) (document : String) (path : Path) (tries : ℕ) :
    ∃ early between,
      (channel.posting document ++ polls path tries).map did =
        early ++ did (.checked false) :: between ∧
      (between = [] ∨ between = [did (.made channel.root (.ok ())),
        did (.wrote (channel.requestPath channel.index) (Text.Utf8.encode document)
          (.ok ()))]) := by
  cases tries with
  | zero => exact ⟨[], _, rfl, .inr rfl⟩
  | succ tries =>
    refine ⟨(channel.posting document ++ polls path tries ++
      [Operation.looked path none]).map did, [], ?_, .inl rfl⟩
    rw [polls_succ]
    simp

/-- Neither posting nor waiting opens a file. -/
theorem isOpening_posting_polls (channel : Channel) (document : String) (path : Path) (tries : ℕ) :
    ∀ note ∈ (channel.posting document ++ polls path tries).map did, note.isOpening = false := by
  have hpolls : ∀ note ∈ (polls path tries).map did, note.isOpening = false := by
    induction tries with
    | zero => exact List.forall_mem_nil _
    | succ tries ih => simpa [polls] using ih
  rw [List.map_append]
  exact List.forall_mem_append.mpr ⟨by simp [Channel.posting], hpolls⟩

namespace Exchange

variable {exchange : Exchange} {operations : List Operation}

/-- A posted request is followed by little, if what comes behind the wait is little. -/
theorem Posts.isExchange {tries : ℕ}
    (h : exchange.Posts (polls exchange.response tries ++ operations))
    (hended : ∀ between, (∀ note ∈ between, note.isQuiet = true) → IsModest 0 between →
      between.countP Note.isOpening = 0 → IsEnded 0 (between ++ operations.map did) halt?) :
    IsExchange ((own exchange.events).map did) halt? := by
  obtain ⟨document, -, hown, -⟩ := h
  obtain ⟨early, between, hcheck, hbetween⟩ :=
    exists_last_check exchange.channel document exchange.response tries
  rw [hown, ← List.append_assoc, List.map_append, hcheck, List.append_assoc, List.cons_append]
  refine .checked early (hended between ?_ ?_ ?_)
  · rcases hbetween with rfl | rfl <;> simp
  · rcases hbetween with rfl | rfl
    · exact isModest_nil
    · exact ⟨by simp, by simp, by simp, by simp⟩
  · rcases hbetween with rfl | rfl <;> rfl

/-- So in an exchange files are seen before as far as they are behind the wait. -/
theorem Posts.isSeen {tries : ℕ}
    (h : exchange.Posts (polls exchange.response tries ++ operations))
    (hseen : IsSeen (operations.map did)) : IsSeen ((own exchange.events).map did) := by
  obtain ⟨document, -, hown, -⟩ := h
  rw [hown, ← List.append_assoc, List.map_append]
  exact (isSeen_of_no_opening (isOpening_posting_polls _ _ _ tries)).append hseen

end Exchange

namespace Exit

variable {exchange : Exchange} {exit : Exit}

/-- Whichever way an exchange ends, little is done after the last look at the flag that finds it
down. -/
theorem Describes.isExchange (h : exit.Describes exchange) :
    IsExchange ((own exchange.events).map did) (haltOf exchange.result) := by
  have hlooked (found : Option Kind) : ∀ note ∈ [did (.looked exchange.response found)],
      note.isIdle = true := List.forall_mem_singleton.mpr rfl
  have hopened (kind : Kind) (result : Except DiskFault Bytes) (halt? : Option Halt)
      (between : List Note) (_ : ∀ note ∈ between, note.isQuiet = true)
      (hmodest : IsModest 0 between) (hnone : between.countP Note.isOpening = 0) :
      IsEnded 0 (between ++ [Operation.looked exchange.response (some kind),
        .opened exchange.response result].map did) halt? := by
    have hseen := hmodest.append_idle (hlooked (some kind))
    have hnone' : (between ++ [did (.looked exchange.response (some kind))]).countP
        Note.isOpening = 0 := by
      rw [List.countP_append, hnone]
      rfl
    have hread := hseen.concat_opening hnone' exchange.response result
    rw [List.append_assoc] at hread
    exact isEnded_of_modest hread halt?
  -- only an exchange that is called off, before or in its wait, ends with a look that finds the
  -- flag up
  cases exit with
  | invalid =>
    rw [h.1]
    exact .nothing _
  | calledOff =>
    rw [h.1, h.2.2.2]
    exact .calledOff _
  | refused =>
    obtain ⟨-, document, fault, -, ⟨hown, hresult⟩ | ⟨hown, hresult⟩⟩ := h
    · rw [hown]
      exact .checked [] (isEnded_of_modest (isModest_of_idle (by simp [Note.isIdle])) _)
    · rw [hown]
      refine .checked [] (isEnded_of_modest ⟨?_, ?_, ?_, ?_⟩ _) <;> simp
  | cancelled =>
    obtain ⟨-, hresult, tries, hposts⟩ := h
    rw [hresult]
    refine hposts.isExchange fun between hquiet hmodest hnone => ?_
    refine .inr ⟨between ++ [did (.looked exchange.response none)], exchange.response, rfl, ?_,
      hmodest.append_idle (hlooked none)⟩
    rw [List.append_assoc]
    rfl
  | unreadable =>
    obtain ⟨-, tries, kind, fault, hposts, -⟩ := h
    exact hposts.isExchange (hopened kind (.error fault) _)
  | answered =>
    obtain ⟨tries, kind, raw, index, hposts, -⟩ := h
    exact hposts.isExchange (hopened kind (.ok raw) _)
  | exhausted =>
    obtain ⟨-, -, -, tries, kind, raw, hposts⟩ := h
    exact hposts.isExchange (hopened kind (.ok raw) _)
  | waiting =>
    obtain ⟨-, hresult, ⟨tries, hposts⟩, -⟩ := h
    obtain ⟨document, -, hown, -⟩ := hposts
    have hdone : (own exchange.events).map did =
        ((exchange.channel.posting document ++ polls exchange.response tries ++
          [Operation.looked exchange.response none]).map did) ++ did (.checked false) :: [] := by
      rw [hown]
      simp
    rw [hdone]
    exact .checked _ (isEnded_of_modest isModest_nil _)

/-- What is known when an exchange has ended. -/
theorem Describes.isTold (h : exit.Describes exchange)
    (hsession : session.channel = exchange.next)
    (hterminal : terminal.stage.scene = exchange.scene) :
    IsTold ((own exchange.events).map did) (haltOf exchange.result) session terminal := by
  have hunopened : ∀ operations : List Operation,
      (∀ note ∈ operations.map did, note.isOpening = false) → IsSeen (operations.map did) :=
    fun _ => isSeen_of_no_opening
  -- the exits that end the console tell why: no index is left, or nobody will ever answer
  cases exit with
  | invalid =>
    obtain ⟨hown, -, fault, -, hresult⟩ := h
    rw [hown, hresult]
    exact isTold_failed (hunopened [] (by simp)) _
  | calledOff =>
    obtain ⟨hown, -, -, hresult⟩ := h
    rw [hown, hresult]
    exact isTold_failed (hunopened [_] (by simp)) _
  | refused =>
    obtain ⟨-, document, fault, -, ⟨hown, hresult⟩ | ⟨hown, hresult⟩⟩ := h
    · rw [hown, hresult]
      exact isTold_failed (hunopened [_, _] (by simp)) _
    · rw [hown, hresult]
      exact isTold_failed (hunopened [_, _, _] (by simp)) _
  | cancelled =>
    obtain ⟨-, hresult, tries, hposts⟩ := h
    rw [hresult]
    exact isTold_failed (hposts.isSeen (hunopened [_, _] (by simp))) _
  | unreadable =>
    obtain ⟨-, tries, kind, fault, hposts, hresult⟩ := h
    rw [hresult]
    exact isTold_failed (hposts.isSeen (isSeen_look exchange.response kind _)) _
  | answered =>
    obtain ⟨tries, kind, raw, index, hposts, -, -, ⟨answer, -, hresult⟩ | ⟨damage, -, hresult⟩⟩ := h
    · rw [hresult]
      exact isTold_none (hposts.isSeen (isSeen_look exchange.response kind _))
    · rw [hresult]
      exact isTold_failed (hposts.isSeen (isSeen_look exchange.response kind _)) _
  | exhausted =>
    obtain ⟨hlast, hnext, hresult, tries, kind, raw, hposts⟩ := h
    rw [hnext] at hsession
    rw [hresult]
    refine ⟨hposts.isSeen (isSeen_look exchange.response kind _), fun _ => ⟨?_, raw, ?_⟩,
      fun hhalt => (by cases hhalt), fun hhalt => by cases hhalt⟩
    · rw [hsession]
      exact hlast
    · obtain ⟨document, -, hown, -⟩ := hposts
      rw [hown, hsession]
      simp [Exchange.response]
  | waiting =>
    obtain ⟨-, hresult, ⟨tries, hposts⟩, -, hflag⟩ := h
    rw [hresult]
    refine ⟨hposts.isSeen (hunopened [_, _] (by simp)), fun hhalt => (by cases hhalt), fun _ => ?_,
      fun hhalt => by cases hhalt⟩
    rw [hterminal]
    exact hflag

end Exit

/-! ## Files -/

/-- Whether at most one file is read, right after it has been seen. -/
structure IsReading (done : List Note) : Prop where
  modest : IsModest 0 done
  writes : done.countP Note.isWrite = 0
  seen : IsSeen done

/-- Reading nothing is reading at most one file. -/
theorem isReading_nil : IsReading [] :=
  ⟨isModest_nil, rfl, isSeen_of_no_opening (List.forall_mem_nil _)⟩

/-- What is done to read a file that a user has named, with the text or the failure. -/
inductive Reads (path : Path) : List Note → Except Failure String → Prop
  | missing {found : Option Kind} (h : found ≠ some .file) :
    Reads path [did (.looked path found)] (.error (.missingFile path))
  | opened (result : Except DiskFault Bytes) :
    Reads path [did (.looked path (some .file)), did (.opened path result)]
      (TextFile.textOf path result)

/-- A script is looked at, and read if it is a file. -/
theorem gives_reads (path : Path) : Gives (TextFile.readNamed path) (Reads path) := by
  refine (gives_kind? path).bind ?_
  rintro _ found rfl
  by_cases hfile : found = some .file
  · subst hfile
    rw [if_pos rfl]
    refine (gives_read path).bind ?_
    rintro _ result rfl
    refine (gives_pure _).mono ?_
    rintro _ _ ⟨rfl, rfl⟩
    exact .opened result
  · rw [if_neg hfile]
    refine (gives_pure _).mono ?_
    rintro _ _ ⟨rfl, rfl⟩
    exact .missing hfile

/-- A file that a user has named is looked for, and opened if it is there. -/
theorem gives_readNamed (path : Path) :
    Gives (TextFile.readNamed path) fun done _ => IsReading done := by
  have hlooked (found : Option Kind) : IsModest 0 [did (.looked path found)] :=
    isModest_of_idle (List.forall_mem_singleton.mpr rfl)
  refine (gives_reads path).mono fun done _ hreads => ?_
  cases hreads with
  | missing => exact ⟨hlooked _, rfl, isSeen_of_no_opening (List.forall_mem_singleton.mpr rfl)⟩
  | opened result =>
    exact ⟨(hlooked _).concat_opening rfl path result, rfl, isSeen_look path .file result⟩

/-- A source to patch is read unless the tree has it. -/
theorem gives_patchTree (tree : SourceTree) (file : Option Path) (query : Query) (text : String)
    (afterLine : ℕ) :
    Gives (tree.patch file query text afterLine) fun done _ => IsReading done := by
  cases file with
  | none =>
    refine (gives_pure _).mono ?_
    rintro done _ ⟨rfl, -⟩
    exact isReading_nil
  | some path =>
    have hsource : Gives (tree.readSource path) fun done _ => IsReading done := by
      unfold SourceTree.readSource
      cases tree.get? path with
      | none => exact gives_readNamed path
      | some content =>
        refine (gives_pure _).mono ?_
        rintro done _ ⟨rfl, -⟩
        exact isReading_nil
    refine hsource.bind fun done content hreading => ?_
    refine (gives_pure _).mono ?_
    rintro more _ ⟨rfl, -⟩
    rw [List.append_nil]
    exact hreading

/-- A sweep is idle as far as the flag is concerned. -/
theorem gives_sweep (root : Path) :
    Gives (Mailbox.sweep root) fun done _ => ∀ note ∈ done, note.isIdle = true := by
  have hremoves (names : List String) :
      Gives (Mailbox.removeAll root names) fun done _ => ∀ note ∈ done, note.isIdle = true := by
    induction names with
    | nil =>
      refine (gives_pure _).mono ?_
      rintro done _ ⟨rfl, -⟩
      exact List.forall_mem_nil _
    | cons name names ih =>
      refine (gives_removeFile (root.join name)).bind ?_
      rintro done result rfl
      refine ih.bind fun more report hidle => (gives_pure _).mono ?_
      rintro last _ ⟨rfl, -⟩
      rw [List.append_nil]
      exact List.forall_mem_cons.mpr ⟨rfl, hidle⟩
  refine (gives_fileNames root).bind ?_
  rintro done result rfl
  have hlisted : Note.isIdle (did (.listed root result)) = true := rfl
  have hends {report : Mailbox.SweepReport} : Gives (pure report) fun more _ =>
      ∀ note ∈ [did (.listed root result)] ++ more, note.isIdle = true := by
    refine (gives_pure report).mono ?_
    rintro more _ ⟨rfl, -⟩
    exact List.forall_mem_singleton.mpr hlisted
  rcases result with fault | names
  · cases fault <;> exact hends
  · refine (hremoves _).mono fun more _ hidle => ?_
    exact List.forall_mem_cons.mpr ⟨hlisted, hidle⟩

/-! ## Sessions -/

namespace Session

/-- An exchange at a terminal has one of the exits. -/
theorem runsFrom_exchange {session : Session} (payload : Payload) :
    RunsFrom session (onChannel (Channel.send payload)) fun done run =>
      ∃ (events : List Event) (exit : Exit), done = (own events).map did ∧
        exit.Describes ⟨session.channel, payload, run.1.1, run.1.2.channel, events,
          run.2.stage.scene⟩ := by
  intro terminal
  have hsend : (Channel.send payload : ChannelM TerminalM Payload) session.channel =
      Terminal.onStage ((Channel.send payload : ChannelM Play Payload) session.channel) :=
    corresponds_onStage.send payload session.channel
  obtain ⟨events, hhistory, hbecomes, exit, hexit⟩ :=
    Channel.ends_send session.channel payload terminal.stage
  rw [onChannel_apply, hsend]
  exact ⟨_, does_onStage ⟨events, hhistory, hbecomes, rfl⟩, events, exit, rfl, hexit⟩

/-- An exchange is within the bounds of a stretch. -/
theorem runs_exchange (payload : Payload) :
    Runs (onChannel (Channel.send payload)) fun done run =>
      IsExchange done (haltOf run.1.1) ∧ IsTold done (haltOf run.1.1) run.1.2 run.2 := by
  refine runs_of_runsFrom fun session => (runsFrom_exchange payload).mono ?_
  rintro _ run ⟨events, exit, rfl, hexit⟩
  exact ⟨hexit.isExchange, hexit.isTold rfl rfl⟩

/-- A text that is sent takes one exchange. -/
theorem runs_sendText (text : String) :
    Runs (sendText text) fun done run =>
      IsExchange done (haltOf run.1.1) ∧ IsTold done (haltOf run.1.1) run.1.2 run.2 := by
  refine (runs_exchange (.ofText text)).bind ?_ fun done halt session terminal hends => hends
  rintro done answer session terminal ⟨hexchange, htold⟩
  refine (runs_pure (if answer.isNil then none else some answer)).mono ?_
  rintro more run ⟨rfl, hok⟩
  rw [List.append_nil, hok]
  exact ⟨hexchange, isTold_none htold.seen⟩

/-- A file that is sent is read, and then its text is sent. -/
theorem runs_sendFile (path : Path) :
    Runs (sendFile path) fun done run => ∃ read sent,
      done = read ++ sent ∧ IsReading read ∧
        IsExchange sent (haltOf run.1.1) ∧ IsTold sent (haltOf run.1.1) run.1.2 run.2 := by
  refine runs_lift_bind (gives_readNamed path) fun read result hreading => ?_
  refine runs_ofExcept_bind _ (fun text _ => ?_) fun halt session terminal herror => ?_
  · refine (runs_sendText text).mono fun sent run hends => ?_
    exact ⟨read, sent, rfl, hreading, hends⟩
  · cases result with
    | ok text => cases herror
    | error failure =>
      cases herror
      exact ⟨read, [], rfl, hreading, .nothing _, isTold_failed isReading_nil.seen failure⟩

/-- A source is read, if the tree does not have it, and then written. -/
theorem runs_patch (file : Option Path) (query : Query) (text : String) (afterLine : ℕ) :
    Runs (patch file query text afterLine) fun done run =>
      IsModest 0 done ∧ IsTold done (haltOf run.1.1) run.1.2 run.2 := by
  refine runs_get_bind fun session => ?_
  refine runs_lift_bind (gives_patchTree _ file query text afterLine) fun read result hreading => ?_
  refine runs_ofExcept_bind _ (fun patched _ => ?_) fun halt session terminal herror => ?_
  · refine runs_lift_bind (gives_write patched.path _) ?_
    rintro done wrote rfl
    have hmodest := hreading.modest.concat_write hreading.writes patched.path
      (Text.Utf8.encode patched.content) wrote
    have hseen : IsSeen (read ++ [did (.wrote patched.path (Text.Utf8.encode patched.content)
        wrote)]) := hreading.seen.append (isSeen_of_no_opening (List.forall_mem_singleton.mpr rfl))
    refine runs_ofExcept_bind _ (fun _ _ => ?_) fun halt session terminal herror => ?_
    · refine runs_modify_bind ((runs_pure patched).mono ?_)
      rintro more run ⟨rfl, hok⟩
      rw [hok]
      exact ⟨hmodest, isTold_none hseen⟩
    · cases wrote with
      | ok => cases herror
      | error fault =>
        cases herror
        exact ⟨hmodest, isTold_failed hseen _⟩
  · cases result with
    | ok patched => cases herror
    | error failure =>
      cases herror
      rw [List.append_nil]
      exact ⟨hreading.modest, isTold_failed hreading.seen failure⟩

/-- A reset sweeps the mailbox. -/
theorem runs_reset :
    Runs reset fun done run => (∀ note ∈ done, note.isIdle = true) ∧
      ∃ report, run.1.1 = .ok report := by
  have hsweeps (channel : Channel) :
      Gives (Channel.reset channel) fun done _ => ∀ note ∈ done, note.isIdle = true := by
    refine (gives_sweep channel.root).bind fun done report hidle => (gives_pure _).mono ?_
    rintro more _ ⟨rfl, -⟩
    rw [List.append_nil]
    exact hidle
  refine runs_get_bind fun session => ?_
  refine runs_lift_bind (hsweeps session.channel) fun done swept hidle => ?_
  refine runs_modify_bind ((runs_pure swept.1).mono ?_)
  rintro more run ⟨rfl, hok⟩
  rw [List.append_nil]
  exact ⟨hidle, _, hok⟩

end Session

/-! ## Commands -/

namespace Console

/-- Whether a part of a command has done little since the last look at the flag, and what is known
when it ends. -/
def Handles {α : Type} (done : List Note) (run : (Except Halt α × Session) × Terminal) : Prop :=
  IsHandled 1 done (haltOf run.1.1) ∧ IsTold done (haltOf run.1.1) run.1.2 run.2

/-- Showing a text does nothing else. -/
theorem runs_say (text : String) :
    Runs (say text) fun done run => done = [.showed text] ∧ run.1.1 = .ok () := by
  intro session terminal
  obtain ⟨done, hdoes, hshown⟩ := gives_print text terminal
  exact ⟨done, hdoes, hshown, rfl⟩

/-- What has ended well is known, whatever comes of it. -/
theorem handles_ok {α : Type} {run : (Except Halt α × Session) × Terminal} {a : α}
    (h : IsHandled 1 done none) (hseen : IsSeen done) (hok : run.1.1 = .ok a) :
    Handles done run := by
  rw [Handles, hok]
  exact ⟨h, isTold_none hseen⟩

/-- No file is opened by showing a text. -/
theorem isSeen_showed (text : String) : IsSeen [.showed text] :=
  isSeen_of_no_opening (List.forall_mem_singleton.mpr rfl)

section

variable {α β : Type}

/-- A text may be shown at the end of a command. -/
theorem runs_say_behind (h : IsHandled 0 done none) (hseen : IsSeen done)
    (hlines : isLines text = true) :
    Runs (say text) fun more run => Handles (done ++ more) run := by
  refine (runs_say text).mono ?_
  rintro more run ⟨rfl, hok⟩
  exact handles_ok (h.concat_lines hlines) (hseen.append (isSeen_showed text)) hok

/-- Behind work within the bounds an answer may be shown. -/
theorem runs_echo_behind (answer : Option Payload) (h : IsHandled 0 done none)
    (hseen : IsSeen done) : Runs (echo answer) fun more run => Handles (done ++ more) run := by
  cases answer with
  | none =>
    refine (runs_pure ()).mono ?_
    rintro more run ⟨rfl, hok⟩
    rw [List.append_nil]
    exact handles_ok h.mono_none hseen hok
  | some payload => exact runs_say_behind h hseen (isLines_append _)

/-- A command goes on with what is left of it. -/
theorem runs_pure_behind {work : SessionM TerminalM α}
    (h : Runs work fun more run => Handles (done ++ more) run) (b : β) :
    Runs (work >>= fun _ => pure b) fun more run => Handles (done ++ more) run := by
  refine h.bind ?_ fun more halt session terminal hends => hends
  rintro more a session terminal ⟨hhandled, htold⟩
  refine (runs_pure b).mono ?_
  rintro last run ⟨rfl, hok⟩
  rw [List.append_nil]
  exact handles_ok hhandled htold.seen hok

end

/-- The announcement of a file counts for no bound. -/
theorem isIdle_announcement (path : Path) (index : Index) :
    Note.isIdle (.showed ("Sent file " ++ path.text ++ " to game as " ++
      Mailbox.requestName index ++ "\n")) = true := by
  have hlines := isLines_append ("Sent file " ++ path.text ++ " to game as " ++
    Mailbox.requestName index)
  simp [Note.isIdle, hlines, List.isPrefixOf]

/-- A file that is there is announced, read and sent. -/
theorem runs_obeyFile (path : Path) : Runs (obeyFile path) Handles := by
  refine runs_lift_bind (gives_kind? path) ?_
  rintro done found rfl
  have hlooked : Note.isIdle (did (.looked path found)) = true := rfl
  by_cases hfile : found = some .file
  · rw [if_pos hfile]
    refine runs_get_bind fun session => ?_
    refine runs_lift_bind (gives_print _) ?_
    rintro announced _ rfl
    -- announcing and reading come before the exchange, and look at no flag
    have hidle : ∀ note ∈ [did (.looked path found), .showed ("Sent file " ++ path.text ++
        " to game as " ++ Mailbox.requestName session.channel.index ++ "\n")],
        note.isIdle = true :=
      List.forall_mem_cons.mpr ⟨hlooked,
        List.forall_mem_singleton.mpr (isIdle_announcement path session.channel.index)⟩
    have hseen {read : List Note} (h : IsSeen read) : IsSeen ([did (.looked path found),
        .showed ("Sent file " ++ path.text ++ " to game as " ++
          Mailbox.requestName session.channel.index ++ "\n")] ++ read) :=
      (isSeen_of_no_opening (by simp)).append h
    refine (Session.runs_sendFile path).bind ?_ ?_
    · rintro _ answer session' terminal' ⟨read, sent, rfl, hreading, hexchange, htold⟩
      have hechoes := runs_echo_behind answer
        (hexchange.handled (hreading.modest.idle_append hidle))
        ((hseen hreading.seen).append htold.seen)
      simpa only [List.append_assoc, List.cons_append, List.nil_append] using hechoes
    · rintro _ halt session' terminal' ⟨read, sent, rfl, hreading, hexchange, htold⟩
      have hsent : IsHandled 1 _ _ := hexchange.handled (hreading.modest.idle_append hidle)
      have htells := htold.prepend (hseen hreading.seen)
      simp only [List.cons_append, List.nil_append] at hsent htells ⊢
      exact ⟨hsent, htells⟩
  · rw [if_neg hfile]
    refine (runs_throw _).mono ?_
    rintro more run ⟨rfl, herror⟩
    rw [Handles, herror]
    refine ⟨isHandled_of_modest (isModest_of_idle (List.forall_mem_singleton.mpr hlooked)), ?_⟩
    exact isTold_failed (isSeen_of_no_opening (List.forall_mem_singleton.mpr rfl)) _

/-- Every command does little after its last look at the flag. -/
theorem runs_obey (command : Command) : Runs (obey command) Handles := by
  have hnothing : IsHandled 0 [] none := isHandled_of_modest isModest_nil
  have hpure (next : Turn) : Runs (pure next) Handles := by
    refine (runs_pure next).mono ?_
    rintro done run ⟨rfl, hok⟩
    exact handles_ok hnothing.mono_none isReading_nil.seen hok
  cases command with
  | empty => exact hpure .again
  | help =>
    have hlines : isLines (String.join (Command.helpLines.map (· ++ "\n"))) = true :=
      isLines_join (List.cons_ne_nil _ _)
    exact runs_pure_behind (runs_say_behind hnothing isReading_nil.seen hlines) Turn.again
  | exit => exact hpure .quit
  | restart =>
    refine Session.runs_reset.bind ?_ ?_
    · rintro done _ _ _ ⟨hidle, -⟩
      have hlines : isLines "State reset. You can start a new game now.\n" = true := by
        decide +kernel
      exact runs_pure_behind (runs_say_behind (isHandled_of_modest (isModest_of_idle hidle))
        (isSeen_of_idle hidle) hlines) Turn.again
    · rintro done halt _ _ ⟨-, report, hnever⟩
      cases hnever
  | jump index => exact runs_modify_bind (hpure .again)
  | file path =>
    have hfile : Runs (obeyFile path) fun more run => Handles ([] ++ more) run := runs_obeyFile path
    exact runs_pure_behind hfile Turn.again
  | patch file query text =>
    refine (Session.runs_patch file query text _).bind ?_ ?_
    · rintro done patched _ _ ⟨hmodest, htold⟩
      exact runs_pure_behind (runs_say_behind (isHandled_of_modest hmodest) htold.seen
        (isLines_append _)) Turn.again
    · rintro done halt _ _ ⟨hmodest, htold⟩
      exact ⟨isHandled_of_modest hmodest, htold⟩
  | send text =>
    have halone {done : List Note} {halt? : Option Halt} {reports : ℕ}
        (h : IsExchange done halt?) : IsHandled reports done halt? := by
      have hbehind : IsHandled reports ([] ++ done) halt? := h.handled isModest_nil
      exact hbehind
    refine (Session.runs_sendText text).bind ?_ ?_
    · rintro done answer _ _ ⟨hexchange, htold⟩
      exact runs_pure_behind (runs_echo_behind answer (halone hexchange) htold.seen) Turn.again
    · rintro done halt _ _ ⟨hexchange, htold⟩
      exact ⟨halone hexchange, htold⟩

/-- Every line is obeyed within the bounds of a stretch. -/
theorem runs_obeyLine (line : String) : Runs (obeyLine line) Handles := by
  refine runs_ofExcept_bind _ (fun command _ => runs_obey command) ?_
  intro halt session terminal herror
  cases hparse : Command.parse line with
  | ok command =>
    rw [hparse] at herror
    cases herror
  | error fault =>
    rw [hparse] at herror
    cases herror
    exact ⟨isHandled_of_modest isModest_nil, isTold_failed isReading_nil.seen _⟩

end Console

end ScriptMailbox
