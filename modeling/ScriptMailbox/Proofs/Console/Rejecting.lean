import ScriptMailbox.Proofs.Console.Serving
import ScriptMailbox.Proofs.Source.Targets

/-!
# Rejected commands

A command is rejected when it fails before it has done anything: it makes no sense, it names a file
or a function that is not there, or its text has no document. The failures of an exchange or of the
machine come later and are no rejections. So the line of a rejected command can be deleted from a
script, and only what the console has shown for it is missing then.
-/

namespace ScriptMailbox

namespace Failure

/-- The codes of the failures that come before anything has been done. -/
def rejectionCodes : List String :=
  ["SESSION_INVALID_COMMAND", "SESSION_MISSING_FILE", "PATCH_NOT_FOUND",
    "PATCH_INDEX_OUT_OF_RANGE", "CODEC_INVALID_PAYLOAD"]

/-- Whether a failure comes before anything has been done. -/
def IsRejection (failure : Failure) : Prop :=
  failure.code ∈ rejectionCodes

instance (failure : Failure) : Decidable failure.IsRejection :=
  inferInstanceAs (Decidable (_ ∈ _))

/-- A failure of the machine is no rejection. -/
theorem not_isRejection_io (path : Path) (cause : String) : ¬ (io path cause).IsRejection := by
  show "IO" ∉ rejectionCodes
  decide

/-- Neither is a cancelled exchange. -/
theorem not_isRejection_cancelled (path : Path) : ¬ (cancelled path).IsRejection := by
  show "CHANNEL_CANCELLED" ∉ rejectionCodes
  decide

/-- Neither is a response that cannot be read. -/
theorem not_isRejection_corruptResponse (reason : String) :
    ¬ (corruptResponse reason).IsRejection := by
  show "CHANNEL_CORRUPT_RESPONSE" ∉ rejectionCodes
  decide

end Failure

/-! ## What computations do when they reject -/

section

variable {σ α β : Type} {state state' : σ} {world world' : World}

/-- Whether a computation leaves its state and the world as they are. -/
def Looks (work : ExceptT Halt (StateT σ Model) α) : Prop :=
  ∀ state world, ∃ result, work state world = ((result, state), world)

/-- Whether a computation never ends with a rejection. -/
def Accepts (work : ExceptT Halt (StateT σ Model) α) : Prop :=
  ∀ state world failure, (work state world).1.1 = .error (.failed failure) →
    ¬ failure.IsRejection

/-- Whether a computation leaves its state and the world as they are when it ends with a
rejection. -/
def RejectsEarly (work : ExceptT Halt (StateT σ Model) α) : Prop :=
  ∀ state world failure, (work state world).1.1 = .error (.failed failure) →
    failure.IsRejection → (work state world).1.2 = state ∧ (work state world).2 = world

variable {first : ExceptT Halt (StateT σ Model) α} {next : α → ExceptT Halt (StateT σ Model) β}

/-- The halt of a computation comes from its first part, or from what follows the first part. -/
theorem error_of_bind {halt : Halt} (h : ((first >>= next) state world).1.1 = .error halt) :
    (first state world).1.1 = .error halt ∧
        (first >>= next) state world =
          ((.error halt, (first state world).1.2), (first state world).2) ∨
      ∃ a, (first state world).1.1 = .ok a ∧
        (first >>= next) state world =
          next a (first state world).1.2 (first state world).2 := by
  rcases hfirst : first state world with ⟨⟨halt' | a, state'⟩, world'⟩
  · rw [bind_error hfirst] at h
    cases h
    exact .inl ⟨rfl, bind_error hfirst⟩
  · exact .inr ⟨a, rfl, bind_ok hfirst⟩

/-- What is never rejected need not be rejected early. -/
theorem Accepts.rejectsEarly (h : Accepts first) : RejectsEarly first :=
  fun state world failure herror hrejection =>
    absurd hrejection (h state world failure herror)

/-- What is never rejected in two parts is never rejected. -/
theorem Accepts.bind (hfirst : Accepts first) (hnext : ∀ a, Accepts (next a)) :
    Accepts (first >>= next) := by
  intro state world failure herror
  obtain ⟨hhalt, -⟩ | ⟨a, -, hgoes⟩ := error_of_bind herror
  · exact hfirst state world failure hhalt
  · rw [hgoes] at herror
    exact hnext a _ _ failure herror

/-- What only looks may come first. -/
theorem Looks.bind (hfirst : Looks first) (hnext : ∀ a, RejectsEarly (next a)) :
    RejectsEarly (first >>= next) := by
  intro state world failure herror hrejection
  obtain ⟨result, hresult⟩ := hfirst state world
  cases result with
  | error halt =>
    rw [bind_error hresult]
    exact ⟨rfl, rfl⟩
  | ok a =>
    rw [bind_ok hresult] at herror ⊢
    exact hnext a state world failure herror hrejection

/-- What never rejects may come last. -/
theorem RejectsEarly.bind (hfirst : RejectsEarly first) (hnext : ∀ a, Accepts (next a)) :
    RejectsEarly (first >>= next) := by
  intro state world failure herror hrejection
  obtain ⟨hhalt, hgoes⟩ | ⟨a, -, hgoes⟩ := error_of_bind herror
  · rw [hgoes]
    exact hfirst state world failure hhalt hrejection
  · rw [hgoes] at herror
    exact absurd hrejection (hnext a _ _ failure herror)

/-- A result is no rejection. -/
theorem accepts_pure (a : α) : Accepts (pure a : ExceptT Halt (StateT σ Model) α) := by
  intro state world failure herror
  cases herror

/-- Setting the state is never rejected. -/
theorem accepts_set (state : σ) : Accepts (set state : ExceptT Halt (StateT σ Model) PUnit) := by
  intro state world failure herror
  cases herror

/-- Changing it is never rejected. -/
theorem accepts_modify (change : σ → σ) :
    Accepts (modify change : ExceptT Halt (StateT σ Model) PUnit) := by
  intro state world failure herror
  cases herror

/-- Reading it is never rejected. -/
theorem accepts_get : Accepts (get : ExceptT Halt (StateT σ Model) σ) := by
  intro state world failure herror
  cases herror

/-- The host itself never rejects anything. -/
theorem accepts_lift (work : Model α) : Accepts (liftM work : ExceptT Halt (StateT σ Model) α) := by
  intro state world failure herror
  cases herror

/-- A result is not rejected if it is no rejection. -/
theorem accepts_result {result : Except Halt α}
    (h : ∀ failure, result = .error (.failed failure) → ¬ failure.IsRejection) :
    Accepts (ofExcept result : ExceptT Halt (StateT σ Model) α) := by
  intro state world failure herror
  rw [ofExcept_apply] at herror
  exact h failure herror

/-- A fault of the disk is no rejection. -/
theorem accepts_orFailed (path : Path) (result : Except DiskFault α) :
    Accepts (ofExcept (Channel.orFailed path result) : ExceptT Halt (StateT σ Model) α) := by
  apply accepts_result
  intro failure herror
  cases result with
  | ok a => cases herror
  | error fault =>
    cases herror
    exact Failure.not_isRejection_io path fault.message

/-- A result leaves everything as it is. -/
theorem looks_result (result : Except Halt α) :
    Looks (ofExcept result : ExceptT Halt (StateT σ Model) α) :=
  fun _ _ => ⟨result, ofExcept_apply result⟩

/-- So does reading the state. -/
theorem looks_get : Looks (get : ExceptT Halt (StateT σ Model) σ) :=
  fun state _ => ⟨.ok state, rfl⟩

/-- So does an operation of the host that changes nothing. -/
theorem looks_lift {work : Model α} (h : ∀ world, (work world).2 = world) :
    Looks (liftM work : ExceptT Halt (StateT σ Model) α) := by
  intro state world
  refine ⟨.ok (work world).1, ?_⟩
  show ((Except.ok (work world).1, state), (work world).2) = _
  rw [h]

end

/-! ## Exchanges -/

namespace Channel

/-- A text without a document is rejected before anything is written. -/
theorem rejectsEarly_post (payload : Payload) :
    RejectsEarly (post (m := Model) payload) := by
  refine looks_get.bind fun channel => ?_
  refine (looks_result _).bind fun document => ?_
  refine (looks_lift fun _ => rfl).bind fun up => ?_
  apply Accepts.rejectsEarly
  have hwrites : Accepts
      (do
        ofExcept (orFailed channel.root (← Host.makeDirectories (m := Model) channel.root))
        ofExcept (orFailed (channel.requestPath channel.index)
          (← Host.write (m := Model) (channel.requestPath channel.index)
            (Text.Utf8.encode document))) : ChannelM Model Unit) := by
    refine (accepts_lift _).bind fun made => ?_
    refine (accepts_orFailed _ made).bind fun _ => ?_
    exact (accepts_lift _).bind fun wrote => accepts_orFailed _ wrote
  cases up with
  | true =>
    refine Accepts.bind ?_ fun _ => hwrites
    intro state world failure herror
    cases herror
    exact Failure.not_isRejection_cancelled _
  | false => exact hwrites

/-- A wait is cancelled, but never rejected. -/
theorem accepts_await : Accepts (await (m := Model)) := by
  refine accepts_get.bind fun channel => ?_
  refine (accepts_lift _).bind fun wait => ?_
  apply accepts_result
  intro failure herror
  cases wait <;> cases herror
  exact Failure.not_isRejection_cancelled _

/-- A response can be corrupt, but is never rejected. -/
theorem accepts_collect : Accepts (collect (m := Model)) := by
  refine accepts_get.bind fun channel => ?_
  refine (accepts_lift _).bind fun result => ?_
  refine (accepts_orFailed _ result).bind fun raw => ?_
  cases channel.index.next? with
  | none =>
    intro state world failure herror
    cases herror
  | some next =>
    refine (accepts_set _).bind fun _ => ?_
    apply accepts_result
    intro failure herror
    unfold payloadOf at herror
    cases hread : Document.read raw with
    | ok payload =>
      rw [hread] at herror
      cases herror
    | error damage =>
      rw [hread] at herror
      cases herror
      exact Failure.not_isRejection_corruptResponse _

/-- An exchange is rejected before the request is written, or not at all. -/
theorem rejectsEarly_send (payload : Payload) : RejectsEarly (send (m := Model) payload) :=
  (rejectsEarly_post payload).bind fun _ => accepts_await.bind fun _ => accepts_collect

end Channel

/-! ## Sessions -/

namespace Session

/-- Work on the channel of a session is rejected early if it is on the channel. -/
theorem rejectsEarly_onChannel {α : Type} {work : ChannelM Model α} (h : RejectsEarly work) :
    RejectsEarly (onChannel work) := by
  intro session world failure herror hrejection
  rw [onChannel_apply] at herror ⊢
  obtain ⟨hchannel, hworld⟩ := h session.channel world failure herror hrejection
  rw [hchannel]
  exact ⟨rfl, hworld⟩

/-- So sending a text is rejected early. -/
theorem rejectsEarly_sendText (text : String) : RejectsEarly (sendText (m := Model) text) :=
  (rejectsEarly_onChannel (Channel.rejectsEarly_send _)).bind fun answer =>
    accepts_pure (if answer.isNil then none else some answer)

/-- Sending a file only reads it before that. -/
theorem rejectsEarly_sendFile (path : Path) : RejectsEarly (sendFile (m := Model) path) := by
  have hlooks (world : World) :
      ((TextFile.readNamed path : Model (Except Failure String)) world).2 = world := by
    rw [TextFile.readNamed_apply]
  refine (looks_lift hlooks).bind fun result => ?_
  exact (looks_result _).bind fun text => rejectsEarly_sendText text

/-- A source is written only once the function has been found and the text been inserted. -/
theorem rejectsEarly_patch (file : Option Path) (query : Query) (text : String)
    (afterLine : ℕ) : RejectsEarly (patch (m := Model) file query text afterLine) := by
  refine looks_get.bind fun session => ?_
  have hlooks (world : World) : ((session.sources.patch file query text afterLine :
      Model (Except Failure Patched)) world).2 = world := by
    rw [SourceTree.patch_apply]
  refine (looks_lift hlooks).bind fun result => ?_
  refine (looks_result _).bind fun patched => ?_
  apply Accepts.rejectsEarly
  refine (accepts_lift _).bind fun wrote => ?_
  refine (accepts_orFailed _ wrote).bind fun _ => ?_
  exact (accepts_set _).bind fun _ => accepts_pure patched

end Session

/-! ## Commands -/

namespace Console

open World

variable {session session' : Session} {world world' : World} {line : String} {text : Bytes}
  {failure : Failure} {before behind : List Reading}

/-- Showing a text is never rejected. -/
theorem accepts_say (text : String) : Accepts (say (m := Model) text) :=
  accepts_lift _

/-- Neither is showing an answer. -/
theorem accepts_echo (answer : Option Payload) : Accepts (echo (m := Model) answer) := by
  cases answer with
  | none => exact accepts_pure ()
  | some payload => exact accepts_say _

/-- What the console shows of a command before the command can be rejected: a file that is there is
announced. -/
def announced (command : Command) (session : Session) (world : World) : String :=
  match command with
  | .file path =>
    if world.disk.kind? path = some .file then
      "Sent file " ++ path.text ++ " to game as " ++
        Mailbox.requestName session.channel.index ++ "\n"
    else ""
  | _ => ""

/-- A rejected file has been announced, and nothing else has happened. -/
theorem obeyFile_rejected (path : Path)
    (herror : (world.runSession session (obeyFile path)).1.1 = .error (.failed failure))
    (hrejection : failure.IsRejection) :
    world.runSession session (obeyFile path) =
      ((.error (.failed failure), session),
        world.withConsole world.input
          (world.output ++ announced (.file path) session world)) := by
  have hkind : (Host.kind? path : Model (Option Kind)) world =
      (world.disk.kind? path, world) := rfl
  unfold runSession at herror ⊢
  rw [obeyFile, lift_bind hkind] at herror ⊢
  unfold announced
  by_cases hfile : world.disk.kind? path = some .file
  · rw [if_pos hfile, bind_ok get_apply] at herror ⊢
    dsimp only
    rw [if_pos hfile]
    have hsay (text : String) : say (m := Model) text session world =
        ((.ok (), session), world.withConsole world.input (world.output ++ text)) := rfl
    rw [bind_ok (hsay _)] at herror ⊢
    have hsends : RejectsEarly (do echo (m := Model) (← Session.sendFile path)) :=
      (Session.rejectsEarly_sendFile path).bind accepts_echo
    obtain ⟨hsession, hworld⟩ := hsends _ _ failure herror hrejection
    exact Prod.ext (Prod.ext herror hsession) hworld
  · rw [if_neg hfile] at herror ⊢
    dsimp only
    rw [if_neg hfile, String.append_empty]
    cases herror
    rfl

/-- A rejected command leaves the session and the world as they are, and has shown what announces
it. -/
theorem obey_rejected (command : Command)
    (herror : (world.runSession session (obey command)).1.1 = .error (.failed failure))
    (hrejection : failure.IsRejection) :
    world.runSession session (obey command) =
      ((.error (.failed failure), session),
        world.withConsole world.input (world.output ++ announced command session world)) := by
  -- all commands but `file` show nothing before they can be rejected
  have hquiet (command : Command) (hshown : announced command session world = "")
      (herror : (world.runSession session (obey command)).1.1 = .error (.failed failure))
      (h : RejectsEarly (obey (m := Model) command)) :
      world.runSession session (obey command) =
        ((.error (.failed failure), session),
          world.withConsole world.input (world.output ++ announced command session world)) := by
    obtain ⟨hsession, hworld⟩ := h session world failure herror hrejection
    rw [hshown, String.append_empty, withConsole_self]
    exact Prod.ext (Prod.ext herror hsession) hworld
  cases command with
  | empty => exact hquiet .empty rfl herror (accepts_pure _).rejectsEarly
  | help =>
    exact hquiet .help rfl herror
      ((accepts_say _).bind fun _ => accepts_pure Turn.again).rejectsEarly
  | exit => exact hquiet .exit rfl herror (accepts_pure _).rejectsEarly
  | restart =>
    have hreset : Accepts (Session.reset (m := Model)) :=
      accepts_get.bind fun session => (accepts_lift _).bind fun swept =>
        (accepts_set _).bind fun _ => accepts_pure swept.1
    exact hquiet .restart rfl herror
      (hreset.bind fun _ => (accepts_say _).bind fun _ => accepts_pure Turn.again).rejectsEarly
  | jump index =>
    exact hquiet (.jump index) rfl herror
      ((accepts_modify _).bind fun _ => accepts_pure Turn.again).rejectsEarly
  | file path =>
    have hfile : (world.runSession session (obeyFile path)).1.1 = .error (.failed failure) := by
      obtain ⟨hhalt, -⟩ | ⟨a, -, hgoes⟩ := error_of_bind herror
      · exact hhalt
      · unfold runSession at herror
        rw [obey, hgoes] at herror
        cases herror
    have hruns := obeyFile_rejected path hfile hrejection
    exact bind_error hruns
  | patch file query text =>
    exact hquiet (.patch file query text) rfl herror
      ((Session.rejectsEarly_patch file query text _).bind fun patched =>
        (accepts_say _).bind fun _ => accepts_pure Turn.again)
  | send text =>
    exact hquiet (.send text) rfl herror
      ((Session.rejectsEarly_sendText text).bind fun answer =>
        (accepts_echo answer).bind fun _ => accepts_pure Turn.again)

/-- What the console shows of a line before its command can be rejected. -/
def announcedLine (line : String) (session : Session) (world : World) : String :=
  match Command.parse line with
  | .ok command => announced command session world
  | .error _ => ""

/-- A line that is rejected leaves session and disk as they are; only an announcement may have been
shown. -/
theorem obeyLine_rejected
    (herror : (world.runSession session (obeyLine line)).1.1 = .error (.failed failure))
    (hrejection : failure.IsRejection) :
    world.runSession session (obeyLine line) =
      ((.error (.failed failure), session),
        world.withConsole world.input (world.output ++ announcedLine line session world)) := by
  unfold runSession at herror ⊢
  unfold announcedLine
  rw [obeyLine, Session.orHalt] at herror ⊢
  cases hparse : Command.parse line with
  | error fault =>
    rw [hparse] at herror
    cases herror
    rw [String.append_empty]
    rfl
  | ok command =>
    rw [hparse] at herror
    exact obey_rejected command herror hrejection

/-- The console reports a rejected line and goes on. -/
theorem answerLine_rejected
    (herror : (world.runSession session (obeyLine line)).1.1 = .error (.failed failure))
    (hrejection : failure.IsRejection) :
    world.runSession session (answerLine line) =
      ((.ok .again, session),
        world.withConsole world.input
          (world.output ++ announcedLine line session world ++ Report.failedLine failure)) := by
  have hruns := obeyLine_rejected herror hrejection
  unfold runSession at hruns ⊢
  rw [answerLine, bind_ok (observing_apply hruns)]
  cases failure with
  | cancelled path => exact absurd hrejection (Failure.not_isRejection_cancelled path)
  | _ => rfl

/-- The turn of a rejected line leaves the session and the world as they are, and shows the prompt,
what announces the command, and the report. -/
theorem turn_rejected {rest : List Reading} (hflag : world.cancelled = false)
    (hinput : world.input = ⟨[], text⟩ :: rest) (hline : lineOf text = .ok (some line))
    (herror : ((readingOf session ⟨[], text⟩ rest world).runSession session
      (obeyLine line)).1.1 = .error (.failed failure))
    (hrejection : failure.IsRejection) :
    world.runSession session turn =
      ((.ok .again, session),
        world.withConsole rest (world.output ++ (promptText session.channel.index ++
          announcedLine line session world ++ Report.failedLine failure))) := by
  rw [turn_of_asks session hflag, hinput]
  dsimp only
  rw [hline]
  dsimp only
  rw [answerLine_rejected herror hrejection, ← String.append_assoc, ← String.append_assoc]
  rfl

/-- A rejected line can be deleted from a script: the console then ends in the same way, with the
same session and the same world, and shows the same but for the line's prompt, what announces its
command, and the report of its failure. -/
theorem withScript_delete_rejected
    (hreached : GoesOn session (world.withConsole (before ++ ⟨[], text⟩ :: behind) banner)
      session' world')
    (hturn : world'.input = ⟨[], text⟩ :: behind) (hflag : world'.cancelled = false)
    (hline : lineOf text = .ok (some line))
    (herror : ((readingOf session' ⟨[], text⟩ behind world').runSession session'
      (obeyLine line)).1.1 = .error (.failed failure))
    (hcode : failure.code ∈ Failure.rejectionCodes) :
    let whole := withScript world session (before ++ ⟨[], text⟩ :: behind)
    let short := withScript world session (before ++ behind)
    ∃ said,
      short.2.output = world'.output ++ said ∧
      whole = (short.1, short.2.withConsole short.2.input
        (world'.output ++ (promptText session'.channel.index ++
          announcedLine line session' world' ++ Report.failedLine failure) ++ said)) := by
  have hagain := turn_rejected hflag hturn hline herror hcode
  -- up to the line both scripts do the same, and behind it they go on from the same session
  obtain ⟨typed, shown, hscript, houtput, hreplay⟩ := hreached.replay
  rw [input_withConsole, hturn, List.append_cancel_right_eq] at hscript
  rw [output_withConsole] at houtput
  have hskips := hreplay behind banner
  rw [withConsole_withConsole, ← hscript, ← houtput] at hskips
  obtain ⟨said, hsaid⟩ := serves_withConsole session' (world'.withConsole behind "")
  simp only [withConsole_withConsole, input_withConsole] at hsaid
  have hshort : withScript world session (before ++ behind) =
      serves session' (world'.withConsole behind world'.output) := hskips.serves_eq
  have hwhole : withScript world session (before ++ ⟨[], text⟩ :: behind) =
      serves session' (world'.withConsole behind (world'.output ++
        (promptText session'.channel.index ++ announcedLine line session' world' ++
          Report.failedLine failure))) := by
    rw [withScript_eq, hreached.serves_eq, (GoesOn.step hagain (.refl session' _)).serves_eq]
  dsimp only
  rw [hshort, hwhole, hsaid world'.output, hsaid (world'.output ++ _)]
  exact ⟨said, rfl, rfl⟩

/-! ## A file whose text has no document -/

/-- What is typed when a line is typed while nobody else acts. -/
def typedLine (text : String) : Reading :=
  ⟨[], Text.Utf8.encode text⟩

/-- A world with one file `b`, whose text closes a chunk. -/
def closing : World :=
  .ofDisk (Disk.empty.put ["b"] (.file (Text.Utf8.encode "]]")))

/-- Why the file is not sent. -/
def closesChunk : Failure :=
  .ofPayloadFault .closesChunk

/-- A file that is rejected in the middle of a script. -/
theorem withScript_delete_rejected_file :
    let before := [typedLine "jump 3\n"]
    let behind := [typedLine "exit\n"]
    ∃ shown announcement said,
      (withScript closing fresh (before ++ behind)).2.output = shown ++ said ∧
      (withScript closing fresh (before ++ typedLine "file b\n" :: behind)).2.output =
        shown ++ ("3 >>> " ++ announcement ++ Report.failedLine closesChunk) ++ said ∧
      (withScript closing fresh (before ++ typedLine "file b\n" :: behind)).1 =
        (withScript closing fresh (before ++ behind)).1 := by
  intro before behind
  let reached := (closing.withConsole (before ++ typedLine "file b\n" :: behind)
    banner).runSession fresh turn
  have hreached : GoesOn fresh (closing.withConsole (before ++ typedLine "file b\n" :: behind)
      banner) reached.1.2 reached.2 := .of_again (by decide +kernel) (.refl _ _)
  have hline : lineOf (Text.Utf8.encode "file b\n") = .ok (some "file b") := by decide +kernel
  have herror : ((readingOf reached.1.2 (typedLine "file b\n") behind reached.2).runSession
      reached.1.2 (obeyLine "file b")).1.1 = .error (.failed closesChunk) := by decide +kernel
  have hturn : reached.2.input = typedLine "file b\n" :: behind := by decide +kernel
  have hflag : reached.2.cancelled = false := by decide +kernel
  have hcode : closesChunk.code ∈ Failure.rejectionCodes := by decide +kernel
  have hprompt : promptText reached.1.2.channel.index = "3 >>> " := by decide +kernel
  obtain ⟨said, hshort, hwhole⟩ :=
    withScript_delete_rejected hreached hturn hflag hline herror hcode
  rw [hprompt] at hwhole
  change withScript closing fresh (before ++ typedLine "file b\n" :: behind) = _ at hwhole
  refine ⟨reached.2.output, announcedLine "file b" reached.1.2 reached.2, said, hshort, ?_, ?_⟩
  · rw [hwhole, output_withConsole]
  · rw [hwhole]

/-- The announcement of a file that is rejected is neither prompt nor report. -/
theorem delete_rejected_leaves_announcement :
    let reading := typedLine "file b\n"
    lineOf reading.text = .ok (some "file b") ∧
      ((readingOf fresh reading [] (closing.withConsole [reading] banner)).runSession fresh
        (obeyLine "file b")).1.1 = .error (.failed closesChunk) ∧
      closesChunk.code = "CODEC_INVALID_PAYLOAD" ∧
      ¬ ∃ shown said,
        (withScript closing fresh []).2.output = shown ++ said ∧
        (withScript closing fresh [reading]).2.output =
          shown ++ (promptText fresh.channel.index ++ Report.failedLine closesChunk) ++ said := by
  intro reading
  have hline : lineOf reading.text = .ok (some "file b") := by decide +kernel
  have herror : ((readingOf fresh reading [] (closing.withConsole [reading] banner)).runSession
      fresh (obeyLine "file b")).1.1 = .error (.failed closesChunk) := by decide +kernel
  have hrejection : closesChunk.IsRejection := by decide +kernel
  refine ⟨hline, herror, rfl, ?_⟩
  rintro ⟨shown, said, hshort, hwhole⟩
  have hflag : (closing.withConsole [reading] banner).cancelled = false := rfl
  have hagain := turn_rejected hflag rfl hline herror hrejection
  have hannounced : 0 < (announcedLine "file b" fresh
      (closing.withConsole [reading] banner)).length := by decide +kernel
  rw [withScript_eq, serves_of_input_eq_nil fresh (by exact hflag) rfl] at hshort
  rw [withScript_eq, (GoesOn.step hagain (.refl fresh _)).serves_eq,
    serves_of_input_eq_nil fresh (by exact hflag) rfl] at hwhole
  have hlength := congrArg String.length hshort
  have hlength' := congrArg String.length hwhole
  simp only [output_withConsole, String.length_append] at hlength hlength'
  omega

end Console

end ScriptMailbox
