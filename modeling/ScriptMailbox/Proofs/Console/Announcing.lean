import ScriptMailbox.Proofs.Console.CallingOff
import ScriptMailbox.Proofs.Console.Retaining

/-!
# Announced files

The console announces a file as soon as its path leads to one. Only then is the file read, its
document made, the flag looked at and the request written, and each of these may fail. So what
stands between an announcement and the next prompt says whether the announcement is true: either the
request has been written with the document of what has been read, or a failure is reported
(`serves_files`). A file that cannot be sent is announced all the same (`serves_unsent`).
-/

namespace ScriptMailbox

open Note (did deeds events)
open Terminal

/-! ## Exchanges -/

/-- What is done for a request that is not written, and why. -/
inductive Declines (channel : Channel) (payload : Payload) : List Operation → Failure → Prop
  /-- The payload has no document. -/
  | invalid {fault : Document.PayloadFault} (h : Document.write payload = .error fault) :
    Declines channel payload [] (.ofPayloadFault fault)
  | calledOff {document : String} (h : Document.write payload = .ok document) :
    Declines channel payload [.checked true] (.cancelled (channel.requestPath channel.index))
  /-- The root cannot be created. -/
  | rootless {document : String} (h : Document.write payload = .ok document)
    (fault : DiskFault) :
    Declines channel payload [.checked false, .made channel.root (.error fault)]
      (.io channel.root fault.message)
  | unwritable {document : String} (h : Document.write payload = .ok document)
    (fault : DiskFault) :
    Declines channel payload
      [.checked false, .made channel.root (.ok ()),
        .wrote (channel.requestPath channel.index) (Text.Utf8.encode document) (.error fault)]
      (.io (channel.requestPath channel.index) fault.message)

/-- Whether a failure is about the response of an exchange. -/
inductive IsOfResponse (channel : Channel) : Failure → Prop
  | cancelled : IsOfResponse channel (.cancelled (channel.responsePath channel.index))
  | unreadable (message : String) :
    IsOfResponse channel (.io (channel.responsePath channel.index) message)
  | corrupt (message : String) : IsOfResponse channel (.corruptResponse message)

/-- What is done in an exchange, with its result: the request is not written, or it is, and whatever
fails from then on is the response. -/
inductive Exchanges (channel : Channel) (payload : Payload) :
    List Operation → Except Halt Payload → Prop
  | declined {operations : List Operation} {failure : Failure}
    (h : Declines channel payload operations failure) :
    Exchanges channel payload operations (.error (.failed failure))
  | posted {document : String} {looks : List Operation} {result : Except Halt Payload}
    (hwrite : Document.write payload = .ok document) (hlooks : AreLooks looks)
    (hfailed : ∀ failure, result = .error (.failed failure) → IsOfResponse channel failure) :
    Exchanges channel payload (channel.posting document ++ looks) result

namespace Exit

variable {exchange : Exchange} {exit : Exit}

/-- The exits of an exchange, by whether the request has been written. -/
theorem Describes.exchanges (h : exit.Describes exchange) :
    Exchanges exchange.channel exchange.payload (own exchange.events) exchange.result := by
  -- once the request is written, all that follows is looking for the response
  have hposted {tries : ℕ} {more : List Operation} {result : Except Halt Payload}
      (hposts : exchange.Posts (Stage.polls exchange.response tries ++ more))
      (hmore : AreLooks more)
      (hfailed : ∀ failure, result = .error (.failed failure) →
        IsOfResponse exchange.channel failure) :
      Exchanges exchange.channel exchange.payload (own exchange.events) result := by
    obtain ⟨document, hwrite, hown, -⟩ := hposts
    rw [hown]
    exact .posted hwrite (areLooks_append.mpr ⟨areLooks_polls _ _, hmore⟩) hfailed
  cases exit with
  | invalid =>
    obtain ⟨hown, -, fault, hwrite, hresult⟩ := h
    rw [hown, hresult]
    exact .declined (.invalid hwrite)
  | calledOff =>
    obtain ⟨hown, -, ⟨document, hwrite⟩, hresult⟩ := h
    rw [hown, hresult]
    exact .declined (.calledOff hwrite)
  | refused =>
    obtain ⟨-, document, fault, hwrite, ⟨hown, hresult⟩ | ⟨hown, hresult⟩⟩ := h
    · rw [hown, hresult]
      exact .declined (.rootless hwrite fault)
    · rw [hown, hresult]
      exact .declined (.unwritable hwrite fault)
  | cancelled =>
    obtain ⟨-, hresult, tries, hposts⟩ := h
    refine hposted hposts (by simp) fun failure hfailure => ?_
    rw [hresult] at hfailure
    cases hfailure
    exact .cancelled
  | unreadable =>
    obtain ⟨-, tries, kind, fault, hposts, hresult⟩ := h
    refine hposted hposts (by simp) fun failure hfailure => ?_
    rw [hresult] at hfailure
    cases hfailure
    exact .unreadable _
  | answered =>
    obtain ⟨tries, kind, raw, index, hposts, -, -, hresult⟩ := h
    refine hposted hposts (by simp) fun failure hfailure => ?_
    obtain ⟨answer, -, hresult⟩ | ⟨damage, -, hresult⟩ := hresult
    · rw [hresult] at hfailure
      cases hfailure
    · rw [hresult] at hfailure
      cases hfailure
      exact .corrupt _
  | exhausted =>
    obtain ⟨-, -, hresult, tries, kind, raw, hposts⟩ := h
    refine hposted hposts (by simp) fun failure hfailure => ?_
    rw [hresult] at hfailure
    cases hfailure
  | waiting =>
    obtain ⟨-, hresult, ⟨tries, hposts⟩, -⟩ := h
    refine hposted hposts (by simp) fun failure hfailure => ?_
    rw [hresult] at hfailure
    cases hfailure

end Exit

/-! ## Files -/

/-- What is done to send a file, with the answer or the halt. -/
inductive Sends (channel : Channel) (path : Path) :
    List Note → Except Halt (Option Payload) → Prop
  | unread {reading : List Note} {failure : Failure} (h : Reads path reading (.error failure)) :
    Sends channel path reading (.error (.failed failure))
  | exchanged {reading : List Note} {text : String} {operations : List Operation}
    {result : Except Halt Payload} (hreads : Reads path reading (.ok text))
    (hexchanges : Exchanges channel (.ofText text) operations result) :
    Sends channel path (reading ++ operations.map did)
      (result.map fun answer => if answer.isNil then none else some answer)

namespace Session

variable {session : Session}

/-- Sending a text is an exchange of its payload, and nothing else. -/
theorem runsFrom_sendText (text : String) :
    RunsFrom session (sendText text) fun done run =>
      ∃ operations result, done = operations.map did ∧
        Exchanges session.channel (.ofText text) operations result ∧
        run.1.1 = result.map fun answer => if answer.isNil then none else some answer := by
  refine (runsFrom_exchange (.ofText text)).bind ?_ ?_
  · rintro _ answer reached _ ⟨events, exit, rfl, hexit⟩
    refine ((runs_pure _).runsFrom reached).mono ?_
    rintro _ run ⟨rfl, hok⟩
    exact ⟨own events, .ok answer, List.append_nil _, hexit.exchanges, hok⟩
  · rintro _ halt reached _ ⟨events, exit, rfl, hexit⟩
    exact ⟨own events, .error halt, rfl, hexit.exchanges, rfl⟩

/-- Sending a file reads it, and then makes an exchange if it could be read. -/
theorem runsFrom_sendFile (path : Path) :
    RunsFrom session (sendFile path) fun done run =>
      Sends session.channel path done run.1.1 := by
  refine RunsFrom.lift_bind (gives_reads path) fun reading result hreads => ?_
  refine RunsFrom.ofExcept_bind _ (fun text htext => ?_) fun halt _ herror => ?_
  · cases result with
    | error failure => cases htext
    | ok text' =>
      obtain rfl : text' = text := Except.ok.inj htext
      refine (runsFrom_sendText text').mono ?_
      rintro _ run ⟨operations, result, rfl, hexchanges, hresult⟩
      rw [hresult]
      exact .exchanged hreads hexchanges
  · cases result with
    | ok text => cases herror
    | error failure =>
      cases herror
      rw [List.append_nil]
      exact .unread hreads

end Session

/-! ## Commands -/

namespace Console

/-- What announces a file. -/
def announcement (path : Path) (index : Index) : String :=
  "Sent file " ++ path.text ++ " to game as " ++ Mailbox.requestName index ++ "\n"

/-- What is shown of what becomes of a file: the answer, or the report of a failure. -/
def shown : Except Halt (Option Payload) → List Note
  | .ok (some answer) => [.showed (answer.lossyText ++ "\n")]
  | .error (.failed failure) => [.showed (Report.failedLine failure)]
  | _ => []

/-- What the console does when it is asked to send a file. -/
inductive SendsFile (channel : Channel) (path : Path) : List Note → Prop
  | missing {found : Option Kind} (h : found ≠ some .file) :
    SendsFile channel path
      [did (.looked path found), .showed (Report.failedLine (.missingFile path))]
  | announced {done : List Note} {result : Except Halt (Option Payload)}
    (h : Sends channel path done result) :
    SendsFile channel path (did (.looked path (some .file)) ::
      .showed (announcement path channel.index) :: (done ++ shown result))

/-- The report of a failure, if there is one. -/
def complaint {α : Type} : Except Halt α → List Note
  | .error (.failed failure) => [.showed (Report.failedLine failure)]
  | _ => []

/-- What is shown of a halt does not depend on what was asked for. -/
theorem shown_error (halt : Halt) :
    shown (.error halt) = complaint (.error halt : Except Halt Unit) := by
  cases halt <;> rfl

variable {session : Session}

/-- After a line its failure is reported, if it has one. -/
theorem runsFrom_afterLine (outcome : Except Halt Turn) :
    RunsFrom session (afterLine outcome) fun done _ => done = complaint outcome := by
  intro terminal
  rcases outcome with halt | next
  · cases halt with
    | failed failure =>
      obtain ⟨next, hafter, -⟩ := afterLine_failed failure session terminal
      rw [hafter]
      exact ⟨_, does_note terminal rfl rfl, rfl⟩
    | _ => exact ⟨[], .refl terminal, rfl⟩
  · exact ⟨[], .refl terminal, rfl⟩

/-- An answer is shown unless it is nil. -/
theorem runsFrom_echo (answer : Option Payload) :
    RunsFrom session (echo answer) fun done run =>
      done = shown (.ok answer) ∧ run.1.1 = .ok () := by
  cases answer with
  | none => exact runs_pure () session
  | some payload => exact runs_say _ session

/-- With the report of its failure, if it fails, a file command does what is said of it. -/
theorem runsFrom_obeyFile (path : Path) :
    RunsFrom session (obeyFile path) fun done run =>
      SendsFile session.channel path (done ++ complaint run.1.1) := by
  refine RunsFrom.lift_bind (gives_kind? path) ?_
  rintro _ found rfl
  by_cases hfile : found = some .file
  · subst hfile
    rw [if_pos rfl]
    refine RunsFrom.get_bind (RunsFrom.lift_bind (gives_print _) ?_)
    rintro _ _ rfl
    refine (Session.runsFrom_sendFile path).bind ?_ ?_
    · rintro done answer reached _ hsends
      refine (runsFrom_echo answer).mono ?_
      rintro _ run ⟨rfl, hok⟩
      rw [hok]
      simpa [announcement, complaint] using SendsFile.announced hsends
    · rintro done halt reached _ hsends
      rw [← shown_error]
      simpa [announcement] using SendsFile.announced hsends
  · rw [if_neg hfile]
    refine ((runs_throw _).runsFrom session).mono ?_
    rintro _ run ⟨rfl, herror⟩
    rw [herror]
    exact .missing hfile

/-- A line that asks for a file. -/
theorem runsFrom_answer {asked : String} {path : Path}
    (hparse : Command.parse asked = .ok (.file path)) :
    RunsFrom session (do afterLine (← observing (obeyLine asked))) fun done _ =>
      SendsFile session.channel path done := by
  have hobeys : RunsFrom session (obeyLine asked) fun done run =>
      SendsFile session.channel path (done ++ complaint run.1.1) := by
    unfold obeyLine
    rw [hparse]
    refine RunsFrom.ofExcept_bind _ (fun command hcommand => ?_) fun _ _ hnever => by cases hnever
    obtain rfl := Except.ok.inj hcommand
    refine (runsFrom_obeyFile path).bind ?_ fun _ halt _ _ hsends => ?_
    · rintro done _ reached _ hsends
      refine ((runs_pure _).runsFrom reached).mono ?_
      rintro _ run ⟨rfl, hok⟩
      rw [hok, List.append_nil]
      exact hsends
    · cases halt <;> exact hsends
  refine hobeys.observing_bind fun done outcome reached _ hsends => ?_
  refine (runsFrom_afterLine outcome).mono ?_
  rintro _ _ rfl
  exact hsends

/-! ## Turns -/

/-- Whether no line is read. -/
def IsReadless (done : List Note) : Prop :=
  ∀ note ∈ done, note.isRead = false

/-- In nothing no line is read. -/
theorem isReadless_nil : IsReadless [] :=
  List.forall_mem_nil _

/-- Where no line is read in either part, none is read. -/
theorem IsReadless.append {done more : List Note} (h : IsReadless done) (hmore : IsReadless more) :
    IsReadless (done ++ more) :=
  List.forall_mem_append.mpr ⟨h, hmore⟩

/-- No operation on the stage reads a line. -/
theorem isReadless_map (operations : List Operation) : IsReadless (operations.map did) :=
  List.forall_mem_map.mpr fun _ _ => rfl

/-- Whatever is done on the stage, no line is read. -/
theorem gives_onStage_readless {α : Type} {play : Play α}
    (h : ∀ stage : Stage, ∃ operations, stage.Does operations (play stage).2) :
    Gives (Terminal.onStage play) fun done _ => IsReadless done := by
  intro terminal
  obtain ⟨operations, hdoes⟩ := h terminal.stage
  exact ⟨_, does_onStage hdoes, isReadless_map operations⟩

/-- Showing a text reads no line. -/
theorem gives_print_readless (text : String) :
    Gives (Host.print text) fun done _ => IsReadless done := by
  refine (gives_print text).mono ?_
  rintro _ _ rfl
  exact List.forall_mem_singleton.mpr rfl

/-- So whatever a session does reads no line, one operation after the other. -/
theorem corresponds_readless :
    Corresponds (m := TerminalM) (n := TerminalM) fun _ work _ =>
      Gives work fun done _ => IsReadless done where
  pure a := by
    refine (gives_pure a).mono ?_
    rintro _ _ ⟨rfl, -⟩
    exact isReadless_nil
  bind hfirst hnext := hfirst.bind fun _ a hdone => (hnext a).mono fun _ _ => hdone.append
  kind? path := gives_onStage_readless (corresponds_does.kind? path)
  read path := gives_onStage_readless (corresponds_does.read path)
  write path content := gives_onStage_readless (corresponds_does.write path content)
  makeDirectories path := gives_onStage_readless (corresponds_does.makeDirectories path)
  fileNames path := gives_onStage_readless (corresponds_does.fileNames path)
  removeFile path := gives_onStage_readless (corresponds_does.removeFile path)
  isCancelled := gives_onStage_readless corresponds_does.isCancelled
  await path pollMs := gives_onStage_readless (corresponds_does.await path pollMs)

/-- A line is answered without another being read. -/
theorem runsFrom_answer_readless (asked : String) :
    RunsFrom session (do afterLine (← observing (obeyLine asked))) fun done _ =>
      IsReadless done := by
  have h := corresponds_readless
  have hanswer : Corresponds.In (m := TerminalM) (n := TerminalM)
      (fun _ work _ => Gives work fun done _ => IsReadless done)
      (do afterLine (← observing (obeyLine asked))) (do afterLine (← observing (obeyLine asked))) :=
    h.bindIn (h.observingIn (h.obeyLine gives_print_readless asked)) fun outcome =>
      h.afterLine gives_print_readless outcome
  exact hanswer session

/-- The answer to a line reads no further line, and sends the file that the line names. -/
theorem runsFrom_asked (asked : String) :
    RunsFrom session (do afterLine (← observing (obeyLine asked))) fun done _ =>
      IsReadless done ∧
        ∀ path, Command.parse asked = .ok (.file path) → SendsFile session.channel path done := by
  by_cases hfile : ∃ path, Command.parse asked = .ok (.file path)
  · obtain ⟨path, hparse⟩ := hfile
    refine ((runsFrom_answer_readless asked).and (runsFrom_answer hparse)).mono ?_
    rintro done _ ⟨hreadless, hsends⟩
    refine ⟨hreadless, fun other hother => ?_⟩
    rw [hparse] at hother
    cases hother
    exact hsends
  · exact (runsFrom_answer_readless asked).mono fun _ _ hreadless =>
      ⟨hreadless, fun path hparse => absurd ⟨path, hparse⟩ hfile⟩

/-- What a turn does: it looks at the flag, and asks for a line if the flag is down. A line that
names a file makes the console send the file, and that is all it does until the turn is over. -/
inductive HandlesFiles (channel : Channel) : List Note → Prop
  | stopped : HandlesFiles channel [did (.checked true)]
  | asked (index : Index) (line : Bytes) {done : List Note} (hreadless : IsReadless done)
    (hfile : ∀ text path, lineOf line = .ok (some text) →
      Command.parse text = .ok (.file path) → SendsFile (channel.jump index) path done) :
    HandlesFiles channel
      (did (.checked false) :: .showed (promptText index) :: .read line :: done)

/-- A turn stops, or asks for one line and answers it. -/
theorem runsFrom_turn :
    RunsFrom session turn fun done _ => HandlesFiles session.channel done := by
  refine RunsFrom.lift_bind gives_isCancelled ?_
  rintro _ up rfl
  cases up with
  | true =>
    refine ((runs_pure _).runsFrom session).mono ?_
    rintro _ _ ⟨rfl, -⟩
    exact .stopped
  | false =>
    refine RunsFrom.get_bind (RunsFrom.lift_bind (gives_ask (promptText session.channel.index)) ?_)
    rintro _ answer ⟨line, rfl, rfl⟩
    have hnothing (hnone : ∀ text, lineOf line ≠ .ok (some text)) {done : List Note}
        (hreadless : IsReadless done) :
        HandlesFiles session.channel (did (.checked false) ::
          .showed (promptText session.channel.index) :: .read line :: done) :=
      .asked _ line hreadless fun text _ hline => absurd hline (hnone text)
    cases hanswer : lineOf line with
    | error failure =>
      refine RunsFrom.ofExcept_bind _ (fun _ hnever => by cases hnever) fun _ _ _ => ?_
      exact hnothing (by simp [hanswer]) isReadless_nil
    | ok asked? =>
      refine RunsFrom.ofExcept_bind _ (fun asked hasked => ?_) fun _ _ hnever => by cases hnever
      obtain rfl := Except.ok.inj hasked
      cases asked? with
      | none =>
        refine ((runs_say "\n").runsFrom session).bind ?_ fun _ _ _ _ hnever => by cases hnever.2
        rintro _ _ reached _ ⟨rfl, -⟩
        refine ((runs_pure _).runsFrom reached).mono ?_
        rintro _ _ ⟨rfl, -⟩
        exact hnothing (by simp [hanswer]) (List.forall_mem_singleton.mpr rfl)
      | some asked =>
        refine (runsFrom_asked asked).mono ?_
        rintro done _ ⟨hreadless, hfile⟩
        refine .asked _ line hreadless fun text path hline hparse => ?_
        rw [hanswer] at hline
        obtain rfl : asked = text := Option.some.inj (Except.ok.inj hline)
        exact hfile path hparse

/-- A session that stays with its mailbox and its intervals handles files in the same way. -/
theorem HandlesFiles.of_isAt {channel reached : Channel} {done : List Note}
    (h : HandlesFiles reached done) (hreached : reached.IsAt channel.root channel.pollMs) :
    HandlesFiles channel done := by
  have hjump (index : Index) : reached.jump index = channel.jump index := by
    obtain ⟨hroot, hpollMs⟩ := hreached
    rw [Channel.jump, Channel.jump, hroot, hpollMs]
  cases h with
  | stopped => exact .stopped
  | asked index line hreadless hfile =>
    refine .asked index line hreadless fun text path hline hparse => ?_
    rw [← hjump]
    exact hfile text path hline hparse

/-- Several turns are one such turn after the other. -/
theorem runsFrom_turns (limit : ℕ) :
    RunsFrom session (turns limit) fun done _ =>
      ∃ turns : List (List Note), done = turns.flatten ∧
        ∀ turn ∈ turns, HandlesFiles session.channel turn := by
  induction limit generalizing session with
  | zero =>
    refine ((runs_pure _).runsFrom session).mono ?_
    rintro _ _ ⟨rfl, -⟩
    exact ⟨[], rfl, List.forall_mem_nil _⟩
  | succ limit ih =>
    have hstays : RunsFrom session turn fun done run => HandlesFiles session.channel done ∧
        run.1.2.IsAt session.channel.root session.channel.pollMs := by
      intro terminal
      obtain ⟨done, hdoes, hhandles⟩ := runsFrom_turn terminal
      exact ⟨done, hdoes, hhandles, retains_turn session terminal ⟨rfl, rfl⟩⟩
    refine hstays.bind ?_ ?_
    · rintro done next reached _ ⟨hhandles, hat⟩
      cases next with
      | quit =>
        refine ((runs_pure _).runsFrom reached).mono ?_
        rintro _ _ ⟨rfl, -⟩
        exact ⟨[done], by simp, List.forall_mem_singleton.mpr hhandles⟩
      | again =>
        refine ih.mono ?_
        rintro _ _ ⟨turns, rfl, hturns⟩
        exact ⟨done :: turns, rfl, List.forall_mem_cons.mpr
          ⟨hhandles, fun turn hmem => (hturns turn hmem).of_isAt hat⟩⟩
    · rintro done halt _ _ ⟨hhandles, -⟩
      exact ⟨[done], by simp, List.forall_mem_singleton.mpr hhandles⟩

end Console

namespace Terminal

open Console (HandlesFiles announcement)

/-- What the program does in a run of the console is the banner and then turns, each of which reads
at most one line. A line that asks for a file that is there is followed by an announcement, and
before the next turn the request holds the document of what has been read from the file, or what has
failed instead is reported. -/
theorem serves_files (scene : Scene) (future : List (List Scene)) (listing : Listing)
    (typed : List Bytes) (session : Session) :
    let run := (opening scene future listing typed).serves session
    scene.Becomes (events run.2.log) run.2.stage.scene ∧
      ∃ turns : List (List Note), deeds run.2.log = .showed Console.banner :: turns.flatten ∧
        ∀ turn ∈ turns, HandlesFiles session.channel turn := by
  have hserves (limit : ℕ) : RunsFrom session (Console.serve limit) fun done _ =>
      ∃ turns : List (List Note), done = .showed Console.banner :: turns.flatten ∧
        ∀ turn ∈ turns, HandlesFiles session.channel turn := by
    refine RunsFrom.lift_bind (gives_print Console.banner) ?_
    rintro _ _ rfl
    refine (Console.runsFrom_turns limit).mono ?_
    rintro _ _ ⟨turns, rfl, hturns⟩
    exact ⟨turns, rfl, hturns⟩
  obtain ⟨done, ⟨notes, hlog, hbecomes, rfl⟩, hturns⟩ :=
    hserves (typed.length + 1) (opening scene future listing typed)
  have hall : ((opening scene future listing typed).serves session).2.log = notes := hlog
  dsimp only
  rw [hall]
  exact ⟨hbecomes, hturns⟩

/-! ## Announcements -/

/-- A run of the console on a disk with one file `b`, which is asked for. -/
def askedFor (content : String) : (Except Halt Unit × Session) × Terminal :=
  let disk := Disk.empty.put ["b"] (.file (Text.Utf8.encode content))
  (opening ⟨disk, false⟩ [] .plain [Text.Utf8.encode "file b\n", Text.Utf8.encode "exit\n"]).serves
    Console.fresh

/-- A file that can be sent is announced, and its request is written. -/
theorem serves_files_sent :
    (∃ turns : List (List Note),
      deeds (askedFor "return 1").2.log = .showed Console.banner :: turns.flatten ∧
        ∀ turn ∈ turns, HandlesFiles Console.fresh.channel turn) ∧
      .showed (announcement ⟨"b"⟩ .zero) ∈ (askedFor "return 1").2.log ∧
      (askedFor "return 1").2.log.countP Note.isWrite = 1 :=
  ⟨(serves_files _ _ _ _ _).2, by decide +kernel, by decide +kernel⟩

/-- A file that cannot be sent is announced, and nothing is written. -/
theorem serves_unsent :
    .showed (announcement ⟨"b"⟩ .zero) ∈ (askedFor "]]").2.log ∧
      (askedFor "]]").2.log.countP Note.isWrite = 0 ∧
      (askedFor "]]").2.stage.scene.disk.kind? ⟨"t/in0.txt"⟩ = none :=
  ⟨by decide +kernel, by decide +kernel, by decide +kernel⟩

end Terminal

end ScriptMailbox
