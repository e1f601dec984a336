import ScriptMailbox.Program
import ScriptMailbox.Proofs.Console.Terminals
import ScriptMailbox.Proofs.Mailbox.Files
import ScriptMailbox.Proofs.Program.Leavings

/-!
# Where an answer comes from

A single exchange reports what it has read in the place of the response after it has written the
request. If nothing was in the place of either file when the program started, and others write
nothing there before a request is there, then the response has been put there after the request was
written (`run_send_fresh`). The program does not sweep the mailbox before a single exchange, so an
old response is reported as the answer (`run_send_stale`).
-/

namespace ScriptMailbox

/-! ## Places without a file -/

namespace Disk

variable {before after disk : Disk} {root : Path} {name other : String} {content : Bytes}
  {directory : Location}

/-- Whether neither a file nor a link stands in a mailbox under a name, even once directories have
been created. -/
def Lacks (disk : Disk) (root : Path) (name : String) : Prop :=
  ∀ directory, disk.MayLead root directory → ∀ entry,
    disk.at? (directory ++ [name]) = some entry → entry = .directory

/-- A file that is missing is missing when directories have been created. -/
theorem Lacks.of_gains (h : before.Lacks root name) (hgains : before.Gains after) :
    after.Lacks root name := by
  intro directory hleads entry hentry
  rcases hgains (directory ++ [name]) with heq | ⟨-, hnew⟩
  · exact h directory (hleads.of_gains hgains) entry (heq ▸ hentry)
  · exact Option.some.inj (hentry.symm.trans hnew)

/-- A file that is missing is no link. -/
theorem Lacks.not_link (h : disk.Lacks root name) (directory : Location)
    (hleads : disk.Leads root directory) (target : Path) :
    disk.at? (directory ++ [name]) ≠ some (.link target) := by
  intro hlink
  cases h directory hleads.mayLead _ hlink

/-- Where neither a file nor a link stands, nothing is read. -/
theorem read_join_ne_ok (hname : IsEntryName name)
    (h : ∀ directory, disk.Leads root directory → ∀ entry,
      disk.at? (directory ++ [name]) = some entry → entry = .directory) :
    disk.read (root.join name) ≠ .ok content := by
  have hlink : ∀ directory, disk.Leads root directory → ∀ target,
      disk.at? (directory ++ [name]) ≠ some (.link target) :=
    fun directory hleads target hlink => by cases h directory hleads _ hlink
  intro hread
  rw [read] at hread
  cases hresolve : disk.resolve .target (root.join name) with
  | error fault => simp [hresolve] at hread
  | ok location =>
    obtain ⟨-, directory, hleads, rfl, -⟩ := (resolve_join hname (.inr hlink)).mp hresolve
    simp only [hresolve] at hread
    split at hread <;> cases hread
    rename_i hentry
    cases h directory hleads _ hentry

/-- Writing another file of the mailbox leaves nothing to be read there. -/
theorem Lacks.read_ne_ok_of_write {written : Bytes} (h : before.Lacks root name)
    (hother : before.Lacks root other) (hname : IsEntryName name) (hwrites : IsEntryName other)
    (hne : name ≠ other) (hwrite : before.write (root.join other) written = .ok after) :
    after.read (root.join name) ≠ .ok content := by
  obtain ⟨location, hresolve, hplain, hsets⟩ := write_eq_ok hwrite
  obtain ⟨-, directory, hleads, rfl, -⟩ :=
    (resolve_join hwrites (.inr hother.not_link)).mp hresolve
  refine read_join_ne_ok hname fun inside hinside entry hentry => ?_
  obtain rfl := hinside.unique (hleads.of_keepsWays (hsets.keepsWays hplain))
  rw [hsets.at?_of_ne fun heq => hne (List.singleton_inj.mp (List.append_cancel_left heq))]
    at hentry
  exact h inside hleads.mayLead entry hentry

end Disk

namespace Mailbox

variable {root : Path} {index : Index} {before after : Scene}

/-- Whether neither file of an exchange is in a mailbox. -/
structure IsVacant (disk : Disk) (root : Path) (index : Index) : Prop where
  request : disk.Lacks root (requestName index)
  response : disk.Lacks root (responseName index)

/-- Others who wait for the request of an exchange: while neither of its files is there, they write
neither. -/
def AwaitsRequest (root : Path) (index : Index) (before after : Scene) : Prop :=
  IsVacant before.disk root index → IsVacant after.disk root index

end Mailbox

/-! ## Changes -/

namespace Scene

variable {before after : Scene} {events : List Event}

/-- What does not hold at first and holds in the end is brought about by some event. -/
theorem Becomes.exists_change (holds : Scene → Prop) (h : before.Becomes events after)
    (hbefore : ¬holds before) (hafter : holds after) :
    ∃ event ∈ events, ∃ left right, event.Turns left right ∧ ¬holds left ∧ holds right := by
  by_contra hnone
  refine h.keeps (fun scene => ¬holds scene) (fun event hmem left right hturns hleft hright => ?_)
    hbefore hafter
  exact hnone ⟨event, hmem, left, right, hturns, hleft, hright⟩

end Scene

namespace Note

variable {notes : List Note} {event : Event} {operation : Operation}

/-- What has happened is what has been noted as such. -/
theorem mem_events_iff : event ∈ events notes ↔ .happened event ∈ notes := by
  simp only [events, List.mem_filterMap]
  constructor
  · rintro ⟨note, hmem, heq⟩
    split at heq <;> cases heq
    exact hmem
  · exact fun hmem => ⟨_, hmem, rfl⟩

/-- The notes of operations are those of these operations alone. -/
theorem mem_map_did {operations : List Operation} :
    did operation ∈ operations.map did ↔ operation ∈ operations :=
  List.mem_map_of_injective fun left right heq => by cases heq; rfl

/-- What the program does at some point splits the log there. -/
theorem deeds_eq_append_cons {early late : List Note} {deed : Note}
    (h : deeds notes = early ++ deed :: late) :
    ∃ before after, notes = before ++ deed :: after ∧
      deeds before = early ∧ deeds after = late := by
  obtain ⟨before, rest, rfl, hbefore, hrest⟩ := List.filter_eq_append_iff.mp h
  obtain ⟨between, after, rfl, hbetween, -, hafter⟩ := List.filter_eq_cons_iff.mp hrest
  refine ⟨before ++ between, after, by rw [List.append_assoc], ?_, hafter⟩
  rw [deeds_append, deeds, hbefore, deeds, List.filter_eq_nil_iff.mpr hbetween, List.append_nil]

/-- And there the run is split, too. -/
theorem becomes_split {start final : Scene} {early late : List Note}
    (hbecomes : start.Becomes (events notes) final)
    (h : deeds notes = early ++ did operation :: late) :
    ∃ first rest left right, notes = first ++ did operation :: rest ∧ deeds first = early ∧
      deeds rest = late ∧ start.Becomes (events first) left ∧ operation.Turns left right ∧
      right.Becomes (events rest) final := by
  obtain ⟨first, rest, rfl, hfirst, hrest⟩ := deeds_eq_append_cons h
  rw [events_append] at hbecomes
  obtain ⟨left, hleft, hright⟩ := hbecomes.of_append
  cases hright with
  | cons hturns hafter =>
    exact ⟨first, rest, left, _, rfl, hfirst, hrest, hleft, hturns, hafter⟩

end Note

namespace Mailbox

open Note (did deeds events)

variable {root : Path} {index : Index} {before between after : Scene} {notes : List Note}

/-- Looking, creating the mailbox and others who wait for the request leave an exchange vacant. -/
theorem IsVacant.becomes (h : IsVacant before.disk root index)
    (hbecomes : before.Becomes (events notes) after)
    (hdeeds : ∀ operation, did operation ∈ deeds notes →
      operation.isChange = false ∨ ∃ result, operation = .made root result)
    (hothers : Obeys (AwaitsRequest root index) (events notes)) :
    IsVacant after.disk root index := by
  refine hbecomes.keeps (fun scene => IsVacant scene.disk root index)
    (fun event hmem left right hturns hleft => ?_) h
  cases event with
  | others =>
    obtain ⟨rfl, rfl⟩ := hturns
    exact hothers left right hmem hleft
  | own operation =>
    have hdeed : did operation ∈ deeds notes :=
      List.mem_filter.mpr ⟨Note.mem_events_iff.mp hmem, rfl⟩
    rcases hdeeds operation hdeed with hlook | ⟨result, rfl⟩
    · rwa [hturns.eq_of_view hlook]
    · obtain rfl : right = (left.makeDirectories root).2 := (congrArg Prod.snd hturns).symm
      have hgains := Disk.gains_makeDirectories left.disk root
      exact ⟨hleft.request.of_gains hgains, hleft.response.of_gains hgains⟩

/-- A response that is read although nothing was there has been put there by others. -/
theorem exists_published {path : Path} {raw : Bytes}
    (hbecomes : before.Becomes (events notes) after)
    (hdeeds : ∀ operation, did operation ∈ deeds notes → operation.isChange = false)
    (hbefore : before.disk.read path ≠ .ok raw) (hafter : after.disk.read path = .ok raw) :
    ∃ left reached, .happened (.others left reached) ∈ notes ∧
      left.disk.read path ≠ .ok raw ∧ reached.disk.read path = .ok raw := by
  obtain ⟨event, hmem, left, right, hturns, hleft, hright⟩ :=
    hbecomes.exists_change (·.disk.read path = .ok raw) hbefore hafter
  cases event with
  | others =>
    obtain ⟨rfl, rfl⟩ := hturns
    exact ⟨left, right, Note.mem_events_iff.mp hmem, hleft, hright⟩
  | own operation =>
    have hlook := hdeeds operation (List.mem_filter.mpr ⟨Note.mem_events_iff.mp hmem, rfl⟩)
    rw [hturns.eq_of_view hlook] at hright
    exact absurd hright hleft

end Mailbox

/-! ## What a single exchange does -/

/-- The program at a terminal. -/
def Terminal.runProgram (terminal : Terminal) (documents : Documents) (arguments : List String) :
    Ending × Terminal :=
  (Program.run serve documents arguments : TerminalM Ending) terminal

namespace Program

open Mailbox Terminal
open Note (did deeds events)
open Stage (polls)

variable {text : Option String} {file : Option Path} {read sent : List Operation}
  {script : String} {channel : Channel} {answer : Option Payload}

/-- Whether a script is what is to be sent: a text, or what the file holds that has been read. -/
def IsAsked (text : Option String) (file : Option Path) (notes : List Note) (script : String) :
    Prop :=
  text = some script ∨ text = none ∧ ∃ path raw, file = some path ∧
    did (.opened path (.ok raw)) ∈ notes ∧ Text.Utf8.decode? raw = some script

/-- What has been asked stays so when more is noted. -/
theorem IsAsked.mono {notes more : List Note} (h : IsAsked text file notes script)
    (hmore : ∀ note ∈ notes, note ∈ more) : IsAsked text file more script := by
  rcases h with htext | ⟨htext, path, raw, hfile, hmem, hdecode⟩
  · exact .inl htext
  · exact .inr ⟨htext, path, raw, hfile, hmore _ hmem, hdecode⟩

/-- What an exchange of a script has done when it has an answer. -/
def HasSent (channel : Channel) (script : String) (sent : List Operation)
    (answer : Option Payload) : Prop :=
  ∃ document tries kind raw payload, Document.write (.ofText script) = .ok document ∧
    sent = channel.posting document ++ (polls (channel.responsePath channel.index) tries ++
      [.looked (channel.responsePath channel.index) (some kind),
        .opened (channel.responsePath channel.index) (.ok raw)]) ∧
    Document.read raw = .ok payload ∧ answer = if payload.isNil then none else some payload

/-- What a single exchange does: if it halts it has shown nothing, and else it has shown the report
of its answer, and that last. -/
inductive Tells (channel : Channel) (text : Option String) (file : Option Path) :
    List Note → Except Halt Unit → Prop
  | halts (done : List Operation) (halt : Halt) :
    Tells channel text file (done.map did) (.error halt)
  | answers {read sent : List Operation} {script : String} {answer : Option Payload} (next : Index)
    (hread : AreLooks read) (hasked : IsAsked text file (read.map did) script)
    (hsent : HasSent channel script sent answer) :
    Tells channel text file
      ((read ++ sent).map did ++ [.showed (Report.answered channel.index next answer)]) (.ok ())

/-- A text that has an answer has been sent. -/
theorem sendText_does (script : String) (session : Session) (terminal : Terminal) :
    ∃ sent, terminal.Does (sent.map did)
        (Session.sendText (m := TerminalM) script session terminal).2 ∧
      ∀ answer, (Session.sendText (m := TerminalM) script session terminal).1.1 = .ok answer →
        HasSent session.channel script sent answer := by
  have hsend : (Channel.send (.ofText script) : ChannelM TerminalM Payload) session.channel =
      Terminal.onStage ((Channel.send (.ofText script) : ChannelM Play Payload) session.channel) :=
    corresponds_onStage.send _ session.channel
  obtain ⟨events, hhistory, hbecomes, exit, hexit⟩ :=
    Channel.ends_send session.channel (.ofText script) terminal.stage
  rcases hrun : (Channel.send (.ofText script) : ChannelM Play Payload) session.channel
    terminal.stage with ⟨⟨result, channel⟩, stage⟩
  rw [hrun] at hhistory hbecomes hexit
  have hchannel : (Session.onChannel (Channel.send (.ofText script)) : SessionM TerminalM Payload)
      session terminal =
        ((result, { session with channel := channel }), { terminal with stage := stage }) := by
    rw [Session.onChannel_apply, hsend, Terminal.onStage, hrun]
  have hdoes : terminal.Does ((own events).map did) { terminal with stage := stage } :=
    does_onStage ⟨events, hhistory, hbecomes, rfl⟩
  refine ⟨own events, ?_⟩
  cases result with
  | error halt =>
    rw [Session.sendText, bind_error hchannel]
    exact ⟨hdoes, fun answer hanswer => by cases hanswer⟩
  | ok payload =>
    rw [Session.sendText, bind_ok hchannel]
    refine ⟨hdoes, fun answer hanswer => ?_⟩
    obtain rfl : exit = .answered := hexit.eq_ofRun
    obtain ⟨tries, kind, raw, index, ⟨document, hwrite, hown, -⟩, -, -, ⟨answered, hread, hresult⟩ |
      ⟨damage, -, hresult⟩⟩ := hexit
    · cases hresult
      exact ⟨document, tries, kind, raw, payload, hwrite, hown, hread, (Except.ok.inj hanswer).symm⟩
    · cases hresult

/-- A file that a user has named is looked for, and opened if it is there. -/
theorem gives_script (path : Path) :
    Gives (TextFile.readNamed path) fun done result => ∃ read, done = read.map did ∧
      AreLooks read ∧ ∀ script, result = .ok script →
        ∃ raw, .opened path (.ok raw) ∈ read ∧ Text.Utf8.decode? raw = some script := by
  refine (gives_kind? path).bind ?_
  rintro _ found rfl
  by_cases hfile : found = some .file
  · rw [if_pos hfile]
    refine (gives_read path).bind ?_
    rintro _ result rfl
    refine (gives_pure _).mono ?_
    rintro _ _ ⟨rfl, rfl⟩
    refine ⟨[.looked path found, .opened path result], rfl, by simp, fun script hscript => ?_⟩
    rw [TextFile.textOf.eq_def] at hscript
    split at hscript
    · cases hscript
    · rename_i raw
      split at hscript <;> cases hscript
      exact ⟨raw, by simp, ‹_›⟩
  · rw [if_neg hfile]
    refine (gives_pure _).mono ?_
    rintro _ _ ⟨rfl, rfl⟩
    exact ⟨[.looked path found], rfl, by simp, fun script hscript => by cases hscript⟩

/-- What is to be sent is read, if it is a file, and then it is sent. -/
theorem sendEither_does (text : Option String) (file : Option Path) (session : Session)
    (terminal : Terminal) :
    ∃ read sent, terminal.Does ((read ++ sent).map did)
        (sendEither (m := TerminalM) text file session terminal).2 ∧ AreLooks read ∧
      ∀ answer, (sendEither (m := TerminalM) text file session terminal).1.1 = .ok answer →
        ∃ script, IsAsked text file (read.map did) script ∧
          HasSent session.channel script sent answer := by
  cases text with
  | some script =>
    obtain ⟨sent, hdoes, hsent⟩ := sendText_does script session terminal
    exact ⟨[], sent, hdoes, areLooks_nil, fun answer h => ⟨script, .inl rfl, hsent answer h⟩⟩
  | none =>
    cases file with
    | none => exact ⟨[], [], .refl terminal, areLooks_nil, fun answer h => by cases h⟩
    | some path =>
      obtain ⟨_, hreads, read, rfl, hlooks, hscript⟩ := gives_script path terminal
      rcases hrun : (TextFile.readNamed path : TerminalM _) terminal with ⟨failure | script, after⟩
      · have hhalts : (sendEither (m := TerminalM) none (some path) session terminal) =
            ((.error (.failed failure), session), after) :=
          (lift_bind hrun).trans (bind_error (ofExcept_apply _))
        rw [hrun] at hreads
        rw [hhalts]
        refine ⟨read, [], ?_, hlooks, fun answer h => by cases h⟩
        rwa [List.append_nil]
      · have hgoes : (sendEither (m := TerminalM) none (some path) session terminal) =
            Session.sendText (m := TerminalM) script session after :=
          (lift_bind hrun).trans (bind_ok (ofExcept_apply _))
        rw [hrun] at hreads hscript
        obtain ⟨raw, hraw, hdecode⟩ := hscript script rfl
        obtain ⟨sent, hdoes, hsent⟩ := sendText_does script session after
        rw [hgoes]
        refine ⟨read, sent, ?_, hlooks, fun answer h => ⟨script, ?_, hsent answer h⟩⟩
        · rw [List.map_append]
          exact hreads.trans hdoes
        · exact .inr ⟨rfl, path, raw, rfl, List.mem_map_of_mem hraw, hdecode⟩

/-- An exchange shows the report of its answer, if it has one. -/
theorem exchange_does (index : Index) (text : Option String) (file : Option Path)
    (session : Session) (terminal : Terminal) :
    ∃ done, terminal.Does done (exchange (m := TerminalM) index text file session terminal).2 ∧
      Tells (session.channel.jump index) text file done
        (exchange (m := TerminalM) index text file session terminal).1.1 := by
  obtain ⟨read, sent, hdoes, hlooks, hsent⟩ :=
    sendEither_does text file (session.jump index) terminal
  rcases hrun : sendEither (m := TerminalM) text file (session.jump index) terminal with
    ⟨⟨halt | answer, session'⟩, after⟩
  · have hhalts : exchange (m := TerminalM) index text file session terminal =
        ((.error halt, session'), after) := (bind_ok rfl).trans (bind_error hrun)
    rw [hrun] at hdoes
    rw [hhalts]
    exact ⟨_, hdoes, .halts (read ++ sent) halt⟩
  · have hgoes : exchange (m := TerminalM) index text file session terminal =
        ((.ok (), session'), after.note (.showed
          (Report.answered index session'.channel.index answer))) :=
      (bind_ok rfl).trans ((bind_ok hrun).trans ((bind_ok get_apply).trans rfl))
    rw [hrun] at hdoes hsent
    obtain ⟨script, hasked, hhas⟩ := hsent answer rfl
    rw [hgoes]
    exact ⟨_, hdoes.trans (does_note after rfl rfl), .answers session'.channel.index hlooks hasked
      hhas⟩

/-- The sweep of a janitor shows nothing. -/
theorem gives_finish (root : Path) :
    Gives (Crew.single.finish root 0) fun done _ => ∃ swept : List Operation,
      done = swept.map did := by
  have hsweep : Gives (sweep root) fun done _ => ∃ swept : List Operation,
      done = swept.map did := by
    intro terminal
    obtain ⟨swept, hdoes⟩ := corresponds_does.sweep root terminal.stage
    have hstage : (sweep root : TerminalM SweepReport) = onStage (sweep root) :=
      corresponds_onStage.sweep root
    rw [hstage]
    exact ⟨_, does_onStage hdoes, swept, rfl⟩
  rw [Crew.finish, if_neg (by decide)]
  refine hsweep.bind ?_
  rintro _ report ⟨swept, rfl⟩
  refine (gives_pure _).mono ?_
  rintro _ _ ⟨rfl, -⟩
  exact ⟨swept, List.append_nil _⟩

/-- So the last sweep shows nothing. -/
theorem gives_lastSweep (root : Path) :
    Gives (lastSweep root) fun done _ => ∃ swept : List Operation, done = swept.map did := by
  refine (gives_pure true).bind ?_
  rintro _ _ ⟨rfl, rfl⟩
  refine (gives_finish root).bind ?_
  rintro _ ended ⟨swept, rfl⟩
  refine (gives_pure ()).mono ?_
  rintro _ _ ⟨rfl, -⟩
  exact ⟨swept, by simp⟩

/-- A single exchange tells its answer before the last sweep. -/
theorem gives_send (settings : Settings) (index : Index) (text : Option String)
    (file : Option Path) :
    Gives (send settings index text file) fun done outcome => ∃ told, ∃ swept : List Operation,
      done = told ++ swept.map did ∧
        Tells ⟨settings.rootDir, index, settings.pollMs⟩ text file told outcome := by
  have hexchange : Gives (onSession (.start settings.rootDir settings.pollMs .empty)
      (exchange index text file))
      (Tells ⟨settings.rootDir, index, settings.pollMs⟩ text file) := fun terminal =>
    exchange_does index text file (.start settings.rootDir settings.pollMs .empty) terminal
  refine (gives_pure ()).bind ?_
  rintro _ ⟨⟩ ⟨rfl, -⟩
  refine hexchange.bind fun told outcome htells => ?_
  refine (gives_lastSweep settings.rootDir).bind ?_
  rintro _ last ⟨swept, rfl⟩
  refine (gives_pure outcome).mono ?_
  rintro _ _ ⟨rfl, rfl⟩
  exact ⟨told, swept, by rw [List.append_nil]; rfl, htells⟩

/-- Only a failure is shown in the end. -/
theorem gives_conclude (outcome : Except Halt Unit) :
    Gives (conclude outcome) fun done _ => done = [] ∨
      ∃ failure, outcome = .error (.failed failure) ∧ done = [.showed (Report.failed failure)] := by
  have hpure (ending : Ending) : Gives (pure ending) fun done _ => done = [] ∨
      ∃ failure, outcome = .error (.failed failure) ∧ done = [.showed (Report.failed failure)] :=
    (gives_pure ending).mono fun _ _ h => .inl h.1
  rcases outcome with (failure | _ | _ | _) | ⟨⟩
  · refine (gives_print _).bind ?_
    rintro _ _ rfl
    refine (gives_pure _).mono ?_
    rintro _ _ ⟨rfl, -⟩
    exact .inr ⟨failure, rfl, rfl⟩
  all_goals exact hpure _

/-- What the report of an answer starts with. -/
def accepted : String := "RESULT:OK\n"

/-- The report of a failure does not start as that of an answer does. -/
theorem not_accepted_failed (failure : Failure) :
    ¬accepted.toList <+: (Report.failed failure).toList := by
  have herror : (Report.line "RESULT" "ERROR").toList = "RESULT:ERROR\n".toList := by decide
  intro hprefix
  rw [Report.failed, String.toList_append, String.toList_append, herror, List.append_assoc]
    at hprefix
  have hshort := List.prefix_of_prefix_length_le hprefix (List.prefix_append _ _) (by decide)
  exact absurd hshort (by decide)

section

variable {terminal : Terminal} {documents : Documents} {arguments : List String}
  {request : Arguments.Request} {settings : Settings} {index : Index}

/-- Whether a report tells the answer of an exchange, and the exchange has been made before. -/
def IsReported (settings : Settings) (index : Index) (text : Option String) (file : Option Path)
    (report : String) (done : List Note) : Prop :=
  ∃ read sent script answer next late, AreLooks read ∧
    IsAsked text file (read.map did) script ∧
    HasSent ⟨settings.rootDir, index, settings.pollMs⟩ script sent answer ∧
    done = (read ++ sent).map did ++ late ∧ report = Report.answered index next answer

/-- The program reports an answer only where an exchange has given it. -/
theorem run_does (hparse : Arguments.parse arguments = .ok request)
    (htask : request.task = some (.send index text file))
    (hsettings : Settings.resolve documents request = .ok settings) (terminal : Terminal)
    (report : String) :
    ∃ done, terminal.Does done (terminal.runProgram documents arguments).2 ∧
      (.showed report ∈ done → accepted.toList <+: report.toList →
        IsReported settings index text file report done) := by
  have hshown (operation : Operation) : did operation ≠ .showed report := fun heq => by cases heq
  have hgives : Gives (send settings index text file >>= conclude) fun done _ =>
      .showed report ∈ done → accepted.toList <+: report.toList →
        IsReported settings index text file report done := by
    refine (gives_send settings index text file).bind ?_
    rintro _ outcome ⟨told, swept, rfl, htells⟩
    refine (gives_conclude outcome).mono fun last _ hlast hmem hok => ?_
    cases htells with
    | halts done halt =>
      rcases hlast with rfl | ⟨failure, -, rfl⟩
      · simp [hshown] at hmem
      · have hreport : report = Report.failed failure := by simpa [hshown] using hmem
        rw [hreport] at hok
        exact absurd hok (not_accepted_failed failure)
    | @answers read sent script answer next hread hasked hsent =>
      rcases hlast with rfl | ⟨failure, herror, -⟩
      · have hreport : report = Report.answered index next answer := by
          simpa [hshown] using hmem
        refine ⟨read, sent, script, answer, next, .showed report :: swept.map did, hread, hasked,
          hsent, ?_, hreport⟩
        rw [hreport]
        simp
      · cases herror
  have hperform : perform serve settings request.task =
      (send settings index text file : TerminalM (Except Halt Unit)) := by
    rw [htask]
    rfl
  rw [Terminal.runProgram, run_eq hparse hsettings, hperform]
  exact hgives terminal

/-- An answer that is reported has been read after the request was written, and others have put it
there since then: if neither file of the exchange was in the mailbox when the program started, and
others wait for the request. -/
theorem run_send_fresh (hparse : Arguments.parse arguments = .ok request)
    (htask : request.task = some (.send index text file))
    (hsettings : Settings.resolve documents request = .ok settings)
    (hopening : terminal.log = [])
    (hvacant : IsVacant terminal.stage.scene.disk settings.rootDir index)
    (hothers : Obeys (AwaitsRequest settings.rootDir index)
      (events (terminal.runProgram documents arguments).2.log)) {report : String}
    (hshown : .showed report ∈ (terminal.runProgram documents arguments).2.log)
    (hok : accepted.toList <+: report.toList) :
    ∃ script document raw answer next early between late,
      (terminal.runProgram documents arguments).2.log =
        early ++ did (.wrote (settings.rootDir.join (requestName index))
          (Text.Utf8.encode document) (.ok ())) :: (between ++
            did (.opened (settings.rootDir.join (responseName index)) (.ok raw)) :: late) ∧
      IsAsked text file early script ∧ Document.write (.ofText script) = .ok document ∧
      (∃ left reached, .happened (.others left reached) ∈ between ∧
        left.disk.read (settings.rootDir.join (responseName index)) ≠ .ok raw ∧
        reached.disk.read (settings.rootDir.join (responseName index)) = .ok raw) ∧
      Document.read raw = .ok answer ∧
      report = Report.answered index next (if answer.isNil then none else some answer) := by
  obtain ⟨_, ⟨notes, hlog, hbecomes, rfl⟩, hdone⟩ :=
    run_does hparse htask hsettings terminal report
  rw [hopening, List.nil_append] at hlog
  rw [hlog] at hothers hshown ⊢
  obtain ⟨read, sent, script, answer, next, late, hlooks, hasked,
    ⟨document, tries, kind, raw, payload, hwrite, rfl, hread, rfl⟩, hdeeds, hreport⟩ :=
      hdone (List.mem_filter.mpr ⟨hshown, rfl⟩) hok
  let asking : Path := settings.rootDir.join (requestName index)
  let response : Path := settings.rootDir.join (responseName index)
  -- the log is split where the request is written, and where the response is read
  let looking : List Operation := polls response tries ++ [.looked response (some kind)]
  let before : List Operation := read ++ [.checked false, .made settings.rootDir (.ok ())]
  have hsplit : deeds notes = before.map did ++
      did (.wrote asking (Text.Utf8.encode document) (.ok ())) ::
        (looking.map did ++ did (.opened response (.ok raw)) :: late) := by
    rw [hdeeds]
    simp only [looking, before, Channel.posting, List.map_append, List.map_cons, List.map_nil,
      List.append_assoc, List.cons_append, List.nil_append]
    rfl
  obtain ⟨early, rest, ready, posted, rfl, hearly, hrest, hready, hwrote, hrun⟩ :=
    Note.becomes_split hbecomes hsplit
  obtain ⟨between, after, seen, opened, rfl, hbetween, -, hseen, hopened, -⟩ :=
    Note.becomes_split hrun hrest
  have hreads : seen.disk.read response = .ok raw := congrArg Prod.fst hopened
  have hstill : IsVacant ready.disk settings.rootDir index := by
    refine hvacant.becomes hready (fun operation hmem => ?_) ?_
    · rw [hearly, Note.mem_map_did, List.mem_append] at hmem
      rcases hmem with hmem | hmem
      · exact .inl (hlooks operation hmem)
      · simp only [List.mem_cons, List.not_mem_nil, or_false] at hmem
        rcases hmem with rfl | rfl
        · exact .inl rfl
        · exact .inr ⟨.ok (), rfl⟩
    · rw [Note.events_append] at hothers
      exact hothers.of_append_left
  have hunread : posted.disk.read response ≠ .ok raw :=
    hstill.response.read_ne_ok_of_write hstill.request
      (isEntryName_of_isExchangeName (isExchangeName_responseName index))
      (isEntryName_requestName index) (requestName_ne_responseName index index).symm
      (Scene.change_eq_ok_iff.mp hwrote).1
  refine ⟨script, document, raw, payload, next, early, between, after, rfl,
    hasked.mono fun note hmem => ?_, hwrite, ?_, hread, hreport⟩
  · have hdeed : note ∈ deeds early := by
      rw [hearly, List.map_append]
      exact List.mem_append_left _ hmem
    exact (List.mem_filter.mp hdeed).1
  · refine exists_published hseen (fun operation hmem => ?_) hunread hreads
    rw [hbetween, Note.mem_map_did] at hmem
    have hlooking : AreLooks looking := by simp [looking]
    exact hlooking operation hmem

end

/-! ## A mailbox with and without an old response -/

/-- A response that carries a text in one chunk and has nothing around it. -/
def responseOf (text : String) : Bytes :=
  Document.openerBytes ++ Text.Utf8.encode text ++ Document.closerBytes

/-- The path `t` leads to the empty mailbox. -/
theorem leads_emptyMailbox : emptyMailbox.Leads ⟨"t"⟩ ["t"] :=
  ⟨by rfl, by rfl⟩

/-- It has neither a request nor a response. -/
theorem isVacant_emptyMailbox : IsVacant emptyMailbox ⟨"t"⟩ .zero := by
  constructor
  · intro directory hleads entry hentry
    obtain rfl := hleads.eq_of_leads leads_emptyMailbox
    have hnone : emptyMailbox.at? ["t", "in0.txt"] = none := by decide +kernel
    cases hnone.symm.trans hentry
  · intro directory hleads entry hentry
    obtain rfl := hleads.eq_of_leads leads_emptyMailbox
    have hnone : emptyMailbox.at? ["t", "out0.txt"] = none := by decide +kernel
    cases hnone.symm.trans hentry

/-- A terminal at which others write the response before the program looks for it. -/
def repliedTerminal : Terminal :=
  .opening ⟨emptyMailbox, false⟩
    [[], [], [], [⟨emptyMailbox.put ["t", "out0.txt"] (.file (responseOf "new")), false⟩]]
    .plain []

/-- All that happens there in a single exchange. -/
def repliedLog : List Note :=
  (repliedTerminal.runProgram .absent (sendArguments "t" "x")).2.log

/-- Whether nobody else acts, or others act where the request is there. -/
def followsRequest : Note → Bool
  | .happened (.others left _) =>
    decide (left.disk.Leads ⟨"t"⟩ ["t"]) && (left.disk.fileAt? ["t", "in0.txt"]).isSome
  | _ => true

/-- The response is written when the request is there, and it is reported. -/
theorem repliedLog_told :
    repliedLog.all followsRequest = true ∧
      .showed (Report.answered .zero ⟨1, by decide⟩ (some (.ofText "new"))) ∈ repliedLog := by
  decide +kernel

/-- In this log the response comes after the request. -/
theorem obeys_repliedLog : Obeys (AwaitsRequest ⟨"t"⟩ .zero) (events repliedLog) := by
  intro left reached hmem hvacant
  have hfollows := List.all_eq_true.mp repliedLog_told.1 _ (Note.mem_events_iff.mp hmem)
  rw [followsRequest, Bool.and_eq_true, decide_eq_true_iff, Option.isSome_iff_exists] at hfollows
  obtain ⟨hleads, content, hrequest⟩ := hfollows
  cases hvacant.request ["t"] hleads.mayLead _ (Disk.fileAt?_eq_some_iff.mp hrequest)

/-- A response that others write once the request is there is reported. -/
theorem run_send_fresh_answered :
    .showed (Report.answered .zero ⟨1, by decide⟩ (some (.ofText "new"))) ∈ repliedLog ∧
      ∃ document raw early between late,
        repliedLog = early ++ did (.wrote ⟨"t/in0.txt"⟩ (Text.Utf8.encode document) (.ok ())) ::
          (between ++ did (.opened ⟨"t/out0.txt"⟩ (.ok raw)) :: late) ∧
        Document.write (.ofText "x") = .ok document ∧
        ∃ left reached, .happened (.others left reached) ∈ between ∧
          left.disk.read ⟨"t/out0.txt"⟩ ≠ .ok raw ∧
          reached.disk.read ⟨"t/out0.txt"⟩ = .ok raw := by
  have hparse : Arguments.parse (sendArguments "t" "x") = .ok ⟨some ⟨"t"⟩, none,
      Arguments.defaultPollMs, some (.send .zero (some "x") none)⟩ := by decide +kernel
  have hsettings : Settings.resolve .absent ⟨some ⟨"t"⟩, none, Arguments.defaultPollMs,
      some (.send .zero (some "x") none)⟩ = .ok (sendSettings "t") := rfl
  have hopening : repliedTerminal.log = [] := rfl
  have hok : accepted.toList <+:
      (Report.answered .zero ⟨1, by decide⟩ (some (.ofText "new"))).toList := by decide +kernel
  obtain ⟨script, document, raw, answer, next, early, between, late, hlog, hasked, hwrite,
    hanswered, -⟩ := run_send_fresh hparse rfl hsettings hopening isVacant_emptyMailbox
      obeys_repliedLog repliedLog_told.2 hok
  have hrequest : (sendSettings "t").rootDir.join (requestName .zero) = ⟨"t/in0.txt"⟩ := by
    decide +kernel
  have hresponse : (sendSettings "t").rootDir.join (responseName .zero) = ⟨"t/out0.txt"⟩ := by
    decide +kernel
  obtain rfl : script = "x" := by
    rcases hasked with hscript | ⟨hnone, -⟩
    · exact (Option.some.inj hscript).symm
    · cases hnone
  rw [hresponse] at hlog hanswered
  rw [hrequest] at hlog
  exact ⟨repliedLog_told.2, document, raw, early, between, late, hlog, hwrite, hanswered⟩

/-- The mailbox with an old response. -/
def staleResponse : Disk :=
  emptyMailbox.put ["t", "out0.txt"] (.file (responseOf "old"))

/-- An old response is reported although nobody has answered. -/
theorem run_send_stale :
    let log := (Terminal.runProgram (.opening ⟨staleResponse, false⟩ [] .plain []) .absent
      (sendArguments "t" "x")).2.log
    .showed (Report.answered .zero ⟨1, by decide⟩ (some (.ofText "old"))) ∈ log ∧
      ∀ note ∈ log, note.isDeed = true := by
  decide +kernel

end Program

end ScriptMailbox
