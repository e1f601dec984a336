import ScriptMailbox.Proofs.Program.Permits
import ScriptMailbox.Proofs.Source.Targets

/-!
# What the parts of the program do

Every part of the console and of a single exchange does what it may and nothing else, and keeps the
mailbox that it works on.
-/

namespace ScriptMailbox

open Mailbox

variable {root : Path} {typed : List Bytes}

/-! ## Exchanges -/

namespace Channel

/-- The channel of the mailbox. -/
def IsOf (root : Path) (channel : Channel) : Prop :=
  channel.root = root

/-- Posting creates the root and writes a request. -/
theorem keepsIn_post (payload : Payload) :
    KeepsIn root typed (IsOf root) (post payload) fun _ => True := by
  refine keepsIn_get.bind fun channel hchannel => ?_
  obtain rfl : channel.root = root := hchannel
  refine (keepsIn_result _).bind fun document _ => ?_
  refine (keepsIn_lift keeps_isCancelled).bind fun up _ => ?_
  cases up with
  | true => exact keepsIn_throw_bind _ _
  | false =>
    refine (keepsIn_lift keeps_makeDirectories).bind fun made _ => ?_
    refine (keepsIn_result _).bind fun _ _ => ?_
    refine (keepsIn_lift (keeps_write (.posts channel.index _))).bind fun wrote _ => ?_
    exact keepsIn_result _

/-- Waiting only looks. -/
theorem keepsIn_await : KeepsIn root typed (IsOf root) await fun _ => True := by
  refine keepsIn_get.bind fun channel _ => ?_
  refine (keepsIn_lift (keeps_await _ _)).bind fun result _ => ?_
  exact keepsIn_result _

/-- Reading the response is permitted, and so is going on to the next index. -/
theorem keepsIn_collect : KeepsIn root typed (IsOf root) collect fun _ => True := by
  refine keepsIn_get.bind fun channel hchannel => ?_
  refine (keepsIn_lift (keeps_read _)).bind fun result _ => ?_
  refine (keepsIn_result _).bind fun raw _ => ?_
  cases channel.index.next? with
  | none => exact keepsIn_throw .exhausted
  | some next =>
    have hnext : IsOf root (channel.jump next) := hchannel
    exact (keepsIn_set hnext).bind fun _ _ => keepsIn_result _

/-- So is a whole exchange. -/
theorem keepsIn_send (payload : Payload) :
    KeepsIn root typed (IsOf root) (send payload) fun _ => True :=
  (keepsIn_post payload).bind fun _ _ => keepsIn_await.bind fun _ _ => keepsIn_collect

end Channel

/-! ## Sweeping -/

/-- Deleting exchange files is permitted. -/
theorem keeps_removeAll {names : List String}
    (hnames : ∀ name ∈ names, isExchangeName name = true) :
    Keeps root typed (removeAll root names : DeskM SweepReport) fun _ => True := by
  induction names with
  | nil => exact keeps_pure trivial
  | cons name names ih =>
    obtain ⟨hname, hrest⟩ := List.forall_mem_cons.mp hnames
    exact (keeps_removeFile hname).bind fun _ _ => (ih hrest).bind fun _ _ => keeps_pure trivial

/-- A sweep deletes exchange files alone. -/
theorem keeps_sweep (root : Path) :
    Keeps root typed (sweep root : DeskM SweepReport) fun _ => True := by
  refine (keeps_fileNames root).bind fun result _ => ?_
  rcases result with fault | names
  · cases fault <;> exact keeps_pure trivial
  · exact keeps_removeAll fun name hname => (List.mem_filter.mp hname).2

/-- A channel that has been reset is in the same mailbox. -/
theorem Channel.keeps_reset {channel : Channel} (h : channel.IsOf root) :
    Keeps root typed (channel.reset : DeskM (SweepReport × Channel)) fun swept =>
      swept.2.IsOf root := by
  obtain rfl : channel.root = root := h
  exact (keeps_sweep channel.root).bind fun report _ => keeps_pure rfl

/-! ## Sources -/

namespace TextFile

/-- Reading a script is permitted. -/
theorem keeps_read (path : Path) :
    Keeps root typed (read path : DeskM (Except Failure String)) fun _ => True :=
  (ScriptMailbox.keeps_read path).bind fun _ _ => keeps_pure trivial

/-- So is looking for it before. -/
theorem keeps_readNamed (path : Path) :
    Keeps root typed (readNamed path : DeskM (Except Failure String)) fun _ => True := by
  refine (keeps_kind? path).bind fun found _ => ?_
  split_ifs
  · exact keeps_read path
  · exact keeps_pure trivial

end TextFile

namespace SourceTree

/-- Loading sources reads them one by one. -/
theorem keeps_loadFiles (tree : SourceTree) (paths : List Path) :
    Keeps root typed (loadFiles tree paths : DeskM (Except Failure SourceTree))
      fun _ => True := by
  induction paths generalizing tree with
  | nil => exact keeps_pure trivial
  | cons path paths ih =>
    refine (TextFile.keeps_read path).bind fun result _ => ?_
    cases result with
    | error failure => exact keeps_pure trivial
    | ok content => exact ih (tree.insert path content)

/-- It looks for them before. -/
theorem keeps_load (directory : Path) :
    Keeps root typed (load directory : DeskM (Except Failure SourceTree)) fun _ => True := by
  refine (keeps_kind? directory).bind fun found _ => ?_
  split_ifs
  · exact (keeps_filesBelow directory).bind fun paths _ => keeps_loadFiles _ _
  · exact keeps_pure trivial

/-- A source comes from memory, or is read. -/
theorem keeps_readSource (tree : SourceTree) (path : Path) :
    Keeps root typed (tree.readSource path : DeskM (Except Failure String)) fun _ => True := by
  rw [readSource]
  cases tree.get? path with
  | none => exact TextFile.keeps_readNamed path
  | some content => exact keeps_pure trivial

/-- What a patch gives has been made of some source, of the file named if one is. -/
theorem keeps_patch (tree : SourceTree) (file : Option Path) (query : Query) (text : String)
    (afterLine : ℕ) :
    Keeps root typed (tree.patch file query text afterLine : DeskM (Except Failure Patched))
      fun result => ∀ patched, result = .ok patched →
        (∀ named, file = some named → patched.path = named) ∧
          ∃ source, patchContent patched.path source query text afterLine = .ok patched := by
  cases file with
  | none =>
    refine keeps_pure fun patched hpatched => ⟨fun _ hnamed => (by cases hnamed), ?_⟩
    cases hsource : tree.sourceOf? query with
    | error failure =>
      rw [hsource] at hpatched
      cases hpatched
    | ok source =>
      rw [hsource] at hpatched
      exact ⟨source.2, by rw [path_of_patchContent hpatched]; exact hpatched⟩
  | some path =>
    refine (keeps_readSource tree path).bind fun content _ => keeps_pure fun patched hpatched => ?_
    cases content with
    | error failure => cases hpatched
    | ok source =>
      have hpath := path_of_patchContent hpatched
      refine ⟨fun named hnamed => ?_, source, by rw [hpath]; exact hpatched⟩
      cases hnamed
      exact hpath

end SourceTree

/-! ## Sessions -/

namespace Session

/-- The session of the mailbox. -/
def IsOf (root : Path) (session : Session) : Prop :=
  session.channel.root = root

/-- Work on the channel of a session is work on the session. -/
theorem keepsIn_onChannel {α : Type} {gives : α → Prop} {work : ChannelM DeskM α}
    (h : KeepsIn root typed (Channel.IsOf root) work gives) :
    KeepsIn root typed (IsOf root) (onChannel work) gives :=
  fun session hsession => (h session.channel hsession).bind fun _ hresult => keeps_pure hresult

/-- A failure of a result does nothing more. -/
theorem keepsIn_orHalt {α : Type} {gives : α → Prop} {result : Except Failure α}
    (h : ∀ a, result = .ok a → gives a) :
    KeepsIn root typed (IsOf root) (orHalt result) gives := by
  refine keepsIn_ofExcept fun a ha => h a ?_
  cases result with
  | error failure => cases ha
  | ok b =>
    cases ha
    rfl

/-- Resetting a session sweeps its mailbox. -/
theorem keepsIn_reset : KeepsIn root typed (IsOf root) reset fun _ => True := by
  refine keepsIn_get.bind fun session hsession => ?_
  refine (keepsIn_lift (Channel.keeps_reset hsession)).bind fun swept hswept => ?_
  have hnext : IsOf root { session with channel := swept.2 } := hswept
  exact (keepsIn_set hnext).bind fun _ _ => keepsIn_pure trivial

/-- Sending a text is an exchange. -/
theorem keepsIn_sendText (text : String) :
    KeepsIn root typed (IsOf root) (sendText text) fun _ => True :=
  (keepsIn_onChannel (Channel.keepsIn_send _)).bind fun _ _ => keepsIn_pure trivial

/-- Sending a file reads it before. -/
theorem keepsIn_sendFile (path : Path) :
    KeepsIn root typed (IsOf root) (sendFile path) fun _ => True := by
  refine (keepsIn_lift (TextFile.keeps_readNamed path)).bind fun result _ => ?_
  exact (keepsIn_orHalt fun _ _ => trivial).bind fun text _ => keepsIn_sendText text

/-- A patch that is asked for by a typed line. -/
theorem keepsIn_patch {bytes : Bytes} {line : String} {file : Option Path} {query : Query}
    {text : String} (hbytes : bytes ∈ typed) (hline : Console.lineOf bytes = .ok (some line))
    (hparse : Command.parse line = .ok (.patch file query text)) :
    KeepsIn root typed (IsOf root) (patch file query text Source.defaultAfterLine)
      fun _ => True := by
  refine keepsIn_get.bind fun session hsession => ?_
  refine (keepsIn_lift (SourceTree.keeps_patch _ file query text _)).bind fun result hresult => ?_
  refine (keepsIn_orHalt hresult).bind fun patched hpatched => ?_
  obtain ⟨hnamed, source, hcontent⟩ := hpatched
  have hmay : IsPatched typed patched.path (Text.Utf8.encode patched.content) :=
    ⟨bytes, hbytes, line, file, query, text, source, patched, hline, hparse, hnamed, hcontent, rfl⟩
  refine (keepsIn_lift (keeps_write fun wrote => .patches wrote hmay)).bind fun wrote _ => ?_
  refine (keepsIn_result _).bind fun _ _ => ?_
  have hnext : IsOf root { session with
      sources := session.sources.insert patched.path patched.content } := hsession
  exact (keepsIn_set hnext).bind fun _ _ => keepsIn_pure trivial

end Session

/-! ## The console -/

namespace Console

open Session (IsOf keepsIn_orHalt)

/-- Showing a text is permitted. -/
theorem keepsIn_say (text : String) : KeepsIn root typed (IsOf root) (say text) fun _ => True :=
  keepsIn_lift (keeps_print text)

/-- What is asked for is a line that is typed, or nothing. -/
theorem keeps_ask (question : String) :
    Keeps root typed (ask question : DeskM (Except Failure (Option String))) fun result =>
      ∀ line, result = .ok (some line) → ∃ bytes ∈ typed, lineOf bytes = .ok (some line) := by
  refine (keeps_print question).bind fun _ _ => ?_
  refine keeps_readLine.bind fun bytes hbytes => keeps_pure fun line hline => ?_
  rcases hbytes with rfl | hmem
  · cases hline
  · exact ⟨bytes, hmem, hline⟩

/-- So is showing an answer. -/
theorem keepsIn_echo (answer : Option Payload) :
    KeepsIn root typed (IsOf root) (echo answer) fun _ => True := by
  cases answer with
  | none => exact keepsIn_pure trivial
  | some payload => exact keepsIn_say _

/-- The command `file` looks for the file and sends it. -/
theorem keepsIn_obeyFile (path : Path) :
    KeepsIn root typed (IsOf root) (obeyFile path) fun _ => True := by
  refine (keepsIn_lift (keeps_kind? path)).bind fun found _ => ?_
  split_ifs
  · refine keepsIn_get.bind fun session _ => ?_
    refine (keepsIn_say _).bind fun _ _ => ?_
    exact (Session.keepsIn_sendFile path).bind fun answer _ => keepsIn_echo answer
  · exact keepsIn_throw _

/-- Every command does what is permitted. A patch may write its file because its line has been
typed. -/
theorem keepsIn_obey {bytes : Bytes} {line : String} {command : Command} (hbytes : bytes ∈ typed)
    (hline : lineOf bytes = .ok (some line)) (hparse : Command.parse line = .ok command) :
    KeepsIn root typed (IsOf root) (obey command) fun _ => True := by
  cases command with
  | empty => exact keepsIn_pure trivial
  | help => exact (keepsIn_say _).bind fun _ _ => keepsIn_pure trivial
  | exit => exact keepsIn_pure trivial
  | restart =>
    refine Session.keepsIn_reset.bind fun _ _ => ?_
    exact (keepsIn_say _).bind fun _ _ => keepsIn_pure trivial
  | jump index =>
    exact (keepsIn_modify fun _ hsession => hsession).bind fun _ _ => keepsIn_pure trivial
  | file path => exact (keepsIn_obeyFile path).bind fun _ _ => keepsIn_pure trivial
  | patch file query text =>
    refine (Session.keepsIn_patch hbytes hline hparse).bind fun patched _ => ?_
    exact (keepsIn_say _).bind fun _ _ => keepsIn_pure trivial
  | send text =>
    refine (Session.keepsIn_sendText text).bind fun answer _ => ?_
    exact (keepsIn_echo answer).bind fun _ _ => keepsIn_pure trivial

/-- A line that is no command does nothing. -/
theorem keepsIn_obeyLine {bytes : Bytes} {line : String} (hbytes : bytes ∈ typed)
    (hline : lineOf bytes = .ok (some line)) :
    KeepsIn root typed (IsOf root) (obeyLine line) fun _ => True := by
  have hcommand : ∀ command, (Command.parse line).mapError (fun fault : CommandFault =>
      Failure.invalidCommand fault.message) = .ok command → Command.parse line = .ok command := by
    intro command hmapped
    cases hparse : Command.parse line with
    | error fault =>
      rw [hparse] at hmapped
      cases hmapped
    | ok other =>
      rw [hparse] at hmapped
      cases hmapped
      rfl
  exact (keepsIn_orHalt hcommand).bind fun command hparse => keepsIn_obey hbytes hline hparse

/-- What follows a line only shows something. -/
theorem keepsIn_afterLine (outcome : Except Halt Turn) :
    KeepsIn root typed (IsOf root) (afterLine outcome) fun _ => True := by
  rcases outcome with halt | next
  · cases halt with
    | failed failure =>
      refine (keepsIn_say _).bind fun _ _ => ?_
      split <;> exact keepsIn_pure trivial
    | exhausted => exact keepsIn_throw _
    | terminated => exact keepsIn_throw _
    | unanswered => exact keepsIn_throw _
  · exact keepsIn_pure trivial

/-- So a turn of the console does what is permitted. -/
theorem keepsIn_turn : KeepsIn root typed (IsOf root) turn fun _ => True := by
  refine (keepsIn_lift keeps_isCancelled).bind fun up _ => ?_
  split_ifs
  · exact keepsIn_pure trivial
  refine keepsIn_get.bind fun session _ => ?_
  refine (keepsIn_lift (keeps_ask _)).bind fun asked hasked => ?_
  have hlines : ∀ answer, asked = .ok answer →
      ∀ line, answer = some line → ∃ bytes ∈ typed, lineOf bytes = .ok (some line) := by
    rintro answer hanswer line rfl
    exact hasked line hanswer
  refine (keepsIn_orHalt hlines).bind fun answer hanswer => ?_
  cases answer with
  | none => exact (keepsIn_say _).bind fun _ _ => keepsIn_pure trivial
  | some line =>
    obtain ⟨bytes, hbytes, hline⟩ := hanswer line rfl
    refine (keepsIn_observing (keepsIn_obeyLine hbytes hline)).bind fun outcome _ => ?_
    exact keepsIn_afterLine outcome

/-- By induction on their number, so do any turns. -/
theorem keepsIn_turns (limit : ℕ) :
    KeepsIn root typed (IsOf root) (turns limit) fun _ => True := by
  induction limit with
  | zero => exact keepsIn_pure trivial
  | succ limit ih =>
    refine keepsIn_turn.bind fun next _ => ?_
    cases next with
    | again => exact ih
    | quit => exact keepsIn_pure trivial

end Console

/-- So does the console as a whole. -/
theorem Desk.keepsIn_serve :
    KeepsIn root typed (Session.IsOf root) serve fun _ => True := by
  have hget : Keeps root typed (get : DeskM Desk) fun _ => True :=
    fun _ hsound => ⟨.refl hsound.tracks, trivial⟩
  refine (keepsIn_lift hget).bind fun desk _ => ?_
  exact (Console.keepsIn_say _).bind fun _ _ => Console.keepsIn_turns _

/-! ## One exchange -/

namespace Program

/-- Loading the sources of the settings is permitted. -/
theorem keeps_loadSources (settings : Settings) :
    Keeps root typed (loadSources settings : DeskM (Except Failure SourceTree))
      fun _ => True := by
  rw [loadSources]
  cases settings.sourceDir with
  | none => exact keeps_pure trivial
  | some directory => exact SourceTree.keeps_load directory

/-- Work on a session is permitted if it is in every session of the mailbox. -/
theorem keeps_onSession {α : Type} {session : Session} {work : SessionM DeskM α}
    (h : KeepsIn root typed (Session.IsOf root) work fun _ => True)
    (hsession : session.IsOf root) :
    Keeps root typed (onSession session work) fun _ => True :=
  (h session hsession).bind fun _ _ => keeps_pure trivial

/-- Sending a text or a file is permitted. -/
theorem keepsIn_sendEither (text : Option String) (file : Option Path) :
    KeepsIn root typed (Session.IsOf root) (sendEither text file) fun _ => True := by
  rcases text with _ | text
  · rcases file with _ | file
    · exact keepsIn_throw _
    · exact Session.keepsIn_sendFile file
  · exact Session.keepsIn_sendText text

/-- So is a single exchange. -/
theorem keepsIn_exchange (index : Index) (text : Option String) (file : Option Path) :
    KeepsIn root typed (Session.IsOf root) (exchange index text file) fun _ => True := by
  have hjump : ∀ session, Session.IsOf root session → Session.IsOf root (session.jump index) :=
    fun _ hsession => hsession
  refine (keepsIn_modify hjump).bind fun _ _ => ?_
  refine (keepsIn_sendEither text file).bind fun answer _ => ?_
  exact keepsIn_get.bind fun session _ => Console.keepsIn_say _

end Program

end ScriptMailbox
