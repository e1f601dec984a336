import ScriptMailbox.Proofs.Arguments.Choices
import ScriptMailbox.Proofs.Computations
import ScriptMailbox.Proofs.Console.Grammar
import ScriptMailbox.Program

/-!
# What a request asks for

Accepted arguments say what is to be sent and which function is meant, so nothing has to be made up
for what is missing: a single exchange always has a text or a file to send, and a function is looked
for in line 0 only if that line has been asked for (`parse_determines`).
-/

namespace ScriptMailbox

/-! ## Halts that do not occur -/

section

variable {σ τ α β : Type} {halt : Halt} {first : ExceptT Halt (StateT σ (StateM τ)) α}
  {next : α → ExceptT Halt (StateT σ (StateM τ)) β}

/-- Whether work never ends with some halt, whatever it finds. -/
def Avoids (halt : Halt) (work : ExceptT Halt (StateT σ (StateM τ)) α) : Prop :=
  ∀ state host, (work state host).1.1 ≠ .error halt

/-- A result is no halt. -/
theorem avoids_pure (a : α) : Avoids halt (pure a : ExceptT Halt (StateT σ (StateM τ)) α) :=
  fun _ _ h => by cases h

/-- Another halt is not this one. -/
theorem avoids_throw {other : Halt} (h : other ≠ halt) :
    Avoids halt (throw other : ExceptT Halt (StateT σ (StateM τ)) α) :=
  fun _ _ heq => h (Except.error.inj heq)

/-- A result that is not this halt does not become it. -/
theorem avoids_ofExcept {result : Except Halt α} (h : result ≠ .error halt) :
    Avoids halt (ofExcept result : ExceptT Halt (StateT σ (StateM τ)) α) := by
  intro state host
  rwa [ofExcept_apply]

/-- An operation of the host does not halt. -/
theorem avoids_lift (work : StateM τ α) :
    Avoids halt (liftM work : ExceptT Halt (StateT σ (StateM τ)) α) :=
  fun _ _ h => by cases h

/-- What follows an operation of the host may depend on what it can give. -/
theorem avoids_lift_bind {work : StateM τ α} (gives : α → Prop)
    (h : ∀ host, gives (work host).1) (hnext : ∀ a, gives a → Avoids halt (next a)) :
    Avoids halt (liftM work >>= next) := by
  intro state host
  have hgoes : (liftM work >>= next) state host = next (work host).1 state (work host).2 :=
    lift_bind rfl
  rw [hgoes]
  exact hnext _ (h host) state _

/-- Reading the state does not halt. -/
theorem avoids_get : Avoids halt (get : ExceptT Halt (StateT σ (StateM τ)) σ) :=
  fun _ _ h => by cases h

/-- Setting it does not. -/
theorem avoids_set (state : σ) :
    Avoids halt (set state : ExceptT Halt (StateT σ (StateM τ)) PUnit) :=
  fun _ _ h => by cases h

/-- Changing it does not. -/
theorem avoids_modify (change : σ → σ) :
    Avoids halt (modify change : ExceptT Halt (StateT σ (StateM τ)) PUnit) :=
  fun _ _ h => by cases h

/-- Computations that avoid a halt avoid it in turn. -/
theorem Avoids.bind (hfirst : Avoids halt first) (hnext : ∀ a, Avoids halt (next a)) :
    Avoids halt (first >>= next) := by
  intro state host
  have hfails := hfirst state host
  rcases hrun : first state host with ⟨⟨other | a, state'⟩, host'⟩
  · rw [hrun] at hfails
    rw [bind_error hrun]
    exact fun h => hfails (congrArg Except.error (Except.error.inj h))
  · rw [bind_ok hrun]
    exact hnext a state' host'

end

variable {τ : Type} [Host (StateM τ)]

namespace Channel

/-- The failure of a command is no failure of an exchange. -/
theorem orFailed_ne {α : Type} (path : Path) (result : Except DiskFault α) (reason : String) :
    orFailed path result ≠ .error (.failed (.invalidCommand reason)) := by
  cases result <;> simp [orFailed, Except.mapError]

/-- Posting a request fails in other ways. -/
theorem avoids_post (payload : Payload) (reason : String) :
    Avoids (.failed (.invalidCommand reason)) (post payload : ChannelM (StateM τ) Unit) := by
  have hdocument : ((Document.write payload).mapError fun fault =>
      Halt.failed (.ofPayloadFault fault)) ≠ .error (.failed (.invalidCommand reason)) := by
    cases Document.write payload <;> simp [Except.mapError, Failure.ofPayloadFault]
  refine avoids_get.bind fun channel => (avoids_ofExcept hdocument).bind fun document => ?_
  refine (avoids_lift _).bind fun up => ?_
  have hwrites : Avoids (.failed (.invalidCommand reason))
      (do
        ofExcept (orFailed channel.root (← Host.makeDirectories (m := StateM τ) channel.root))
        ofExcept (orFailed (channel.requestPath channel.index)
          (← Host.write (m := StateM τ) (channel.requestPath channel.index)
            (Text.Utf8.encode document))) : ChannelM (StateM τ) Unit) := by
    refine (avoids_lift _).bind fun made => (avoids_ofExcept (orFailed_ne _ _ _)).bind fun _ => ?_
    exact (avoids_lift _).bind fun wrote => avoids_ofExcept (orFailed_ne _ _ _)
  cases up with
  | true => exact (avoids_throw (by simp)).bind fun _ => hwrites
  | false => exact hwrites

/-- So does a wait. -/
theorem avoids_await (reason : String) :
    Avoids (.failed (.invalidCommand reason)) (await : ChannelM (StateM τ) Unit) := by
  refine avoids_get.bind fun channel => (avoids_lift _).bind fun wait => avoids_ofExcept ?_
  cases wait <;> simp [ofWait]

/-- So does reading the response. -/
theorem avoids_collect (reason : String) :
    Avoids (.failed (.invalidCommand reason)) (collect : ChannelM (StateM τ) Payload) := by
  refine avoids_get.bind fun channel => (avoids_lift _).bind fun result => ?_
  refine (avoids_ofExcept (orFailed_ne _ _ _)).bind fun raw => ?_
  cases channel.index.next? with
  | none => exact avoids_throw (by simp)
  | some next =>
    refine (avoids_set _).bind fun _ => avoids_ofExcept ?_
    rw [payloadOf]
    cases Document.read raw <;> simp [Except.mapError]

/-- So does a whole exchange. -/
theorem avoids_send (payload : Payload) (reason : String) :
    Avoids (.failed (.invalidCommand reason)) (send payload : ChannelM (StateM τ) Payload) :=
  (avoids_post payload reason).bind fun _ => (avoids_await reason).bind fun _ =>
    avoids_collect reason

end Channel

/-- Nor is it a failure to read a file. -/
theorem TextFile.readNamed_ne (path : Path) (reason : String) (host : τ) :
    ((readNamed path : StateM τ (Except Failure String)) host).1 ≠
      .error (.invalidCommand reason) := by
  rcases hkind : (Host.kind? path : StateM τ (Option Kind)) host with ⟨found, looked⟩
  rw [readNamed, host_bind hkind]
  split_ifs with hfile
  · rcases hread : (Host.read path : StateM τ (Except DiskFault Bytes)) looked with ⟨result, opened⟩
    rw [read, host_bind hread]
    show textOf path result ≠ _
    rw [textOf.eq_def]
    split
    · simp
    · split <;> simp
  · show Except.error (Failure.missingFile path) ≠ _
    simp

namespace Session

/-- Sending a text never fails as an invalid command. -/
theorem avoids_sendText (text reason : String) :
    Avoids (.failed (.invalidCommand reason))
      (sendText text : SessionM (StateM τ) (Option Payload)) := by
  refine Avoids.bind (fun session host => ?_) fun _ => avoids_pure _
  rw [onChannel_apply]
  exact Channel.avoids_send (.ofText text) reason session.channel host

/-- Neither does sending a file: what cannot be read fails as such. -/
theorem avoids_sendFile (path : Path) (reason : String) :
    Avoids (.failed (.invalidCommand reason))
      (sendFile path : SessionM (StateM τ) (Option Payload)) := by
  refine avoids_lift_bind (· ≠ .error (.invalidCommand reason))
    (TextFile.readNamed_ne path reason) fun result hresult => ?_
  refine (avoids_ofExcept ?_).bind fun text => avoids_sendText text reason
  cases result with
  | error failure =>
    intro heq
    cases heq
    exact hresult rfl
  | ok text => simp [Except.mapError]

end Session

namespace Program

/-- With a text or a file there is something to send. -/
theorem avoids_sendEither {text : Option String} {file : Option Path}
    (h : text ≠ none ∨ file ≠ none) (reason : String) :
    Avoids (.failed (.invalidCommand reason))
      (sendEither text file : SessionM (StateM τ) (Option Payload)) := by
  rcases text with _ | script
  · rcases file with _ | path
    · simp at h
    · exact Session.avoids_sendFile path reason
  · exact Session.avoids_sendText script reason

/-- So a single exchange never fails for want of one. -/
theorem send_ne {text : Option String} {file : Option Path} (h : text ≠ none ∨ file ≠ none)
    (settings : Settings) (index : Index) (reason : String) (host : τ) :
    ((send settings index text file : StateM τ (Except Halt Unit)) host).1 ≠
      .error (.failed (.invalidCommand reason)) := by
  have hexchange : Avoids (.failed (.invalidCommand reason))
      (exchange index text file : SessionM (StateM τ) Unit) :=
    (avoids_modify _).bind fun _ => (avoids_sendEither h reason).bind fun _ =>
      avoids_get.bind fun _ => avoids_lift _
  exact hexchange (.start settings.rootDir settings.pollMs .empty)
    ((Host.watchSignals settings.rootDir : StateM τ Unit) host).2

end Program

namespace Arguments

open Text.Decimal (Denotes bound64)

variable {arguments rest : List String} {request : Request} {before behind : Given} {mode : Mode}

/-- The function that a task is about, if it is about one. -/
def Task.selector? : Task → Option Selector
  | .locate _ selector | .patch _ selector _ _ => some selector
  | _ => none

/-- What is sent is the text that is written, or it is in the file that is written. -/
def NamesScript (arguments : List String) (text : Option String) (file : Option Path) : Prop :=
  (∃ script, Opt.text.IsGivenIn script arguments ∧ text = some script ∧ file = none) ∨
    ∃ path, Opt.file.IsGivenIn path arguments ∧ text = none ∧ file = some ⟨path⟩

/-- The function is the one with the name that is written, or the one around the line that is
written. -/
def NamesFunction (arguments : List String) (query : Query) : Prop :=
  (∃ name, Opt.function.IsGivenIn name arguments ∧ query = .name name) ∨
    ∃ literal n, Opt.line.IsGivenIn literal arguments ∧ Denotes literal.toList n ∧ n < bound64 ∧
      query = .line n

/-- The line 0 is asked for by a literal of zero, which may have a sign and leading zeros. -/
theorem NamesFunction.zero (h : NamesFunction arguments (.line 0)) :
    ∃ literal count, Opt.line.IsGivenIn literal arguments ∧
      (literal.toList = List.replicate (count + 1) '0' ∨
        literal.toList = '+' :: List.replicate (count + 1) '0') := by
  rcases h with ⟨name, -, hquery⟩ | ⟨literal, n, hgiven, hdenotes, -, hquery⟩
  · cases hquery
  · cases hquery
    obtain ⟨count, hliteral⟩ := Text.Decimal.denotes_zero_iff.mp hdenotes
    exact ⟨literal, count, hgiven, hliteral⟩

/-- What has been accepted behind a mode. -/
theorem reads_of_task {task : Task} (h : parse arguments = .ok request)
    (htask : request.task = some task) :
    ∃ before mode rest behind, Level.Reads none arguments before (some (mode, rest)) ∧
      Level.Reads (some mode) rest behind none ∧ behind.fault? mode = none ∧
      behind.task mode = task := by
  rcases parse_eq_ok_iff.mp h with ⟨before, -, rfl⟩ |
    ⟨before, mode, rest, behind, hbefore, hbehind, hfault, rfl⟩
  · cases htask
  · exact ⟨before, mode, rest, behind, hbefore, hbehind, hfault, Option.some.inj htask⟩

/-- A line that has been accepted is a number. -/
theorem exists_line {level : Level} {literal : String} (h : level.Admits behind)
    (hvalue : behind.value? .line = some literal) :
    ∃ n, behind.number? .line = some n ∧ Denotes literal.toList n ∧ n < bound64 := by
  obtain ⟨early, late, rfl, -⟩ := List.lookup_eq_some_iff.mp hvalue
  have hcheck := h.accepted (.line, literal) (by simp)
  rw [Opt.refuses?.eq_def] at hcheck
  cases hread : Text.Decimal.read? bound64 literal.toList with
  | none => simp [hread] at hcheck
  | some n =>
    refine ⟨n, ?_, Text.Decimal.read?_eq_some_iff.mp hread⟩
    rw [Given.number?, hvalue]
    exact hread

/-- Arguments that ask for an exchange choose a text or a file, and not both. -/
theorem namesScript_of_parse {index : Index} {text : Option String} {file : Option Path}
    (h : parse arguments = .ok request) (htask : request.task = some (.send index text file)) :
    Chooses arguments .text .file ∧ NamesScript arguments text file := by
  obtain ⟨before, mode, rest, behind, hbefore, hbehind, hfault, hsend⟩ := reads_of_task h htask
  cases mode with
  | repl | clean | locate | patch => cases hsend
  | send =>
    cases hsend
    obtain ⟨hchooses, hvalue⟩ := chooses_of_reads hbefore hbehind hfault rfl
    refine ⟨hchooses, ?_⟩
    rcases hvalue with ⟨script, hgiven, htext, hfile⟩ | ⟨path, hgiven, htext, hfile⟩
    · exact .inl ⟨script, hgiven, htext, by rw [Given.path?, hfile]; rfl⟩
    · exact .inr ⟨path, hgiven, htext, by rw [Given.path?, hfile]; rfl⟩

/-- Arguments that ask for a function choose its name or a line, and not both. -/
theorem namesFunction_of_parse {task : Task} {selector : Selector}
    (h : parse arguments = .ok request) (htask : request.task = some task)
    (hselector : task.selector? = some selector) :
    Chooses arguments .function .line ∧ NamesFunction arguments selector.query := by
  obtain ⟨before, mode, rest, behind, hbefore, hbehind, hfault, rfl⟩ := reads_of_task h htask
  have hchoice : mode.choice? = some (.function, .line) ∧ selector = behind.selector := by
    cases mode <;> cases hselector <;> exact ⟨rfl, rfl⟩
  obtain ⟨hchoice, rfl⟩ := hchoice
  obtain ⟨hchooses, hvalue⟩ := chooses_of_reads hbefore hbehind hfault hchoice
  refine ⟨hchooses, ?_⟩
  rcases hvalue with ⟨name, hgiven, hname, hline⟩ | ⟨literal, hgiven, hname, hline⟩
  · exact .inl ⟨name, hgiven, by rw [Selector.query, Given.selector, hname]⟩
  · obtain ⟨n, hnumber, hdenotes, hbound⟩ := exists_line hbehind.1 hline
    refine .inr ⟨literal, n, hgiven, hdenotes, hbound, ?_⟩
    rw [Selector.query, Given.selector, hname, hnumber]
    rfl

/-- Accepted arguments determine what they ask for. For a single exchange exactly one argument
writes `--text` or `--file`, what is sent is what is written there, and whatever the host does, the
exchange does not end for want of both. Where a function is looked for, exactly one argument writes
`--function` or `--line`, the function is asked for as it is written there, and it is looked for in
line 0 only if that line is written there. -/
theorem parse_determines (h : parse arguments = .ok request) :
    (∀ index text file, request.task = some (.send index text file) →
      Chooses arguments .text .file ∧ NamesScript arguments text file ∧
        ∀ {τ : Type} [Host (StateM τ)] (settings : Settings) (host : τ),
          ((Program.send settings index text file : StateM τ (Except Halt Unit)) host).1 ≠
            .error (.failed (.invalidCommand "send needs --text or --file"))) ∧
    ∀ task selector, request.task = some task → task.selector? = some selector →
      Chooses arguments .function .line ∧ NamesFunction arguments selector.query ∧
        (selector.query = .line 0 →
          ∃ literal count, Opt.line.IsGivenIn literal arguments ∧
            (literal.toList = List.replicate (count + 1) '0' ∨
              literal.toList = '+' :: List.replicate (count + 1) '0')) := by
  constructor
  · intro index text file htask
    obtain ⟨hchooses, hnames⟩ := namesScript_of_parse h htask
    refine ⟨hchooses, hnames, fun settings host => Program.send_ne ?_ settings index _ host⟩
    rcases hnames with ⟨script, -, rfl, -⟩ | ⟨path, -, -, rfl⟩
    · exact .inl (Option.some_ne_none script)
    · exact .inr (Option.some_ne_none _)
  · intro task selector htask hselector
    obtain ⟨hchooses, hnames⟩ := namesFunction_of_parse h htask hselector
    exact ⟨hchooses, hnames, fun hquery => (hquery ▸ hnames).zero⟩

/-- Arguments that ask for the function around line 0, with a value that is the word of a mode and
one that looks like an option. -/
def lineArguments : List String :=
  ["--root-dir", "send", "locate", "--file=--function", "--poll-ms", "7", "--line", "+00", "--"]

/-- Arguments that ask for an exchange of a text that looks like an option. -/
def textArguments : List String :=
  ["--poll-ms=5", "send", "--text=--file", "--root-dir=t"]

/-- Two argument lists with values that look like options. -/
theorem parse_determines_dashed :
    parse lineArguments =
        .ok ⟨some ⟨"send"⟩, none, 7, some (.locate ⟨"--function"⟩ ⟨none, some 0⟩)⟩ ∧
      Chooses lineArguments .function .line ∧
      (∃ literal count, Opt.line.IsGivenIn literal lineArguments ∧
        (literal.toList = List.replicate (count + 1) '0' ∨
          literal.toList = '+' :: List.replicate (count + 1) '0')) ∧
      parse textArguments = .ok ⟨some ⟨"t"⟩, none, 5, some (.send .zero (some "--file") none)⟩ ∧
      Chooses textArguments .text .file := by
  have hline : parse lineArguments =
      .ok ⟨some ⟨"send"⟩, none, 7, some (.locate ⟨"--function"⟩ ⟨none, some 0⟩)⟩ := by
    decide +kernel
  have htext : parse textArguments =
      .ok ⟨some ⟨"t"⟩, none, 5, some (.send .zero (some "--file") none)⟩ := by
    decide +kernel
  obtain ⟨hchooses, -, hzero⟩ := (parse_determines hline).2 _ _ rfl rfl
  exact ⟨hline, hchooses, hzero rfl, htext, ((parse_determines htext).1 _ _ _ rfl).1⟩

end Arguments

end ScriptMailbox
