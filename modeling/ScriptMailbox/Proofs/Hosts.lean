import ScriptMailbox.Console.Turn

/-!
# One text on two hosts

The program is written over an arbitrary host, so whatever holds between the operations of two hosts
and is kept when computations follow one another holds between all that the program does on them.
The parts of a session are gone through once here; what a session does on one host is then tied to
what it does on another, or to itself, by looking at the operations alone.
-/

namespace ScriptMailbox

/-- Whether a relation between computations on two hosts holds between the operations with which a
session works on files and waits, and is kept when computations follow one another. -/
structure Corresponds {m n : Type → Type} [Monad m] [Host m] [Monad n] [Host n]
    (R : ∀ α : Type, m α → n α → Prop) : Prop where
  pure {α : Type} (a : α) : R α (pure a) (pure a)
  bind {α β : Type} {first : m α} {first' : n α} {next : α → m β} {next' : α → n β}
    (hfirst : R α first first') (hnext : ∀ a, R β (next a) (next' a)) :
    R β (first >>= next) (first' >>= next')
  kind? (path : Path) : R _ (Host.kind? path) (Host.kind? path)
  read (path : Path) : R _ (Host.read path) (Host.read path)
  write (path : Path) (content : Bytes) : R _ (Host.write path content) (Host.write path content)
  makeDirectories (path : Path) : R _ (Host.makeDirectories path) (Host.makeDirectories path)
  fileNames (path : Path) : R _ (Host.fileNames path) (Host.fileNames path)
  removeFile (path : Path) : R _ (Host.removeFile path) (Host.removeFile path)
  isCancelled : R _ Host.isCancelled Host.isCancelled
  await (path : Path) (pollMs : Nat) : R _ (Host.await path pollMs) (Host.await path pollMs)

namespace Corresponds

variable {m n : Type → Type} [Monad m] [Host m] [Monad n] [Host n]
  {R : ∀ α : Type, m α → n α → Prop} {σ α β : Type}

/-- The relation between computations that may halt, from every state. -/
def In (R : ∀ α : Type, m α → n α → Prop) (work : ExceptT Halt (StateT σ m) α)
    (work' : ExceptT Halt (StateT σ n) α) : Prop :=
  ∀ state : σ, R (Except Halt α × σ) (work state) (work' state)

/-! ## Computations that may halt -/

section

variable (h : Corresponds R)

include h

/-- A computation that only gives a result. -/
theorem pureIn (a : α) :
    In R (Pure.pure a : ExceptT Halt (StateT σ m) α) (Pure.pure a) :=
  fun state => h.pure (Except.ok a, state)

/-- One that only halts. -/
theorem throwIn (halt : Halt) :
    In R (throw halt : ExceptT Halt (StateT σ m) α) (throw halt) :=
  fun state => h.pure (Except.error halt, state)

/-- One that takes over a result, whatever it is. -/
theorem resultIn (result : Except Halt α) :
    In R (ofExcept result : ExceptT Halt (StateT σ m) α) (ofExcept result) := by
  cases result with
  | ok a => exact h.pureIn a
  | error halt => exact h.throwIn halt

/-- A relation that is kept when computations follow one another is kept when they may halt in
between. -/
theorem bindIn {first : ExceptT Halt (StateT σ m) α} {first' : ExceptT Halt (StateT σ n) α}
    {next : α → ExceptT Halt (StateT σ m) β} {next' : α → ExceptT Halt (StateT σ n) β}
    (hfirst : In R first first') (hnext : ∀ a, In R (next a) (next' a)) :
    In R (first >>= next) (first' >>= next') := by
  intro state
  refine h.bind (hfirst state) ?_
  rintro ⟨halt | a, state'⟩
  · exact h.pure (Except.error halt, state')
  · exact hnext a state'

/-- An operation of the host as a computation that may halt. -/
theorem liftIn {work : m α} {work' : n α} (hwork : R α work work') :
    In R (liftM work : ExceptT Halt (StateT σ m) α) (liftM work') :=
  fun state => h.bind (h.bind hwork fun a => h.pure (a, state)) fun p => h.pure (Except.ok p.1, p.2)

/-- Reading the state. -/
theorem getIn : In R (get : ExceptT Halt (StateT σ m) σ) (get : ExceptT Halt (StateT σ n) σ) :=
  fun state => h.bind (h.pure (state, state)) fun p => h.pure (Except.ok p.1, p.2)

/-- Setting the state. -/
theorem setIn (state : σ) :
    In R (set state : ExceptT Halt (StateT σ m) PUnit)
      (set state : ExceptT Halt (StateT σ n) PUnit) :=
  fun _ => h.bind (h.pure (PUnit.unit, state)) fun p => h.pure (Except.ok p.1, p.2)

/-- Changing the state. -/
theorem modifyIn (change : σ → σ) :
    In R (modify change : ExceptT Halt (StateT σ m) PUnit)
      (modify change : ExceptT Halt (StateT σ n) PUnit) :=
  fun state => h.bind (h.pure (PUnit.unit, change state)) fun p => h.pure (Except.ok p.1, p.2)

/-- Trying a computation keeps the relation. -/
theorem observingIn {work : ExceptT Halt (StateT σ m) α} {work' : ExceptT Halt (StateT σ n) α}
    (hwork : In R work work') : In R (observing work) (observing work') := by
  intro state
  have hresult : In R (work >>= fun a => Pure.pure (Except.ok a : Except Halt α))
      (work' >>= fun a => Pure.pure (Except.ok a : Except Halt α)) :=
    h.bindIn hwork fun a => h.pureIn (Except.ok a)
  refine h.bind (hresult state) ?_
  rintro ⟨halt | a, state'⟩
  · exact h.pure (Except.ok (Except.error halt), state')
  · exact h.pure (Except.ok a, state')

/-! ## Exchanges -/

/-- A request is posted by the same operations on both hosts: creating the directories, and then
writing. -/
theorem post (payload : Payload) :
    In R (Channel.post (m := m) payload) (Channel.post (m := n) payload) := by
  refine h.bindIn h.getIn fun channel => ?_
  refine h.bindIn (h.resultIn _) fun document => ?_
  refine h.bindIn (h.liftIn h.isCancelled) fun up => ?_
  have hwrites : In R
      (do
        ofExcept (Channel.orFailed channel.root (← Host.makeDirectories (m := m) channel.root))
        ofExcept (Channel.orFailed (channel.requestPath channel.index)
          (← Host.write (m := m) (channel.requestPath channel.index)
            (Text.Utf8.encode document))) : ChannelM m Unit)
      (do
        ofExcept (Channel.orFailed channel.root (← Host.makeDirectories (m := n) channel.root))
        ofExcept (Channel.orFailed (channel.requestPath channel.index)
          (← Host.write (m := n) (channel.requestPath channel.index)
            (Text.Utf8.encode document))) : ChannelM n Unit) := by
    refine h.bindIn (h.liftIn (h.makeDirectories _)) fun made => ?_
    refine h.bindIn (h.resultIn _) fun _ => ?_
    refine h.bindIn (h.liftIn (h.write _ _)) fun wrote => ?_
    exact h.resultIn _
  cases up with
  | true => exact h.bindIn (h.throwIn _) fun _ => hwrites
  | false => exact hwrites

/-- Its response is awaited in the same place. -/
theorem awaitIn : In R (Channel.await (m := m)) (Channel.await (m := n)) := by
  refine h.bindIn h.getIn fun channel => ?_
  refine h.bindIn (h.liftIn (h.await _ _)) fun result => ?_
  exact h.resultIn _

/-- The response is read, and the channel goes on to the next index. -/
theorem collect : In R (Channel.collect (m := m)) (Channel.collect (m := n)) := by
  refine h.bindIn h.getIn fun channel => ?_
  refine h.bindIn (h.liftIn (h.read _)) fun result => ?_
  refine h.bindIn (h.resultIn _) fun raw => ?_
  cases channel.index.next? with
  | none => exact h.throwIn .exhausted
  | some next => exact h.bindIn (h.setIn _) fun _ => h.resultIn _

/-- So a whole exchange corresponds. -/
theorem send (payload : Payload) :
    In R (Channel.send (m := m) payload) (Channel.send (m := n) payload) :=
  h.bindIn (h.post payload) fun _ => h.bindIn h.awaitIn fun _ => h.collect

/-! ## Sweeping -/

/-- Files are deleted one by one, whatever comes of each deletion. -/
theorem removeAll (root : Path) (names : List String) :
    R _ (Mailbox.removeAll (m := m) root names) (Mailbox.removeAll (m := n) root names) := by
  induction names with
  | nil => exact h.pure _
  | cons name names ih =>
    exact h.bind (h.removeFile _) fun _ => h.bind ih fun _ => h.pure _

/-- A sweep lists the mailbox and deletes what it has found. -/
theorem sweep (root : Path) :
    R _ (Mailbox.sweep (m := m) root) (Mailbox.sweep (m := n) root) := by
  refine h.bind (h.fileNames root) fun result => ?_
  rcases result with fault | names
  · cases fault <;> exact h.pure _
  · exact h.removeAll root _

/-! ## Sources -/

/-- A script is looked at before it is read. -/
theorem readNamed (path : Path) :
    R _ (TextFile.readNamed (m := m) path) (TextFile.readNamed (m := n) path) := by
  refine h.bind (h.kind? path) fun found => ?_
  split
  · exact h.bind (h.read path) fun _ => h.pure _
  · exact h.pure _

/-- A source comes from the tree, or else from its file. -/
theorem readSource (tree : SourceTree) (path : Path) :
    R _ (tree.readSource (m := m) path) (tree.readSource (m := n) path) := by
  unfold SourceTree.readSource
  cases tree.get? path with
  | none => exact h.readNamed path
  | some content => exact h.pure _

/-- Looking for a function in the tree needs the host only where a file is named. -/
theorem patchTree (tree : SourceTree) (file : Option Path) (query : Query) (text : String)
    (afterLine : Nat) :
    R _ (tree.patch (m := m) file query text afterLine)
      (tree.patch (m := n) file query text afterLine) := by
  cases file with
  | none => exact h.pure _
  | some path => exact h.bind (h.readSource tree path) fun _ => h.pure _

/-! ## Sessions -/

/-- Work on the channel of a session. -/
theorem onChannel {work : ChannelM m α} {work' : ChannelM n α} (hwork : In R work work') :
    In R (Session.onChannel work) (Session.onChannel work') :=
  fun session => h.bind (hwork session.channel) fun _ => h.pure _

/-- A reset sweeps and starts again at the first index. -/
theorem reset : In R (Session.reset (m := m)) (Session.reset (m := n)) := by
  refine h.bindIn h.getIn fun session => ?_
  refine h.bindIn (h.liftIn ?_) fun swept => h.bindIn (h.setIn _) fun _ => h.pureIn _
  exact h.bind (h.sweep _) fun _ => h.pure _

/-- A text is sent as it is. -/
theorem sendText (text : String) :
    In R (Session.sendText (m := m) text) (Session.sendText (m := n) text) :=
  h.bindIn (h.onChannel (h.send _)) fun _ => h.pureIn _

/-- The text of a file is sent once it has been read. -/
theorem sendFile (path : Path) :
    In R (Session.sendFile (m := m) path) (Session.sendFile (m := n) path) := by
  refine h.bindIn (h.liftIn (h.readNamed path)) fun result => ?_
  exact h.bindIn (h.resultIn _) fun text => h.sendText text

/-- A patched source is written to its file before the tree takes it over. -/
theorem patch (file : Option Path) (query : Query) (text : String) (afterLine : Nat) :
    In R (Session.patch (m := m) file query text afterLine)
      (Session.patch (m := n) file query text afterLine) := by
  refine h.bindIn h.getIn fun session => ?_
  refine h.bindIn (h.liftIn (h.patchTree _ file query text afterLine)) fun result => ?_
  refine h.bindIn (h.resultIn _) fun patched => ?_
  refine h.bindIn (h.liftIn (h.write _ _)) fun wrote => ?_
  exact h.bindIn (h.resultIn _) fun _ => h.bindIn (h.setIn _) fun _ => h.pureIn _

end

/-! ## Commands -/

section

variable (h : Corresponds R)
  (hprint : ∀ text : String, R Unit (Host.print text) (Host.print text))

include h hprint

/-- Showing a text is one operation. -/
theorem say (text : String) : In R (Console.say (m := m) text) (Console.say (m := n) text) :=
  h.liftIn (hprint text)

/-- An answer is shown, unless it is nil. -/
theorem echo (answer : Option Payload) :
    In R (Console.echo (m := m) answer) (Console.echo (m := n) answer) := by
  cases answer with
  | none => exact h.pureIn _
  | some payload => exact h.say hprint _

/-- The command `file` announces a file that is there, and sends it. -/
theorem obeyFile (path : Path) :
    In R (Console.obeyFile (m := m) path) (Console.obeyFile (m := n) path) := by
  refine h.bindIn (h.liftIn (h.kind? path)) fun found => ?_
  split
  · refine h.bindIn h.getIn fun session => ?_
    refine h.bindIn (h.say hprint _) fun _ => ?_
    exact h.bindIn (h.sendFile path) fun answer => h.echo hprint answer
  · exact h.throwIn _

/-- Every command corresponds to itself, one case each. -/
theorem obey (command : Command) :
    In R (Console.obey (m := m) command) (Console.obey (m := n) command) := by
  cases command with
  | empty => exact h.pureIn _
  | help => exact h.bindIn (h.say hprint _) fun _ => h.pureIn _
  | exit => exact h.pureIn _
  | restart => exact h.bindIn h.reset fun _ => h.bindIn (h.say hprint _) fun _ => h.pureIn _
  | jump index => exact h.bindIn (h.modifyIn _) fun _ => h.pureIn _
  | file path => exact h.bindIn (h.obeyFile hprint path) fun _ => h.pureIn _
  | patch file query text =>
    refine h.bindIn (h.patch file query text _) fun patched => ?_
    exact h.bindIn (h.say hprint _) fun _ => h.pureIn _
  | send text =>
    exact h.bindIn (h.sendText text) fun answer => h.bindIn (h.echo hprint answer) fun _ =>
      h.pureIn _

/-- A line is a command, or the failure to read it as one. -/
theorem obeyLine (line : String) :
    In R (Console.obeyLine (m := m) line) (Console.obeyLine (m := n) line) :=
  h.bindIn (h.resultIn _) fun command => h.obey hprint command

/-- A failure is shown and ends the console only if it was cancelled. -/
theorem afterLine (outcome : Except Halt Console.Turn) :
    In R (Console.afterLine (m := m) outcome) (Console.afterLine (m := n) outcome) := by
  rcases outcome with halt | next
  · cases halt with
    | failed failure =>
      refine h.bindIn (h.say hprint _) fun _ => ?_
      cases failure <;> exact h.pureIn _
    | exhausted => exact h.throwIn _
    | terminated => exact h.throwIn _
    | unanswered => exact h.throwIn _
  · exact h.pureIn next

end

end Corresponds

end ScriptMailbox
