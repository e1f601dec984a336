import ScriptMailbox.Proofs.Console.Appending

/-!
# What a session retains

Whatever a session does, it stays with its mailbox and with the intervals at which it looks for a
response. So a session that goes back to the first index differs from the one at the start of the
console in its sources alone.
-/

namespace ScriptMailbox

open Mailbox

/-! ## What work retains -/

section

variable {σ τ α β : Type} {P : σ → Prop} {first : ExceptT Halt (StateT σ (StateM τ)) α}
  {next : α → ExceptT Halt (StateT σ (StateM τ)) β} {state : σ}

/-- Whether work that finds a state with some property leaves one. -/
def Retains (P : σ → Prop) (work : ExceptT Halt (StateT σ (StateM τ)) α) : Prop :=
  ∀ state host, P state → P (work state host).1.2

/-- A result leaves the state as it is. -/
theorem retains_pure (a : α) : Retains P (pure a : ExceptT Halt (StateT σ (StateM τ)) α) :=
  fun _ _ h => h

/-- So does a halt. -/
theorem retains_throw (halt : Halt) :
    Retains P (throw halt : ExceptT Halt (StateT σ (StateM τ)) α) :=
  fun _ _ h => h

/-- So does a result that is taken over. -/
theorem retains_ofExcept (result : Except Halt α) :
    Retains P (ofExcept result : ExceptT Halt (StateT σ (StateM τ)) α) := by
  intro state host h
  rwa [ofExcept_apply]

/-- So does an operation of the host. -/
theorem retains_lift (work : StateM τ α) :
    Retains P (liftM work : ExceptT Halt (StateT σ (StateM τ)) α) :=
  fun _ _ h => h

/-- A state may be set that has the property. -/
theorem retains_set (h : P state) :
    Retains P (set state : ExceptT Halt (StateT σ (StateM τ)) PUnit) :=
  fun _ _ _ => h

/-- A change may be made that keeps it. -/
theorem retains_modify {change : σ → σ} (h : ∀ state, P state → P (change state)) :
    Retains P (modify change : ExceptT Halt (StateT σ (StateM τ)) PUnit) :=
  fun state _ => h state

/-- Work that leaves the property does so in turn. -/
theorem Retains.bind (hfirst : Retains P first) (hnext : ∀ a, Retains P (next a)) :
    Retains P (first >>= next) := by
  intro state host h
  have hbetween := hfirst state host h
  rcases hrun : first state host with ⟨⟨halt | a, state'⟩, host'⟩
  · rw [hrun] at hbetween
    rwa [bind_error hrun]
  · rw [hrun] at hbetween
    rw [bind_ok hrun]
    exact hnext a state' host' hbetween

/-- What is read off the state has the property, too. -/
theorem retains_get_bind {next : σ → ExceptT Halt (StateT σ (StateM τ)) β}
    (h : ∀ state, P state → Retains P (next state)) : Retains P (get >>= next) := by
  intro state host hstate
  rw [bind_ok get_apply]
  exact h state hstate state host hstate

/-- It does so when its halt is caught. -/
theorem Retains.observing (h : Retains P first) : Retains P (observing first) := by
  intro state host hstate
  have hrun : first state host =
      (((first state host).1.1, (first state host).1.2), (first state host).2) := rfl
  rw [observing_apply hrun]
  exact h state host hstate

end

variable {τ : Type} [Host (StateM τ)] {root : Path} {pollMs : ℕ}

namespace Channel

variable {channel : Channel}

/-- Whether a channel uses a mailbox and looks there in some intervals. -/
def IsAt (root : Path) (pollMs : ℕ) (channel : Channel) : Prop :=
  channel.root = root ∧ channel.pollMs = pollMs

/-- A jump stays in the mailbox. -/
theorem IsAt.jump (h : channel.IsAt root pollMs) (index : Index) :
    (channel.jump index).IsAt root pollMs :=
  h

/-- At the first index such a channel is as it was at the start. -/
theorem IsAt.eq_start (h : channel.IsAt root pollMs) : channel.jump .zero = .start root pollMs := by
  obtain ⟨rfl, rfl⟩ := h
  rfl

/-- Posting changes no channel. -/
theorem retains_post (payload : Payload) :
    Retains (IsAt root pollMs) (post payload : ChannelM (StateM τ) Unit) := by
  refine retains_get_bind fun channel _ => (retains_ofExcept _).bind fun document => ?_
  refine (retains_lift _).bind fun up => ?_
  have hwrites : Retains (IsAt root pollMs)
      (do
        ofExcept (orFailed channel.root (← Host.makeDirectories (m := StateM τ) channel.root))
        ofExcept (orFailed (channel.requestPath channel.index)
          (← Host.write (m := StateM τ) (channel.requestPath channel.index)
            (Text.Utf8.encode document))) : ChannelM (StateM τ) Unit) := by
    refine (retains_lift _).bind fun made => (retains_ofExcept _).bind fun _ => ?_
    exact (retains_lift _).bind fun wrote => retains_ofExcept _
  cases up with
  | true => exact (retains_throw _).bind fun _ => hwrites
  | false => exact hwrites

/-- A response that has been read changes the index alone. -/
theorem retains_collect :
    Retains (IsAt root pollMs) (collect : ChannelM (StateM τ) Payload) := by
  refine retains_get_bind fun channel hchannel => (retains_lift _).bind fun result => ?_
  refine (retains_ofExcept _).bind fun raw => ?_
  cases channel.index.next? with
  | none => exact retains_throw .exhausted
  | some next => exact (retains_set (hchannel.jump next)).bind fun _ => retains_ofExcept _

/-- So an exchange stays in the mailbox. -/
theorem retains_send (payload : Payload) :
    Retains (IsAt root pollMs) (send payload : ChannelM (StateM τ) Payload) := by
  refine (retains_post payload).bind fun _ => Retains.bind ?_ fun _ => retains_collect
  exact retains_get_bind fun channel _ => (retains_lift _).bind fun _ => retains_ofExcept _

end Channel

namespace Session

/-- Whether a session uses a mailbox and looks there in some intervals. -/
def IsAt (root : Path) (pollMs : ℕ) (session : Session) : Prop :=
  session.channel.IsAt root pollMs

/-- A reset sweeps the mailbox and goes back to the first index. The sources stay. -/
theorem reset_apply (session : Session) (host : τ) :
    (reset : SessionM (StateM τ) SweepReport) session host =
      ((.ok ((sweep session.channel.root : StateM τ SweepReport) host).1, session.jump .zero),
        ((sweep session.channel.root : StateM τ SweepReport) host).2) :=
  rfl

/-- So does a reset. -/
theorem retains_reset : Retains (IsAt root pollMs) (reset : SessionM (StateM τ) SweepReport) :=
  fun session host h => by
    rw [reset_apply]
    exact h

/-- So does sending a text. -/
theorem retains_sendText (text : String) :
    Retains (IsAt root pollMs) (sendText text : SessionM (StateM τ) (Option Payload)) :=
  Retains.bind (fun session host h => Channel.retains_send (.ofText text) session.channel host h)
    fun _ => retains_pure _

/-- So does sending a file. -/
theorem retains_sendFile (path : Path) :
    Retains (IsAt root pollMs) (sendFile path : SessionM (StateM τ) (Option Payload)) :=
  (retains_lift _).bind fun _ => (retains_ofExcept _).bind fun text => retains_sendText text

/-- A patch changes the sources alone. -/
theorem retains_patch (file : Option Path) (query : Query) (text : String) (afterLine : ℕ) :
    Retains (IsAt root pollMs)
      (patch file query text afterLine : SessionM (StateM τ) Patched) := by
  refine retains_get_bind fun session hsession => (retains_lift _).bind fun result => ?_
  refine (retains_ofExcept _).bind fun patched => (retains_lift _).bind fun wrote => ?_
  refine (retains_ofExcept _).bind fun _ => Retains.bind ?_ fun _ => retains_pure _
  exact retains_set hsession

end Session

namespace Console

open Session

/-- Showing a text changes no session. -/
theorem retains_say (text : String) :
    Retains (IsAt root pollMs) (say text : SessionM (StateM τ) Unit) :=
  retains_lift _

/-- Neither does showing an answer. -/
theorem retains_echo (answer : Option Payload) :
    Retains (IsAt root pollMs) (echo answer : SessionM (StateM τ) Unit) := by
  cases answer with
  | none => exact retains_pure ()
  | some payload => exact retains_say _

/-- The command `file` stays in the mailbox. -/
theorem retains_obeyFile (path : Path) :
    Retains (IsAt root pollMs) (obeyFile path : SessionM (StateM τ) Unit) := by
  refine (retains_lift _).bind fun found => ?_
  split
  · refine retains_get_bind fun session _ => (retains_say _).bind fun _ => ?_
    exact (retains_sendFile path).bind fun answer => retains_echo answer
  · exact retains_throw _

/-- So does every command. -/
theorem retains_obey (command : Command) :
    Retains (IsAt root pollMs) (obey command : SessionM (StateM τ) Turn) := by
  cases command with
  | empty => exact retains_pure _
  | help => exact (retains_say _).bind fun _ => retains_pure _
  | exit => exact retains_pure _
  | restart => exact retains_reset.bind fun _ => (retains_say _).bind fun _ => retains_pure _
  | jump index =>
    have hjump : Retains (IsAt root pollMs)
        (modify (·.jump index) : SessionM (StateM τ) PUnit) := retains_modify fun _ h => h
    exact hjump.bind fun _ => retains_pure _
  | file path => exact (retains_obeyFile path).bind fun _ => retains_pure _
  | patch file query text =>
    exact (retains_patch file query text _).bind fun patched =>
      (retains_say _).bind fun _ => retains_pure _
  | send text =>
    exact (retains_sendText text).bind fun answer =>
      (retains_echo answer).bind fun _ => retains_pure _

/-- What follows a line changes no session. -/
theorem retains_afterLine (outcome : Except Halt Turn) :
    Retains (IsAt root pollMs) (afterLine outcome : SessionM (StateM τ) Turn) := by
  rcases outcome with halt | next
  · cases halt with
    | failed failure =>
      refine (retains_say _).bind fun _ => ?_
      cases failure <;> exact retains_pure _
    | exhausted | terminated | unanswered => exact retains_throw _
  · exact retains_pure next

/-- Whatever is typed, the mailbox stays the same. -/
theorem retains_turn : Retains (IsAt root pollMs) (turn : SessionM (StateM τ) Turn) := by
  refine (retains_lift _).bind fun up => ?_
  split
  · exact retains_pure _
  · refine retains_get_bind fun session _ => (retains_lift _).bind fun asked => ?_
    refine (retains_ofExcept _).bind fun line => ?_
    cases line with
    | none => exact (retains_say _).bind fun _ => retains_pure _
    | some line =>
      have hline : Retains (IsAt root pollMs) (obeyLine line : SessionM (StateM τ) Turn) :=
        (retains_ofExcept _).bind fun command => retains_obey command
      exact hline.observing.bind fun outcome => retains_afterLine outcome

/-- However far a console goes on, it stays in its mailbox. -/
theorem GoesOn.isAt {session session' : Session} {world world' : World}
    (h : GoesOn session world session' world') (hsession : session.IsAt root pollMs) :
    session'.IsAt root pollMs := by
  induction h with
  | refl => exact hsession
  | @step session between later world reached after first rest ih =>
    have hturn : (world.runSession session turn).1.2.IsAt root pollMs :=
      retains_turn session world hsession
    rw [first] at hturn
    exact ih hturn

end Console

end ScriptMailbox
