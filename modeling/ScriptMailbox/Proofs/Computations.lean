import ScriptMailbox.Session

/-!
# Computations that may halt

On a host that is a state, a computation on a channel or a session is a function: it gives a result
or a halt, with the state that it leaves in either case. A computation goes on with the result and
the state of its first part, and ends where that halts.
-/

namespace ScriptMailbox

section

variable {σ τ α β : Type} {first : ExceptT Halt (StateT σ (StateM τ)) α}
  {next : α → ExceptT Halt (StateT σ (StateM τ)) β} {a : α} {halt : Halt} {state state' : σ}
  {host host' : τ}

/-- On the host itself nothing halts. -/
theorem host_bind {work : StateM τ α} {more : α → StateM τ β} (h : work host = (a, host')) :
    (work >>= more) host = more a host' := by
  simp [bind, StateT.bind, h]

/-- A computation that has a result goes on with it. -/
theorem bind_ok (h : first state host = ((.ok a, state'), host')) :
    (first >>= next) state host = next a state' host' := by
  show ExceptT.bind first next state host = _
  simp [ExceptT.bind, ExceptT.mk, ExceptT.bindCont, bind, StateT.bind, h]

/-- A computation that halts leaves out what follows. -/
theorem bind_error (h : first state host = ((.error halt, state'), host')) :
    (first >>= next) state host = ((.error halt, state'), host') := by
  show ExceptT.bind first next state host = _
  simp only [ExceptT.bind, ExceptT.mk, ExceptT.bindCont, bind, StateT.bind, h]
  rfl

/-- What the host does is the next thing that happens. -/
theorem lift_bind {work : StateM τ α} (h : work host = (a, host')) :
    ((liftM work : ExceptT Halt (StateT σ (StateM τ)) α) >>= next) state host =
      next a state host' := by
  apply bind_ok
  show ((Except.ok (work host).1, state), (work host).2) = _
  rw [h]

/-- Trying a computation gives its result or its halt. -/
theorem observing_apply {result : Except Halt α}
    (h : first state host = ((result, state'), host')) :
    observing first state host = ((.ok result, state'), host') := by
  rcases result with halt | a <;>
  · simp only [observing, tryCatch, tryCatchThe, MonadExceptOf.tryCatch, ExceptT.tryCatch,
      ExceptT.mk, ExceptT.bind, ExceptT.bindCont, StateT.bind, bind, h]
    rfl

/-- Reading the state changes nothing. -/
theorem get_apply :
    (get : ExceptT Halt (StateT σ (StateM τ)) σ) state host = ((.ok state, state), host) :=
  rfl

/-- Taking over a result changes nothing. -/
theorem ofExcept_apply (result : Except Halt α) :
    (ofExcept result : ExceptT Halt (StateT σ (StateM τ)) α) state host =
      ((result, state), host) := by
  cases result <;> rfl

end

namespace Channel

/-- A success stays what it is. -/
theorem orFailed_ok {α : Type} (path : Path) (a : α) : orFailed path (.ok a) = .ok a := rfl

/-- A fault of the disk becomes a failure that names the path. -/
theorem orFailed_error {α : Type} (path : Path) (fault : DiskFault) :
    (orFailed path (.error fault) : Except Halt α) =
      .error (.failed (.io path fault.message)) := rfl

end Channel

/-- A session gives its channel away and takes it back. -/
theorem Session.onChannel_apply {τ α : Type} [Host (StateM τ)] (work : ChannelM (StateM τ) α)
    (session : Session) (host : τ) :
    onChannel work session host =
      (((work session.channel host).1.1,
        { session with channel := (work session.channel host).1.2 }),
        (work session.channel host).2) :=
  rfl

end ScriptMailbox
