import ScriptMailbox.Mailbox.Sweep

/-!
# Janitors

A janitor sweeps a mailbox as often as asked, and once more when the program ends. Janitors that
stem from one another are a family; the first of a family that ends does the last sweep, and the
others find it done.
-/

namespace ScriptMailbox.Mailbox

/-- The janitors of a mailbox. -/
structure Crew where
  /-- The family of each janitor. -/
  families : List Nat
  /-- The families that have done their last sweep. -/
  finished : List Nat
  deriving DecidableEq, Repr

namespace Crew

/-- A crew of one janitor. -/
def single : Crew := ⟨[0], []⟩

/-- The family of a janitor; an unknown number stands for the first janitor. -/
def familyOf (crew : Crew) (janitor : Nat) : Nat :=
  (crew.families[janitor]?).getD 0

/-- A crew with one more janitor of the same family. -/
def clone (crew : Crew) (janitor : Nat) : Crew :=
  { crew with families := crew.families ++ [crew.familyOf janitor] }

/-- A crew with a janitor of a family of its own. -/
def hire (crew : Crew) : Crew :=
  { crew with families := crew.families ++ [crew.families.length] }

/-- The last sweep of a janitor. Says whether it was this janitor who swept. -/
def finish {m : Type → Type} [Monad m] [Host m] (crew : Crew) (root : Path) (janitor : Nat) :
    m (Bool × Crew) :=
  if crew.familyOf janitor ∈ crew.finished then pure (false, crew)
  else do
    let _ ← sweep root
    pure (true, { crew with finished := crew.familyOf janitor :: crew.finished })

end Crew

end ScriptMailbox.Mailbox
