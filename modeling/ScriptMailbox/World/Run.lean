import ScriptMailbox.Program
import ScriptMailbox.World

/-!
# Running on a world

On a world the console ends when what will be typed is used up, so a run needs no more turns than
there are lines, and one for the end of the input.
-/

namespace ScriptMailbox.World

/-- Serves the console until what will be typed is used up. -/
def serve : SessionM Model Unit := do
  let world ← (get : Model World)
  Console.serve (world.input.length + 1)

/-- Work on a session in a world. -/
def runSession {α : Type} (world : World) (session : Session) (work : SessionM Model α) :
    (Except Halt α × Session) × World :=
  (work session : Model (Except Halt α × Session)) world

/-- The program on a world. -/
def runProgram (world : World) (documents : Documents) (arguments : List String) :
    Ending × World :=
  (Program.run serve documents arguments : Model Ending) world

end ScriptMailbox.World
