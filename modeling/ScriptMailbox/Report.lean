import ScriptMailbox.Failure
import ScriptMailbox.Mailbox.Sweep
import ScriptMailbox.Text.Quoted

/-!
# Reports

What the program prints is made of lines, each with a key in front. Texts that may hold line breaks
are quoted.
-/

namespace ScriptMailbox.Report

/-- A line with a key. -/
def line (key value : String) : String :=
  key ++ ":" ++ value ++ "\n"

/-- The report of a failure. -/
def failed (failure : Failure) : String :=
  line "RESULT" "ERROR" ++ line "ERROR_CODE" failure.code ++
    line "ERROR_MSG_JSON" (Text.Quoted.quote failure.message)

/-- The exit code of a program that reports a failure. -/
def failedCode : Nat := 1

/-- The report of a failure at the console. -/
def failedLine (failure : Failure) : String :=
  "error[" ++ failure.code ++ "]: " ++ failure.message ++ "\n"

/-- The report of an answer. -/
def answered (index next : Index) (answer : Option Payload) : String :=
  line "RESULT" "OK" ++ line "SEQ" index.text ++ line "NEXT_SEQ" next.text ++
    match answer with
    | some payload => line "VALUE_JSON" (Text.Quoted.quote payload.lossyText)
    | none => line "VALUE" "NIL"

/-- The report of a function's place. -/
def placed (path : Path) (span : Span) : String :=
  line "RESULT" "OK" ++ line "FILE" path.text ++ line "START" (toString span.start) ++
    line "END" (toString span.stop)

/-- The report of a located function. -/
def located (path : Path) (span : Span) : String :=
  placed path span ++ line "SPAN_JSON" span.json

/-- The report of a sweep. -/
def swept (report : Mailbox.SweepReport) : String :=
  line "RESULT" "OK" ++ line "REMOVED" (toString report.removed.length) ++
    String.join (report.failed.map fun (path, fault) =>
      line "FAILED_JSON" (Text.Quoted.quote (path.text ++ ": " ++ fault.message)))

end ScriptMailbox.Report
