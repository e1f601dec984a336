import ScriptMailbox.Proofs.Program.Answers
import ScriptMailbox.Proofs.Text.Json

/-!
# Reading reports

A report is read line by line: what stands in front of the first colon is the key, and what follows
is the value, as JSON if the key says so. Whatever the answer, the failure or the sweep, its report
is read as the fields that were meant and nothing else: no text in it can pass for a line of its own
(`reports_read`).
-/

namespace ScriptMailbox

open Text.Json
open Text.Quoted (quote)

namespace Report

/-! ## The reader -/

/-- Whether a key says that its value is written as JSON. -/
def saysJson (key : List Char) : Bool :=
  "_JSON".toList.isSuffixOf key

/-- What a line says: a key and a value. -/
def field? (line : List Char) : Option (String × String) :=
  let key := line.takeWhile (· != ':')
  match line.dropWhile (· != ':') with
  | ':' :: value =>
    if saysJson key then
      match scalar? value with
      | some (.text text) => some (String.ofList key, text)
      | _ => none
    else some (String.ofList key, String.ofList value)
  | _ => none

/-- What the lines of a report say. A line feed ends each of them. -/
def fields? (report : String) : Option (List (String × String)) :=
  let parts := report.toList.splitOn '\n'
  if parts.getLast? = some [] then parts.dropLast.mapM field? else none

/-! ## Lines -/

/-- The characters of a line, without its line feed. -/
def keyed (key : String) (value : List Char) : List Char :=
  key.toList ++ ':' :: value

/-- A line of a report is its key, its value and a line feed. -/
theorem toList_line (key value : String) :
    (line key value).toList = keyed key value.toList ++ ['\n'] := by
  have hcolon : ":".toList = [':'] := by decide
  have hfeed : "\n".toList = ['\n'] := by decide
  rw [line, String.toList_append, String.toList_append, String.toList_append, hcolon, hfeed, keyed]
  simp only [List.append_assoc, List.cons_append, List.nil_append]

/-- The key is what stands in front of the first colon. -/
theorem takeWhile_keyed {key : String} (hkey : ':' ∉ key.toList) (value : List Char) :
    (keyed key value).takeWhile (· != ':') = key.toList := by
  have hbefore : ∀ c ∈ key.toList, (c != ':') = true := fun c hmem => by
    rw [bne_iff_ne]
    rintro rfl
    exact hkey hmem
  rw [keyed, List.takeWhile_append_of_pos hbefore, List.takeWhile_cons_of_neg (by decide),
    List.append_nil]

/-- A line is cut at its first colon, for keys have none. -/
theorem dropWhile_keyed {key : String} (hkey : ':' ∉ key.toList) (value : List Char) :
    (keyed key value).dropWhile (· != ':') = ':' :: value := by
  have hsplit := List.takeWhile_append_dropWhile (p := (· != ':')) (l := keyed key value)
  rw [takeWhile_keyed hkey] at hsplit
  exact List.append_cancel_left hsplit

/-- Lines that have no line feed inside are what is found between line feeds. -/
theorem splitOn_lines {lines : List (List Char)} (h : ∀ line ∈ lines, '\n' ∉ line) :
    (lines.flatMap (· ++ ['\n'])).splitOn '\n' = lines ++ [[]] := by
  induction lines with
  | nil => exact List.splitOn_nil _
  | cons line lines ih =>
    obtain ⟨hline, hlines⟩ := List.forall_mem_cons.mp h
    rw [List.flatMap_cons, List.append_assoc, List.singleton_append,
      List.splitOn_append_cons_self_of_not_mem hline, ih hlines, List.cons_append]

/-- Whether a text can be a key, of values that are written as JSON or as they are. -/
structure IsKey (json : Bool) (key : String) : Prop where
  colon : ':' ∉ key.toList
  plain : IsPlain key.toList
  saysJson_eq : saysJson key.toList = json

instance (json : Bool) (key : String) : Decidable (IsKey json key) :=
  decidable_of_iff (':' ∉ key.toList ∧ IsPlain key.toList ∧ saysJson key.toList = json)
    ⟨fun h => ⟨h.1, h.2.1, h.2.2⟩, fun h => ⟨h.1, h.2, h.3⟩⟩

variable {json : Bool} {key : String}

/-- A field is read from its line, as text or as JSON according to its key. -/
theorem field?_keyed (hkey : IsKey json key) (value : List Char) :
    field? (keyed key value) =
      if json then
        match scalar? value with
        | some (.text text) => some (key, text)
        | _ => none
      else some (key, String.ofList value) := by
  rw [field?, takeWhile_keyed hkey.colon, dropWhile_keyed hkey.colon, String.ofList_toList,
    ← hkey.saysJson_eq]
  rfl

/-- The value of a plain key is read as it stands. -/
theorem field?_plain (hkey : IsKey false key) (value : String) :
    field? (keyed key value.toList) = some (key, value) := by
  rw [field?_keyed hkey, if_neg Bool.false_ne_true, String.ofList_toList]

/-- The value of a JSON key is read without its quotes. -/
theorem field?_quote (hkey : IsKey true key) (text : String) :
    field? (keyed key (quote text).toList) = some (key, text) := by
  rw [field?_keyed hkey, if_pos rfl, scalar?_quote]

/-! ## Reports -/

/-- Whether a report is read as some fields, and line feeds are its only control characters. -/
structure IsReport (report : String) (fields : List (String × String)) : Prop where
  fields_eq : fields? report = some fields
  plain : ∀ c ∈ report.toList, c = '\n' ∨ 0x20 ≤ c.toNat

/-- Whether a report is made of lines without control characters, which say some fields. -/
def Says (report : String) (fields : List (String × String)) : Prop :=
  ∃ lines : List (List Char), report.toList = lines.flatMap (· ++ ['\n']) ∧
    (∀ line ∈ lines, IsPlain line) ∧ lines.map field? = fields.map some

section

variable {report more : String} {fields others : List (String × String)}

/-- Lines that are all read are read as a whole. -/
theorem mapM_of_map_eq {lines : List (List Char)} (h : lines.map field? = fields.map some) :
    lines.mapM field? = some fields := by
  induction lines generalizing fields with
  | nil =>
    obtain rfl : fields = [] := List.map_eq_nil_iff.mp h.symm
    rfl
  | cons line lines ih =>
    cases fields with
    | nil => cases h
    | cons field fields =>
      obtain ⟨hfirst, hrest⟩ := List.cons.inj h
      rw [List.mapM_cons, hfirst, ih hrest]
      rfl

/-- A report that says some fields is read as them. -/
theorem Says.isReport (h : Says report fields) : IsReport report fields := by
  obtain ⟨lines, hreport, hplain, hfields⟩ := h
  have hsplit := splitOn_lines fun line hmem => (hplain line hmem).not_mem
  constructor
  · rw [fields?, hreport, hsplit, List.getLast?_concat, if_pos rfl, List.dropLast_concat,
      mapM_of_map_eq hfields]
  · intro c hmem
    rw [hreport, List.mem_flatMap] at hmem
    obtain ⟨line, hline, hmem⟩ := hmem
    rcases List.mem_append.mp hmem with hinside | hend
    · exact .inr (hplain line hline c hinside)
    · exact .inl (List.mem_singleton.mp hend)

/-- The empty report says nothing. -/
theorem says_empty : Says "" [] :=
  ⟨[], by decide, List.forall_mem_nil _, rfl⟩

/-- Reports one after the other say the fields of both. -/
theorem Says.append (h : Says report fields) (hmore : Says more others) :
    Says (report ++ more) (fields ++ others) := by
  obtain ⟨lines, hreport, hplain, hfields⟩ := h
  obtain ⟨lines', hreport', hplain', hfields'⟩ := hmore
  refine ⟨lines ++ lines', ?_, List.forall_mem_append.mpr ⟨hplain, hplain'⟩, ?_⟩
  · rw [String.toList_append, hreport, hreport', List.flatMap_append]
  · rw [List.map_append, List.map_append, hfields, hfields']

/-- A line for each item says a field for each. -/
theorem says_join {α : Type} {write : α → String} {field : α → String × String}
    (h : ∀ item, Says (write item) [field item]) (items : List α) :
    Says (String.join (items.map write)) (items.map field) := by
  induction items with
  | nil => exact says_empty
  | cons item items ih =>
    rw [List.map_cons, List.map_cons, String.join_cons]
    exact (h item).append ih

end

/-- A line says its field, provided that the value has no line feed. -/
theorem says_line (hkey : IsKey json key) {value : String} {field : String × String}
    (hvalue : IsPlain value.toList) (hfield : field? (keyed key value.toList) = some field) :
    Says (line key value) [field] := by
  refine ⟨[keyed key value.toList], ?_, ?_, ?_⟩
  · rw [toList_line, List.flatMap_singleton]
  · have hcolon : IsPlain [':'] := by decide
    rw [List.forall_mem_singleton, keyed, ← List.singleton_append]
    exact isPlain_append_iff.mpr ⟨hkey.plain, isPlain_append_iff.mpr ⟨hcolon, hvalue⟩⟩
  · rw [List.map_singleton, hfield, List.map_singleton]

/-- A line with a value that stands for itself. -/
theorem says_plain (hkey : IsKey false key) {value : String} (hvalue : IsPlain value.toList) :
    Says (line key value) [(key, value)] :=
  says_line hkey hvalue (field?_plain hkey value)

/-- A number is said in its digits. -/
theorem says_number (hkey : IsKey false key) (n : ℕ) :
    Says (line key (toString n)) [(key, toString n)] :=
  says_plain hkey (isPlain_toString n)

/-- A line with a text that is quoted, whatever it is. -/
theorem says_quote (hkey : IsKey true key) (text : String) :
    Says (line key (quote text)) [(key, text)] :=
  says_line hkey (isPlain_quote text) (field?_quote hkey text)

/-! ## The reports of the program -/

/-- What the report of an answer is meant to say. -/
def answerFields (index next : Index) (answer : Option Payload) : List (String × String) :=
  [("RESULT", "OK"), ("SEQ", index.text), ("NEXT_SEQ", next.text),
    match answer with
    | some payload => ("VALUE_JSON", payload.lossyText)
    | none => ("VALUE", "NIL")]

/-- What the report of a failure is meant to say. -/
def failureFields (failure : Failure) : List (String × String) :=
  [("RESULT", "ERROR"), ("ERROR_CODE", failure.code), ("ERROR_MSG_JSON", failure.message)]

/-- What the report of a sweep is meant to say. -/
def sweepFields (report : Mailbox.SweepReport) : List (String × String) :=
  ("RESULT", "OK") :: ("REMOVED", toString report.removed.length) ::
    report.failed.map fun (path, fault) => ("FAILED_JSON", path.text ++ ": " ++ fault.message)

/-- The first line of a report says whether it went well. -/
theorem says_ok : Says (line "RESULT" "OK") [("RESULT", "OK")] :=
  says_plain (by decide) (by decide)

/-- The report of an answer says its index, the next one and the value. -/
theorem says_answered (index next : Index) (answer : Option Payload) :
    Says (answered index next answer) (answerFields index next answer) := by
  have hindex : Says (line "SEQ" index.text) [("SEQ", index.text)] :=
    says_number (by decide) index.value
  have hnext : Says (line "NEXT_SEQ" next.text) [("NEXT_SEQ", next.text)] :=
    says_number (by decide) next.value
  have hhead := (says_ok.append hindex).append hnext
  cases answer with
  | none =>
    have hnil : Says (line "VALUE" "NIL") [("VALUE", "NIL")] :=
      says_plain (by decide) (by decide)
    exact hhead.append hnil
  | some payload =>
    have hvalue : Says (line "VALUE_JSON" (quote payload.lossyText))
        [("VALUE_JSON", payload.lossyText)] := says_quote (by decide) _
    exact hhead.append hvalue

/-- A code has no control character. -/
theorem isPlain_code (failure : Failure) : IsPlain failure.code.toList := by
  cases failure <;> simp only [Failure.code] <;> decide

/-- The report of a failure says its code and its message. -/
theorem says_failed (failure : Failure) : Says (failed failure) (failureFields failure) := by
  have hresult : Says (line "RESULT" "ERROR") [("RESULT", "ERROR")] :=
    says_plain (by decide) (by decide)
  have hcode : Says (line "ERROR_CODE" failure.code) [("ERROR_CODE", failure.code)] :=
    says_plain (by decide) (isPlain_code failure)
  have hmessage : Says (line "ERROR_MSG_JSON" (quote failure.message))
      [("ERROR_MSG_JSON", failure.message)] := says_quote (by decide) _
  exact (hresult.append hcode).append hmessage

/-- The report of a sweep says how many files are gone and which ones are not. -/
theorem says_swept (report : Mailbox.SweepReport) : Says (swept report) (sweepFields report) := by
  have hremoved : Says (line "REMOVED" (toString report.removed.length))
      [("REMOVED", toString report.removed.length)] := says_number (by decide) _
  have hfailed (failure : Path × DiskFault) :
      Says (line "FAILED_JSON" (quote (failure.1.text ++ ": " ++ failure.2.message)))
        [("FAILED_JSON", failure.1.text ++ ": " ++ failure.2.message)] :=
    says_quote (by decide) _
  exact (says_ok.append hremoved).append (says_join hfailed report.failed)

end Report

/-! ## What is shown -/

namespace Program

open Mailbox Terminal Report
open Note (did)

/-- The texts that are shown among what is noted. -/
def shown (notes : List Note) : List String :=
  notes.filterMap fun
    | .showed text => some text
    | _ => none

/-- What is shown in two parts of a log is shown one after the other. -/
theorem shown_append (notes more : List Note) : shown (notes ++ more) = shown notes ++ shown more :=
  List.filterMap_append

/-- Operations on the stage show nothing. -/
theorem shown_map_did (operations : List Operation) : shown (operations.map did) = [] := by
  induction operations with
  | nil => rfl
  | cons operation operations ih => exact ih

/-- A single exchange shows nothing but the report of the answer that it has read. -/
theorem gives_send_shown (settings : Settings) (index : Index) (text : Option String)
    (file : Option Path) :
    Gives (send settings index text file) fun done outcome =>
      (∃ halt, outcome = .error halt ∧ shown done = []) ∨
      outcome = .ok () ∧ ∃ raw payload next,
        did (.opened (settings.rootDir.join (responseName index)) (.ok raw)) ∈ done ∧
        Document.read raw = .ok payload ∧
        shown done = [answered index next (if payload.isNil then none else some payload)] := by
  refine (gives_send settings index text file).mono ?_
  rintro _ outcome ⟨told, swept, rfl, htells⟩
  cases htells with
  | halts done halt =>
    exact .inl ⟨halt, rfl, by rw [shown_append, shown_map_did, shown_map_did]; rfl⟩
  | @answers read sent script answer next hread hasked hsent =>
    obtain ⟨document, tries, kind, raw, payload, -, rfl, hread, rfl⟩ := hsent
    refine .inr ⟨rfl, raw, payload, next, ?_, hread, ?_⟩
    · simp [Channel.responsePath]
    · rw [shown_append, shown_append, shown_map_did, shown_map_did]
      rfl

/-- A failure ends the program with its report, and nothing else is shown. -/
theorem gives_conclude_failed (failure : Failure) :
    Gives (conclude (.error (.failed failure))) fun done _ => shown done = [failed failure] := by
  refine (gives_print _).bind ?_
  rintro _ _ rfl
  refine (gives_pure _).mono ?_
  rintro _ _ ⟨rfl, -⟩
  rfl

/-- A sweep on request shows nothing but its report. -/
theorem clean_shown (settings : Settings) (terminal : Terminal) :
    ∃ done, terminal.Does done ((clean settings : TerminalM (Except Halt Unit)) terminal).2 ∧
      shown done = [swept ((sweep settings.rootDir : TerminalM SweepReport) terminal).1] := by
  have hstage : (sweep settings.rootDir : TerminalM SweepReport) =
      onStage (sweep settings.rootDir) := corresponds_onStage.sweep _
  obtain ⟨operations, hdoes⟩ := corresponds_does.sweep settings.rootDir terminal.stage
  have hswept : terminal.Does (operations.map did)
      ((sweep settings.rootDir : TerminalM SweepReport) terminal).2 := by
    rw [hstage]
    exact does_onStage hdoes
  obtain ⟨_, hprints, rfl⟩ := gives_print
    (swept ((sweep settings.rootDir : TerminalM SweepReport) terminal).1)
    ((sweep settings.rootDir : TerminalM SweepReport) terminal).2
  refine ⟨_, hswept.trans hprints, ?_⟩
  rw [shown_append, shown_map_did]
  rfl

/-- The reports of answers, failures and sweeps are read as what they were meant to say, and these
reports are all that is shown: by a single exchange, by a program that fails, and by a sweep on
request. -/
theorem reports_read :
    (∀ index next answer,
      IsReport (answered index next answer) (answerFields index next answer)) ∧
    (∀ failure, IsReport (failed failure) (failureFields failure)) ∧
    (∀ report, IsReport (swept report) (sweepFields report)) ∧
    (∀ settings index text file, Gives (send settings index text file) fun done outcome =>
      (∃ halt, outcome = .error halt ∧ shown done = []) ∨
      outcome = .ok () ∧ ∃ raw payload next,
        did (.opened (settings.rootDir.join (responseName index)) (.ok raw)) ∈ done ∧
        Document.read raw = .ok payload ∧
        shown done = [answered index next (if payload.isNil then none else some payload)]) ∧
    (∀ failure, Gives (conclude (.error (.failed failure))) fun done _ =>
      shown done = [failed failure]) ∧
    (∀ (settings : Settings) (terminal : Terminal), ∃ done,
      terminal.Does done ((clean settings : TerminalM (Except Halt Unit)) terminal).2 ∧
      shown done = [swept ((sweep settings.rootDir : TerminalM SweepReport) terminal).1]) :=
  ⟨fun index next answer => (says_answered index next answer).isReport,
    fun failure => (says_failed failure).isReport, fun report => (says_swept report).isReport,
    gives_send_shown, gives_conclude_failed, clean_shown⟩

end Program

end ScriptMailbox
