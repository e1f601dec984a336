import ScriptMailbox.Proofs.Arguments.Spellings
import ScriptMailbox.Proofs.Disk.Paths
import ScriptMailbox.Settings

/-!
# Accepted values

Every value that is accepted has passed the check of its option. So the mailbox that a request asks
for has a path that is not empty, and so has the mailbox below a documents directory.
-/

namespace ScriptMailbox

namespace Arguments

variable {given : Given} {arguments : List String} {request : Request}

/-- What is asked for has been accepted before the mode and behind it. -/
theorem areAccepted_parse (h : parse arguments = .ok request) :
    ∃ before behind task, request = .ofGiven before behind task ∧ AreAccepted before ∧
      AreAccepted behind := by
  rcases parse_eq_ok_iff.mp h with ⟨before, hreads, rfl⟩ |
    ⟨before, mode, rest, behind, hbefore, hbehind, -, rfl⟩
  · exact ⟨before, [], none, rfl, hreads.1.accepted, List.forall_mem_nil _⟩
  · exact ⟨before, behind, _, rfl, hbefore.1.accepted, hbehind.1.accepted⟩

/-- An empty mailbox is not accepted. -/
theorem AreAccepted.rootDir_ne_empty {rootDir : Path} (h : AreAccepted given)
    (hroot : given.path? .rootDir = some rootDir) : rootDir.text ≠ "" := by
  obtain ⟨value, hvalue, rfl⟩ := Option.map_eq_some_iff.mp hroot
  obtain ⟨before, behind, rfl, -⟩ := List.lookup_eq_some_iff.mp hvalue
  have hcheck := h (.rootDir, value) (by simp)
  intro hempty
  rw [Opt.refuses?, if_pos hempty] at hcheck
  cases hcheck

/-- The path of the mailbox that a request asks for is not empty. -/
theorem rootDir_ne_empty {rootDir : Path} (h : parse arguments = .ok request)
    (hroot : request.rootDir = some rootDir) : rootDir.text ≠ "" := by
  obtain ⟨before, behind, task, rfl, hbefore, hbehind⟩ := areAccepted_parse h
  rcases Option.or_eq_some_iff.mp hroot with hroot | ⟨-, hroot⟩
  · exact hbehind.rootDir_ne_empty hroot
  · exact hbefore.rootDir_ne_empty hroot

/-- The request for the console in a mailbox that is written as a word. -/
theorem parse_console {root : String} (hroot : Shape.ofArgument root = .word) (hne : root ≠ "") :
    parse ["--root-dir", root] = .ok ⟨some ⟨root⟩, none, defaultPollMs, none⟩ := by
  have hname : scan none .start ["--root-dir", root] =
      scan none ⟨[], some (.rootDir, none)⟩ [root] := by rfl
  have hvalue : scan none ⟨[], some (.rootDir, none)⟩ [root] =
      .ok (⟨[], some (.rootDir, some root)⟩, none) := by
    simp [scan, Progress.awaitsValue, hroot]
  rw [parse, hname, hvalue]
  simp only [bind, Except.bind, Progress.settle, Given.add, Opt.refuses?, hne]
  rfl

/-- The request for a single exchange of a text in a mailbox, each of them written as a word. -/
theorem parse_send {root text : String} (hroot : Shape.ofArgument root = .word) (hne : root ≠ "")
    (htext : Shape.ofArgument text = .word) :
    parse ["--root-dir", root, "send", "--text", text] =
      .ok ⟨some ⟨root⟩, none, defaultPollMs, some (.send .zero (some text) none)⟩ := by
  have hname : scan none .start ["--root-dir", root, "send", "--text", text] =
      scan none ⟨[], some (.rootDir, none)⟩ [root, "send", "--text", text] := by rfl
  have hvalue : scan none ⟨[], some (.rootDir, none)⟩ [root, "send", "--text", text] =
      scan none ⟨[], some (.rootDir, some root)⟩ ["send", "--text", text] := by
    simp [scan, Progress.awaitsValue, hroot]
  have hmode : scan none ⟨[], some (.rootDir, some root)⟩ ["send", "--text", text] =
      .ok (⟨[], some (.rootDir, some root)⟩, some (.send, ["--text", text])) := by rfl
  have hsend : readMode .send ["--text", text] = .ok [(.text, text)] := by
    have hname : scan (some .send) .start ["--text", text] =
        scan (some .send) ⟨[], some (.text, none)⟩ [text] := by rfl
    have hvalue : scan (some .send) ⟨[], some (.text, none)⟩ [text] =
        .ok (⟨[], some (.text, some text)⟩, none) := by
      simp [scan, htext]
    rw [readMode, hname, hvalue]
    rfl
  rw [parse, hname, hvalue, hmode]
  simp only [bind, Except.bind, Progress.settle, Given.add, Opt.refuses?, hne, hsend]
  rfl

end Arguments

namespace Settings

/-- The mailbox below the documents has a path that is not empty. -/
theorem mailboxBelow_ne_empty (documents : Path) : (mailboxBelow documents).text ≠ "" := by
  have hname : IsEntryName "Interpreter" := ⟨⟨by decide, by decide, by decide⟩, by decide⟩
  rw [mailboxBelow, ← String.toList_inj.ne, String.toList_empty]
  rcases Path.toList_join ((documents.join "Warcraft III").join "CustomMapData") hname with
    ⟨-, htext⟩ | ⟨lead, -, -, htext⟩
  · rw [htext]
    decide
  · rw [htext]
    simp

/-- The path of a mailbox is not empty. -/
theorem rootDir_ne_empty {documents : Documents} {arguments : List String}
    {request : Arguments.Request} {settings : Settings}
    (hparse : Arguments.parse arguments = .ok request)
    (hresolve : resolve documents request = .ok settings) : settings.rootDir.text ≠ "" := by
  rw [resolve] at hresolve
  cases hmailbox : mailbox documents request with
  | error fault =>
    rw [hmailbox] at hresolve
    cases hresolve
  | ok rootDir =>
    rw [hmailbox] at hresolve
    cases hresolve
    rw [mailbox.eq_def] at hmailbox
    split at hmailbox
    · rename_i hroot
      cases hmailbox
      exact Arguments.rootDir_ne_empty hparse hroot
    · cases hmailbox
      exact mailboxBelow_ne_empty _
    · cases hmailbox
    · cases hmailbox

end Settings

end ScriptMailbox
