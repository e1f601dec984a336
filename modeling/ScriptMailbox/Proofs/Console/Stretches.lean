import ScriptMailbox.Proofs.Console.Terminals

/-!
# Between two looks at the flag

A console looks at the cancel flag before it asks for a line, before it posts a request, and while
it waits. What it can do without looking is therefore bounded: after a look that has found the flag
down, it asks for at most one line and does little with it, and as soon as it looks again and finds
the flag up it stops.
-/

namespace ScriptMailbox

open Console (promptText)

/-- Whether a text is shown as whole lines. -/
def isLines (text : String) : Bool :=
  text.toList.getLast? == some '\n'

/-- A text that ends with a line feed is shown as whole lines. -/
theorem isLines_append (text : String) : isLines (text ++ "\n") = true := by
  have hfeed : "\n".toList = ['\n'] := rfl
  simp [isLines, hfeed]

/-- So are several such texts. -/
theorem isLines_join {texts : List String} (h : texts ≠ []) :
    isLines (String.join (texts.map (· ++ "\n"))) = true := by
  obtain ⟨front, last, rfl⟩ := (List.eq_nil_or_concat texts).resolve_left h
  rw [List.concat_eq_append, List.map_append]
  unfold String.join
  rw [List.foldl_append, List.map_singleton, List.foldl_cons, List.foldl_nil, ← String.append_assoc]
  exact isLines_append _

/-- Whoever is asked for a line types behind the question. -/
theorem isLines_promptText (index : Index) : isLines (promptText index) = false := by
  have hend : " >>> ".toList = [' ', '>', '>', '>'] ++ [' '] := rfl
  simp [isLines, promptText, hend]

namespace Note

/-- Whether something is neither a look at the flag nor asking for a line. -/
@[simp]
def isQuiet : Note → Bool
  | did (.checked _) | .read _ => false
  | .showed text => isLines text
  | _ => true

/-- Whether a line is read. -/
@[simp]
def isRead : Note → Bool
  | .read _ => true
  | _ => false

/-- Whether a file is written. -/
@[simp]
def isWrite : Note → Bool
  | did (.wrote ..) => true
  | _ => false

/-- Whether a file is opened. -/
@[simp]
def isOpening : Note → Bool
  | did (.opened ..) => true
  | _ => false

/-- Whether a line is shown that reports a cancelled exchange. -/
@[simp]
def isCancelReport : Note → Bool
  | .showed text =>
    isLines text && "error[CHANNEL_CANCELLED]".toList.isPrefixOf text.toList
  | _ => false

/-- Whether something matters for no bound. -/
def isIdle (note : Note) : Bool :=
  note.isQuiet && !note.isWrite && !note.isOpening && !note.isCancelReport

/-- The report of a cancelled exchange is told from all other reports. -/
theorem isCancelReport_failedLine (failure : Failure) :
    (Note.showed (Report.failedLine failure)).isCancelReport =
      (failure.code == "CHANNEL_CANCELLED") := by
  have hlines : isLines (Report.failedLine failure) = true := isLines_append _
  have hreport : (Report.failedLine failure).toList = "error[".toList ++ (failure.code.toList ++
      ("]: ".toList ++ (failure.message.toList ++ "\n".toList))) := by
    simp [Report.failedLine]
  rw [isCancelReport, hlines, Bool.true_and, hreport]
  generalize failure.message.toList ++ "\n".toList = rest
  cases failure <;> simp [Failure.code, List.isPrefixOf]

end Note

open Note (did)

variable {done more rest shape late before : List Note} {reports : ℕ} {text : String}

/-! ## Modest work -/

/-- Whether little is done: one write, one file opened, and so many reports, all without a look at
the flag and without asking for a line. -/
structure IsModest (reports : ℕ) (done : List Note) : Prop where
  quiet : ∀ note ∈ done, note.isQuiet = true
  writes : done.countP Note.isWrite ≤ 1
  openings : done.countP Note.isOpening ≤ 1
  reports : done.countP Note.isCancelReport ≤ reports

/-- Little work is little if more reports are allowed. -/
theorem IsModest.mono {reports' : ℕ} (h : IsModest reports done) (hle : reports ≤ reports') :
    IsModest reports' done :=
  ⟨h.quiet, h.writes, h.openings, Nat.le_trans h.reports hle⟩

/-- What is idle does not count. -/
theorem countP_idle (h : ∀ note ∈ done, note.isIdle = true) :
    (∀ note ∈ done, note.isQuiet = true) ∧ done.countP Note.isWrite = 0 ∧
      done.countP Note.isOpening = 0 ∧ done.countP Note.isCancelReport = 0 := by
  simp only [Note.isIdle, Bool.and_eq_true, Bool.not_eq_true'] at h
  simp only [List.countP_eq_zero, Bool.not_eq_true]
  exact ⟨fun note hmem => (h note hmem).1.1.1, fun note hmem => (h note hmem).1.1.2,
    fun note hmem => (h note hmem).1.2, fun note hmem => (h note hmem).2⟩

/-- It stays little when something idle follows. -/
theorem IsModest.append_idle (h : IsModest reports done)
    (hidle : ∀ note ∈ more, note.isIdle = true) : IsModest reports (done ++ more) := by
  obtain ⟨hquiet, hwrites, hopenings, hreports⟩ := countP_idle hidle
  have hwrites' := h.writes
  have hopenings' := h.openings
  have hreports' := h.reports
  constructor
  · exact List.forall_mem_append.mpr ⟨h.quiet, hquiet⟩
  all_goals
    rw [List.countP_append]
    omega

/-- The order does not matter. -/
theorem IsModest.perm (h : IsModest reports done) (hperm : done.Perm more) :
    IsModest reports more := by
  refine ⟨fun note hmem => h.quiet note (hperm.mem_iff.mpr hmem), ?_, ?_, ?_⟩
  · exact hperm.countP_eq _ ▸ h.writes
  · exact hperm.countP_eq _ ▸ h.openings
  · exact hperm.countP_eq _ ▸ h.reports

/-- It stays little behind something idle. -/
theorem IsModest.idle_append (h : IsModest reports done)
    (hidle : ∀ note ∈ more, note.isIdle = true) : IsModest reports (more ++ done) :=
  (h.append_idle hidle).perm List.perm_append_comm

/-- Nothing is little. -/
theorem isModest_nil : IsModest reports [] :=
  ⟨List.forall_mem_nil _, Nat.zero_le 1, Nat.zero_le 1, Nat.zero_le reports⟩

/-- What is idle is little, for it counts for no bound. -/
theorem isModest_of_idle (h : ∀ note ∈ done, note.isIdle = true) : IsModest reports done := by
  have hdone : IsModest reports ([] ++ done) := isModest_nil.append_idle h
  rwa [List.nil_append] at hdone

/-- One file may be opened. -/
theorem IsModest.concat_opening (h : IsModest reports done) (hnone : done.countP Note.isOpening = 0)
    (path : Path) (result : Except DiskFault Bytes) :
    IsModest reports (done ++ [did (.opened path result)]) := by
  refine ⟨?_, ?_, ?_, ?_⟩
  · exact List.forall_mem_append.mpr ⟨h.quiet, List.forall_mem_singleton.mpr rfl⟩
  · simpa [List.countP_append] using h.writes
  · simp [List.countP_append, hnone]
  · simpa [List.countP_append] using h.reports

/-- One file may be written. -/
theorem IsModest.concat_write (h : IsModest reports done) (hnone : done.countP Note.isWrite = 0)
    (path : Path) (content : Bytes) (result : Except DiskFault Unit) :
    IsModest reports (done ++ [did (.wrote path content result)]) := by
  refine ⟨?_, ?_, ?_, ?_⟩
  · exact List.forall_mem_append.mpr ⟨h.quiet, List.forall_mem_singleton.mpr rfl⟩
  · simp [List.countP_append, hnone]
  · simpa [List.countP_append] using h.openings
  · simpa [List.countP_append] using h.reports

/-- One text may be shown in the end. -/
theorem IsModest.concat_lines (h : IsModest 0 done) (hlines : isLines text = true) :
    IsModest 1 (done ++ [.showed text]) := by
  refine ⟨?_, ?_, ?_, ?_⟩
  · exact List.forall_mem_append.mpr ⟨h.quiet, List.forall_mem_singleton.mpr hlines⟩
  · simpa [List.countP_append] using h.writes
  · simpa [List.countP_append] using h.openings
  · have hnone := h.reports
    have hone : [Note.showed text].countP Note.isCancelReport ≤ 1 := List.countP_le_length
    rw [List.countP_append]
    omega

/-! ## Files that have been seen -/

/-- Whether every file that is opened has just been seen. -/
def IsSeen (done : List Note) : Prop :=
  ∀ before path result behind, done = before ++ did (.opened path result) :: behind →
    ∃ earlier kind, before = earlier ++ [did (.looked path (some kind))]

/-- Where no file is opened, there is nothing to be seen before. -/
theorem isSeen_of_no_opening (h : ∀ note ∈ done, note.isOpening = false) : IsSeen done := by
  rintro before path result behind rfl
  have hopens := h (did (.opened path result)) (by simp)
  cases hopens

/-- In particular this holds of what is idle. -/
theorem isSeen_of_idle (h : ∀ note ∈ done, note.isIdle = true) : IsSeen done := by
  refine isSeen_of_no_opening fun note hmem => ?_
  have hidle := h note hmem
  simp only [Note.isIdle, Bool.and_eq_true, Bool.not_eq_true'] at hidle
  exact hidle.1.2

/-- Files that are seen before in both parts are seen before in the whole. -/
theorem IsSeen.append (h : IsSeen done) (hmore : IsSeen more) : IsSeen (done ++ more) := by
  intro before path result behind hsplit
  obtain ⟨between, rfl, hright⟩ | ⟨between, hleft, hright⟩ := List.append_eq_append_iff.mp hsplit
  · obtain ⟨earlier, kind, rfl⟩ := hmore between path result behind hright
    exact ⟨done ++ earlier, kind, (List.append_assoc ..).symm⟩
  · cases between with
    | nil =>
      obtain ⟨earlier, kind, hnil⟩ := hmore [] path result behind hright.symm
      cases earlier <;> cases hnil
    | cons note between =>
      obtain ⟨rfl, -⟩ := List.cons.inj hright
      exact h before path result between hleft

/-- A file is opened right after it has been seen. -/
theorem isSeen_look (path : Path) (kind : Kind) (result : Except DiskFault Bytes) :
    IsSeen [did (.looked path (some kind)), did (.opened path result)] := by
  intro before path' result' behind hsplit
  cases before with
  | nil => cases hsplit
  | cons note before =>
    obtain ⟨rfl, htail⟩ := List.cons.inj hsplit
    cases before with
    | nil =>
      cases htail
      exact ⟨[], kind, rfl⟩
    | cons note before =>
      obtain ⟨-, hnil⟩ := List.cons.inj htail
      cases before <;> cases hnil

/-! ## The last stretch -/

/-- Whether all that is done after the last look that finds the flag down is among some deeds. -/
def IsSince (done rest : List Note) : Prop :=
  ∀ late, late <:+ done → did (.checked false) ∉ late → late.Sublist rest

/-- What is done since the last look is among everything that is done. -/
theorem isSince_self (done : List Note) : IsSince done done :=
  fun _ hlate _ => hlate.sublist

/-- It is among more deeds if it is among fewer. -/
theorem IsSince.mono (h : IsSince done rest) (hsub : rest.Sublist shape) : IsSince done shape :=
  fun late hlate hdown => (h late hlate hdown).trans hsub

/-- A suffix of what ends with some deeds is a suffix of these, or contains them. -/
theorem suffix_append_cases {late done more : List Note} (h : late <:+ done ++ more) :
    late <:+ more ∨ ∃ lead, lead <:+ done ∧ late = lead ++ more := by
  obtain ⟨front, hfront⟩ := h
  obtain ⟨lead, hdone, hlate⟩ | ⟨lead, -, hmore⟩ := List.append_eq_append_iff.mp hfront
  · exact .inr ⟨lead, ⟨front, hdone.symm⟩, hlate⟩
  · exact .inl ⟨lead, hmore.symm⟩

/-- What comes before a look at the flag that finds it down does not matter. -/
theorem IsSince.behind (h : IsSince done rest) (before : List Note) :
    IsSince (before ++ did (.checked false) :: done) rest := by
  intro late hlate hdown
  obtain hlate | ⟨lead, -, rfl⟩ := suffix_append_cases hlate
  · obtain ⟨front, hfront⟩ := hlate
    cases front with
    | nil =>
      rw [List.nil_append] at hfront
      exact absurd (hfront ▸ List.mem_cons_self) hdown
    | cons note front =>
      obtain ⟨-, hdone⟩ := List.cons.inj hfront
      exact h late ⟨front, hdone⟩ hdown
  · exact absurd (List.mem_append_right lead List.mem_cons_self) hdown

/-- What is done afterwards is done since that look, too. -/
theorem IsSince.append (h : IsSince done rest) (more : List Note) :
    IsSince (done ++ more) (rest ++ more) := by
  intro late hlate hdown
  obtain hlate | ⟨lead, hlead, rfl⟩ := suffix_append_cases hlate
  · exact hlate.sublist.trans (List.sublist_append_right rest more)
  · have hsub := h lead hlead fun hmem => hdown (List.mem_append_left more hmem)
    exact hsub.append (List.Sublist.refl more)

/-- What was done before may be added on both sides. -/
theorem IsSince.prepend (h : IsSince done rest) (before : List Note) :
    IsSince (before ++ done) (before ++ rest) := by
  intro late hlate hdown
  obtain hlate | ⟨lead, hlead, rfl⟩ := suffix_append_cases hlate
  · exact (h late hlate hdown).trans (List.sublist_append_right before rest)
  · have hsub := h done (List.suffix_refl done) fun hmem => hdown (List.mem_append_right lead hmem)
    exact hlead.sublist.append hsub

/-- Without a further look that finds the flag down, an earlier part is since the same look. -/
theorem IsSince.of_append (h : IsSince (done ++ more) shape)
    (hmore : did (.checked false) ∉ more) : IsSince done shape := by
  intro late hlate hdown
  have hsub := h (late ++ more) (by
    obtain ⟨front, rfl⟩ := hlate
    exact ⟨front, (List.append_assoc ..).symm⟩) fun hmem =>
      (List.mem_append.mp hmem).elim hdown hmore
  exact (List.sublist_append_left late more).trans hsub

/-- How a console stops, and how many reports of a cancelled exchange may come before. -/
inductive IsEnding : ℕ → List Note → Prop
  | quits : IsEnding 1 [did (.checked true)]
  | cancels (path : Path) :
    IsEnding 0 [did (.checked true), .showed (Report.failedLine (.cancelled path))]

/-- All that the console can do after a look that has found the flag down: it asks for a line, does
little with it, and stops when it looks again. -/
inductive IsStretch : List Note → Prop
  | intro {reports : ℕ} {rest ending : List Note} (index : Index) (line : Bytes)
    (hrest : IsModest reports rest) (hending : IsEnding reports ending) :
    IsStretch (.showed (promptText index) :: .read line :: (rest ++ ending))

/-- What is bounded once the flag is up. -/
structure IsRestrained (late : List Note) : Prop where
  /-- At most one further line is read. -/
  reads : late.countP Note.isRead ≤ 1
  /-- A prompt is shown before anything else, if at all. -/
  prompt_first : ∀ before index behind,
    late = before ++ .showed (promptText index) :: behind → before = []
  /-- A line is read only before anything else is done, or behind its prompt. -/
  read_first : ∀ before line behind, late = before ++ .read line :: behind →
    before = [] ∨ ∃ index, before = [.showed (promptText index)]
  /-- Once the console has looked at the flag, it only reports that an exchange is cancelled. -/
  stops : ∀ before up behind, late = before ++ did (.checked up) :: behind →
    behind = [] ∨ ∃ path, behind = [.showed (Report.failedLine (.cancelled path))]
  /-- At most one request is posted, or one source patched. -/
  writes : late.countP Note.isWrite ≤ 1
  /-- At most one response is read. -/
  openings : late.countP Note.isOpening ≤ 1
  reports : late.countP Note.isCancelReport ≤ 1

/-- What stands only at the front of a list has nothing before it. -/
theorem eq_nil_of_sublist_cons {note head : Note}
    (h : (before ++ note :: more).Sublist (head :: rest)) (hnote : note ∉ rest) : before = [] := by
  cases before with
  | nil => rfl
  | cons other before =>
    have hmem : note ∈ rest := h.tail.subset (by simp)
    exact absurd hmem hnote

/-- What is not in the front of a list comes from its end. -/
theorem sublist_of_not_mem {note : Note} {front ending : List Note}
    (h : (before ++ note :: more).Sublist (front ++ ending)) (hnote : note ∉ front) :
    (note :: more).Sublist ending := by
  obtain ⟨left, right, hsplit, hleft, hright⟩ := List.sublist_append_iff.mp h
  obtain ⟨between, rfl, hbetween⟩ | ⟨between, hbefore, hbetween⟩ :=
    List.append_eq_append_iff.mp hsplit
  · cases between with
    | nil => exact hbetween ▸ hright
    | cons other between =>
      obtain ⟨rfl, -⟩ := List.cons.inj hbetween
      exact absurd (hleft.subset (by simp)) hnote
  · rw [hbetween] at hright
    exact (List.sublist_append_right between _).trans hright

/-- Quiet work shows no prompt, for a prompt is not a whole line. -/
theorem prompt_not_mem {index : Index} (h : ∀ note ∈ done, note.isQuiet = true) :
    .showed (promptText index) ∉ done := by
  intro hmem
  have hquiet := h _ hmem
  rw [Note.isQuiet, isLines_promptText] at hquiet
  cases hquiet

/-- It does not look at the flag. -/
theorem check_not_mem {up : Bool} (h : ∀ note ∈ done, note.isQuiet = true) :
    did (.checked up) ∉ done := by
  intro hmem
  cases h _ hmem

/-- It reads no line. -/
theorem read_not_mem {line : Bytes} (h : ∀ note ∈ done, note.isQuiet = true) :
    .read line ∉ done := by
  intro hmem
  cases h _ hmem

/-- So it reads no lines at all. -/
theorem countP_isRead_eq_zero (h : ∀ note ∈ done, note.isQuiet = true) :
    done.countP Note.isRead = 0 := by
  rw [List.countP_eq_zero]
  intro note hmem hread
  cases note with
  | read line => exact read_not_mem h hmem
  | happened event => cases hread
  | showed text => cases hread

/-- An ending neither asks for a line nor does anything else that is bounded. -/
theorem IsEnding.counts {ending : List Note} (h : IsEnding reports ending) :
    ending.countP Note.isRead = 0 ∧ ending.countP Note.isWrite = 0 ∧
      ending.countP Note.isOpening = 0 ∧ reports + ending.countP Note.isCancelReport ≤ 1 := by
  cases h with
  | quits => exact ⟨rfl, rfl, rfl, Nat.le_refl 1⟩
  | cancels path =>
    have hone : [Note.showed (Report.failedLine (.cancelled path))].countP
        Note.isCancelReport ≤ 1 := List.countP_le_length
    refine ⟨rfl, rfl, rfl, ?_⟩
    rw [List.countP_cons_of_neg Bool.false_ne_true]
    omega

/-- A console that stops shows no prompt. -/
theorem IsEnding.prompt_not_mem {index : Index} {ending : List Note} (h : IsEnding reports ending) :
    .showed (promptText index) ∉ ending := by
  have hlines (path : Path) : isLines (Report.failedLine (.cancelled path)) = true :=
    isLines_append _
  intro hmem
  cases h with
  | quits => cases List.mem_singleton.mp hmem
  | cancels path =>
    obtain hcheck | hreport := List.mem_cons.mp hmem
    · cases hcheck
    · have htext := Note.showed.inj (List.mem_singleton.mp hreport)
      have hnever := hlines path
      rw [← htext, isLines_promptText] at hnever
      cases hnever

/-- It reads no line. -/
theorem IsEnding.read_not_mem {line : Bytes} {ending : List Note} (h : IsEnding reports ending) :
    .read line ∉ ending := by
  intro hmem
  cases h <;> simp [did] at hmem

/-- Once the console has looked at the flag, an ending has only a report left. -/
theorem IsEnding.stops {up : Bool} {ending : List Note} (h : IsEnding reports ending)
    (hsub : (did (.checked up) :: more).Sublist ending) :
    more = [] ∨ ∃ path, more = [.showed (Report.failedLine (.cancelled path))] := by
  have htail := hsub.tail
  cases h with
  | quits => exact .inl (List.sublist_nil.mp htail)
  | cancels path =>
    obtain hnil | hone := List.sublist_singleton.mp htail
    · exact .inl hnil
    · exact .inr ⟨path, hone⟩

section

variable {index : Index} {line : Bytes} {rest ending : List Note}

/-- In a stretch the prompt comes first, also if parts of it are left out. -/
theorem prompt_first_of_sublist (hrest : IsModest reports rest) (hending : IsEnding reports ending)
    {other : Index} (hsub : (before ++ .showed (promptText other) :: more).Sublist
      (.showed (promptText index) :: .read line :: (rest ++ ending))) : before = [] := by
  refine eq_nil_of_sublist_cons hsub fun hmem => ?_
  obtain hread | hmem := List.mem_cons.mp hmem
  · cases hread
  · exact (List.mem_append.mp hmem).elim (prompt_not_mem hrest.quiet) hending.prompt_not_mem

/-- A line is read before anything else but the prompt. -/
theorem read_first_of_sublist (hrest : IsModest reports rest) (hending : IsEnding reports ending)
    {other : Bytes} (hsub : (before ++ .read other :: more).Sublist
      (.showed (promptText index) :: .read line :: (rest ++ ending))) :
    before = [] ∨ before = [.showed (promptText index)] := by
  have hread : .read other ∉ rest ++ ending := fun hmem =>
    (List.mem_append.mp hmem).elim (read_not_mem hrest.quiet) hending.read_not_mem
  cases before with
  | nil => exact .inl rfl
  | cons note before =>
    cases hsub with
    | cons _ hsub => exact .inl (eq_nil_of_sublist_cons hsub hread)
    | cons_cons _ hsub =>
      obtain rfl := eq_nil_of_sublist_cons hsub hread
      exact .inr rfl

/-- After a look at the flag at most the report of the cancelled exchange follows. -/
theorem stops_of_sublist (hrest : IsModest reports rest) (hending : IsEnding reports ending)
    {up : Bool} (hsub : (before ++ did (.checked up) :: more).Sublist
      (.showed (promptText index) :: .read line :: (rest ++ ending))) :
    more = [] ∨ ∃ path, more = [.showed (Report.failedLine (.cancelled path))] := by
  have hfront : did (.checked up) ∉ .showed (promptText index) :: .read line :: rest := by
    intro hmem
    obtain hshown | hmem := List.mem_cons.mp hmem
    · cases hshown
    obtain hread | hmem := List.mem_cons.mp hmem
    · cases hread
    · exact check_not_mem hrest.quiet hmem
  exact hending.stops (sublist_of_not_mem hsub hfront)

/-- What a stretch has of a kind, if a prompt is not of that kind. -/
theorem countP_le_of_sublist {p : Note → Bool} (hp : p (.showed (promptText index)) = false)
    (hsub : late.Sublist (.showed (promptText index) :: .read line :: (rest ++ ending))) :
    late.countP p ≤ [Note.read line].countP p + (rest.countP p + ending.countP p) := by
  have hle := hsub.countP_le (p := p)
  rw [List.countP_cons_of_neg (by rw [hp]; exact Bool.false_ne_true), ← List.singleton_append,
    List.countP_append, List.countP_append] at hle
  exact hle

end

/-- The console does no more than the last stretch allows. -/
theorem IsStretch.restrained (h : IsStretch shape) (hsub : late.Sublist shape) :
    IsRestrained late := by
  obtain @⟨reports, rest, ending, index, line, hrest, hending⟩ := h
  have hprompt : (Note.showed (promptText index)).isCancelReport = false := by
    rw [Note.isCancelReport, isLines_promptText, Bool.false_and]
  have hread : [Note.read line].countP Note.isRead ≤ 1 ∧
      [Note.read line].countP Note.isWrite = 0 ∧ [Note.read line].countP Note.isOpening = 0 ∧
      [Note.read line].countP Note.isCancelReport = 0 := ⟨List.countP_le_length, rfl, rfl, rfl⟩
  have hreads := countP_le_of_sublist (p := Note.isRead) rfl hsub
  have hwrites := countP_le_of_sublist (p := Note.isWrite) rfl hsub
  have hopenings := countP_le_of_sublist (p := Note.isOpening) rfl hsub
  have hreports := countP_le_of_sublist hprompt hsub
  have hnone := countP_isRead_eq_zero hrest.quiet
  have hending' := hending.counts
  have hwrite := hrest.writes
  have hopening := hrest.openings
  have hreport := hrest.reports
  constructor
  case prompt_first =>
    rintro before other behind rfl
    exact prompt_first_of_sublist hrest hending hsub
  case read_first =>
    rintro before other behind rfl
    exact (read_first_of_sublist hrest hending hsub).imp_right fun h => ⟨index, h⟩
  case stops =>
    rintro before up behind rfl
    exact stops_of_sublist hrest hending hsub
  all_goals omega

end ScriptMailbox
