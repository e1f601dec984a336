import ScriptMailbox.Console.Command
import ScriptMailbox.Proofs.Source.Naming
import ScriptMailbox.Proofs.Text.Ends

/-!
# The grammar of commands

A command has a canonical form in which it can be printed, and the line that is printed is read as
that command again. What a line is read as is always canonical, so reading, printing and reading
once more changes nothing (`parse_print`).
-/

namespace ScriptMailbox

/-! ## Numbers -/

namespace Text.Decimal

variable {bound n : ℕ} {text body : List Char}

/-- Whether a text is a number in decimal digits, maybe with a plus sign before them. -/
def Denotes (text : List Char) (n : ℕ) : Prop :=
  ∃ body, (text = body ∨ text = '+' :: body) ∧ body ≠ [] ∧ (∀ c ∈ body, c.isDigit = true) ∧
    Nat.ofDigitChars 10 body 0 = n

/-- Digits have no sign in front. -/
theorem dropSign_of_isDigit (h : ∀ c ∈ body, c.isDigit = true) : dropSign body = body := by
  unfold dropSign
  split
  · have := h '+' List.mem_cons_self
    simp at this
  · rfl

/-- A text without its sign is the text, or had a plus in front. -/
theorem eq_or_eq_of_dropSign (h : dropSign text = body) : text = body ∨ text = '+' :: body := by
  unfold dropSign at h
  split at h
  · exact .inr (by rw [h])
  · exact .inl h

/-- A number is read exactly from its literals, if it is below the bound. -/
theorem read?_eq_some_iff : read? bound text = some n ↔ Denotes text n ∧ n < bound := by
  constructor
  · intro h
    simp only [read?, Bool.and_eq_true, Bool.not_eq_true', List.isEmpty_eq_false_iff,
      List.all_eq_true] at h
    split_ifs at h with hbody hbound
    cases h
    exact ⟨⟨dropSign text, eq_or_eq_of_dropSign rfl, hbody.1, hbody.2, rfl⟩, hbound⟩
  · rintro ⟨⟨body, htext, hne, hdigits, rfl⟩, hbound⟩
    have hsign : dropSign text = body := by
      rcases htext with rfl | rfl
      · exact dropSign_of_isDigit hdigits
      · rfl
    simp only [read?, hsign, if_pos hbound]
    exact if_pos (by simpa [hne] using hdigits)

/-- No colon stands in a number. -/
theorem Denotes.colon_not_mem (h : Denotes text n) : ':' ∉ text := by
  obtain ⟨body, htext, -, hdigits, -⟩ := h
  have hbody : ':' ∉ body := fun hmem => by simpa using hdigits ':' hmem
  rcases htext with rfl | rfl
  · exact hbody
  · simpa using hbody

/-- Its digits are one of them. -/
theorem denotes_digits (n : ℕ) : Denotes (digits n) n :=
  ⟨digits n, .inl rfl, Nat.toDigits_ne_nil,
    fun _ hc => Nat.isDigit_of_mem_toDigits (by decide) (by decide) hc,
    Nat.ofDigitChars_ten_toDigits⟩

/-- Digits with the value zero are all zeros. -/
theorem eq_zero_of_ofDigitChars (hdigits : ∀ c ∈ body, c.isDigit = true)
    (h : Nat.ofDigitChars 10 body 0 = 0) : ∀ c ∈ body, c = '0' := by
  induction body with
  | nil => exact List.forall_mem_nil _
  | cons c body ih =>
    obtain ⟨hdigit, hdigits⟩ := List.forall_mem_cons.mp hdigits
    rw [Nat.ofDigitChars_cons, Nat.ofDigitChars_eq_ofDigitChars_zero] at h
    obtain ⟨hhead, htail⟩ := Nat.add_eq_zero_iff.mp h
    have hc : c.toNat = '0'.toNat := by
      have hle : '0'.toNat ≤ c.toNat := (Char.isDigit_iff_toNat.mp hdigit).1
      have hzero : c.toNat - '0'.toNat = 0 := by
        simpa [Nat.mul_eq_zero] using hhead
      omega
    exact List.forall_mem_cons.mpr ⟨Char.toNat_inj.mp hc, ih hdigits htail⟩

/-- Zero is written with zeros alone. -/
theorem denotes_zero_iff :
    Denotes text 0 ↔
      ∃ count, text = List.replicate (count + 1) '0' ∨
        text = '+' :: List.replicate (count + 1) '0' := by
  constructor
  · rintro ⟨body, htext, hne, hdigits, hvalue⟩
    have hzeros : body = List.replicate (body.length - 1 + 1) '0' := by
      refine List.eq_replicate_iff.mpr ⟨?_, eq_zero_of_ofDigitChars hdigits hvalue⟩
      have := List.length_pos_iff.mpr hne
      omega
    exact ⟨body.length - 1, hzeros ▸ htext⟩
  · rintro ⟨count, htext⟩
    refine ⟨List.replicate (count + 1) '0', htext, by simp, ?_, ?_⟩
    · intro c hc
      rw [List.eq_of_mem_replicate hc]
      rfl
    · rw [Nat.ofDigitChars_replicate_zero, Nat.mul_zero]

end Text.Decimal

/-- An index is written in its digits. -/
theorem Index.toList_text (index : Index) :
    index.text.toList = Text.Decimal.digits index.value := by
  simp [Index.text, Text.Decimal.digits]

/-- It is read back as itself. -/
theorem Index.read?_toList_text (index : Index) : Index.read? index.text.toList = some index := by
  rw [Index.toList_text, Index.read?, Text.Decimal.read?_digits index.value_lt]
  exact dif_pos index.value_lt

namespace Command

variable {line : String} {target path number code text rest : List Char} {n : ℕ} {command : Command}

/-! ## Targets -/

/-- Whether a target is a path and a line number behind its last colon. -/
def IsFileLine (target path : List Char) (n : ℕ) : Prop :=
  ∃ number, target = path ++ ':' :: number ∧ path ≠ [] ∧ Text.Decimal.Denotes number n ∧
    n < Text.Decimal.bound64

/-- A target is split into a path and a line exactly where it is one. -/
theorem fileLine?_eq_some_iff : fileLine? target = some (path, n) ↔ IsFileLine target path n := by
  constructor
  · intro h
    simp only [fileLine?] at h
    split at h
    · rename_i first before hdrop
      obtain ⟨m, hread, heq⟩ := Option.map_eq_some_iff.mp h
      cases heq
      obtain ⟨hdenotes, hbound⟩ := Text.Decimal.read?_eq_some_iff.mp hread
      exact ⟨_, (Text.eq_of_dropWhile_reverse hdrop).1, by simp, hdenotes, hbound⟩
    · cases h
  · rintro ⟨number, rfl, hne, hdenotes, hbound⟩
    obtain ⟨htake, hdrop⟩ := Text.splitAtLast path hdenotes.colon_not_mem
    obtain ⟨first, before, hreverse⟩ :=
      List.exists_cons_of_ne_nil (List.reverse_ne_nil_iff.mpr hne)
    have hread : Text.Decimal.read? Text.Decimal.bound64 number = some n :=
      Text.Decimal.read?_eq_some_iff.mpr ⟨hdenotes, hbound⟩
    simp only [fileLine?, htake, hdrop, hreverse, List.reverse_reverse, hread, Option.map_some]
    rw [← hreverse, List.reverse_reverse]

/-- So it is not split exactly where it is none. -/
theorem fileLine?_eq_none_iff : fileLine? target = none ↔ ∀ path n, ¬IsFileLine target path n := by
  simp [Option.eq_none_iff_forall_ne_some, fileLine?_eq_some_iff]

/-- A target as it stands in a command. -/
def targetText : Option Path → Query → String
  | none, .name name => name
  | none, .line n => toString n
  | some path, .name name => path.text ++ ":" ++ name
  | some path, .line n => path.text ++ ":" ++ toString n

/-- A text without blanks in which something stands. -/
def IsSolid (text : List Char) : Prop :=
  text ≠ [] ∧ ∀ c ∈ text, Text.isBlank c = false

/-- The targets that a command can have: a line of a file, and a name that is no line of a file. -/
def IsTarget : Option Path → Query → Prop
  | some path, .line n => IsSolid path.text.toList ∧ n < Text.Decimal.bound64
  | none, .name name => IsSolid name.toList ∧ ∀ path n, ¬IsFileLine name.toList path n
  | _, _ => False

/-- A target with a line is its path, a colon and the digits of the line. -/
theorem toList_targetText_line (path : Path) (n : ℕ) :
    (targetText (some path) (.line n)).toList =
      path.text.toList ++ ':' :: Text.Decimal.digits n := by
  simp [targetText, Text.Decimal.digits]

/-- Digits are no blanks. -/
theorem isBlank_of_isDigit {c : Char} (h : c.isDigit = true) : Text.isBlank c = false := by
  have hword : Text.isWord c = true :=
    Text.isWord_of_isAlphanum (by rw [Char.isAlphanum, h, Bool.or_true])
  by_contra hblank
  rw [Source.isWord_of_isBlank (Bool.not_eq_false _ ▸ hblank)] at hword
  cases hword

/-- A target has no blank at its ends. -/
theorem IsTarget.isSolid {file : Option Path} {query : Query} (h : IsTarget file query) :
    IsSolid (targetText file query).toList := by
  match file, query with
  | some path, .line n =>
    obtain ⟨⟨hne, hsolid⟩, -⟩ := h
    rw [toList_targetText_line]
    refine ⟨by simp, fun c hc => ?_⟩
    rcases List.mem_append.mp hc with hc | hc
    · exact hsolid c hc
    · rcases List.mem_cons.mp hc with rfl | hc
      · decide
      · exact isBlank_of_isDigit (Nat.isDigit_of_mem_toDigits (by decide) (by decide) hc)
  | none, .name name => exact h.1
  | none, .line _ => exact h.elim
  | some _, .name _ => exact h.elim

/-- A target is read back as what it was printed from. -/
theorem ofTarget_targetText {file : Option Path} {query : Query} (h : IsTarget file query)
    (text : List Char) :
    ofTarget (targetText file query).toList text = patch file query (String.ofList text) := by
  match file, query with
  | some path, .line n =>
    obtain ⟨⟨hne, -⟩, hbound⟩ := h
    have hline : fileLine? (targetText (some path) (.line n)).toList =
        some (path.text.toList, n) :=
      fileLine?_eq_some_iff.mpr ⟨_, toList_targetText_line path n, hne,
        Text.Decimal.denotes_digits n, hbound⟩
    simp only [ofTarget, hline, String.ofList_toList]
  | none, .name name =>
    have hname : fileLine? name.toList = none := fileLine?_eq_none_iff.mpr h.2
    simp only [ofTarget, hname, targetText, String.ofList_toList]
  | none, .line _ => exact h.elim
  | some _, .name _ => exact h.elim

/-- What is read as a target is one that a command can have. -/
theorem exists_ofTarget_eq (h : IsSolid target) (text : List Char) :
    ∃ file query, ofTarget target text = patch file query (String.ofList text) ∧
      IsTarget file query := by
  rw [ofTarget]
  split
  · rename_i path n hline
    obtain ⟨number, rfl, hne, -, hbound⟩ := fileLine?_eq_some_iff.mp hline
    refine ⟨_, _, rfl, ⟨?_, fun c hc => ?_⟩, hbound⟩
    · simpa using hne
    · exact h.2 c (List.mem_append_left _ (by simpa using hc))
  · rename_i hline
    exact ⟨_, _, rfl, by simpa using h, by simpa using fileLine?_eq_none_iff.mp hline⟩

/-! ## Lines -/

/-- A command as it is typed. -/
def print : Command → String
  | empty => ""
  | help => "help"
  | exit => "exit"
  | restart => "restart"
  | jump index => "jump " ++ index.text
  | file path => "file " ++ path.text
  | patch path? query text => "patch " ++ (targetText path? query ++ " " ++ text)
  | send text => text

/-- The lines that are commands by themselves. -/
def keywords : List String :=
  ["", "help", "exit", "restart"]

/-- The starts of the lines that are commands with something behind. -/
def starts : List String :=
  ["jump ", "file ", "patch "]

/-- Script text that is not taken for another command. -/
def IsPlain (line : String) : Prop :=
  line ∉ keywords ∧ ∀ start ∈ starts, ¬start.toList <+: line.toList

/-- The commands that a line can stand for. -/
def IsCanonical : Command → Prop
  | file path => Text.StartsSolid path.text.toList ∧ Text.EndsSolid path.text.toList
  | patch path? query text => IsTarget path? query ∧ Text.StartsSolid text.toList
  | send text => IsPlain text
  | _ => True

/-- A text that starts like a command with an argument is no command without one. -/
theorem append_not_mem_keywords (start rest : String) (hstart : start ∈ starts) :
    start ++ rest ∉ keywords := by
  intro hmem
  have hspace : ∀ start ∈ starts, ' ' ∈ start.toList := by decide
  have hkeyword : ∀ word ∈ keywords, ' ' ∉ word.toList := by decide
  exact hkeyword _ hmem (by simp [hspace start hstart])

/-- The command `jump` needs an index behind it. -/
theorem parse_jump (rest : String) :
    parse ("jump " ++ rest) = (Index.read? (Text.trim rest.toList)).elim
      (.error (.noIndex (String.ofList (Text.trim rest.toList))))
        fun index => .ok (jump index) := by
  have hkeyword := append_not_mem_keywords "jump " rest (by decide)
  simp only [keywords, List.mem_cons, not_or] at hkeyword
  have hjump : Text.dropStart? "jump ".toList ("jump " ++ rest).toList = some rest.toList :=
    Text.dropStart?_eq_some_iff.mpr String.toList_append
  simp only [parse, hkeyword, if_false, hjump]
  cases Index.read? (Text.trim rest.toList) <;> rfl

/-- The command `file` needs a path behind it. -/
theorem parse_file (rest : String) :
    parse ("file " ++ rest) =
      if (Text.trim rest.toList).isEmpty then .error .noPath
      else .ok (file ⟨String.ofList (Text.trim rest.toList)⟩) := by
  have hkeyword := append_not_mem_keywords "file " rest (by decide)
  simp only [keywords, List.mem_cons, not_or] at hkeyword
  have hfile : Text.dropStart? "file ".toList ("file " ++ rest).toList = some rest.toList :=
    Text.dropStart?_eq_some_iff.mpr String.toList_append
  have hjump : Text.dropStart? "jump ".toList ("file " ++ rest).toList = none := by
    rw [String.toList_append]
    rfl
  simp only [parse, hkeyword, if_false, hjump, hfile]

/-- The command `patch` needs a target and a text behind it. -/
theorem parse_patch (rest : String) :
    parse ("patch " ++ rest) = parsePatch (Text.trimStart rest.toList) := by
  have hkeyword := append_not_mem_keywords "patch " rest (by decide)
  simp only [keywords, List.mem_cons, not_or] at hkeyword
  have hpatch : Text.dropStart? "patch ".toList ("patch " ++ rest).toList = some rest.toList :=
    Text.dropStart?_eq_some_iff.mpr String.toList_append
  have hother : Text.dropStart? "jump ".toList ("patch " ++ rest).toList = none ∧
      Text.dropStart? "file ".toList ("patch " ++ rest).toList = none := by
    rw [String.toList_append]
    exact ⟨rfl, rfl⟩
  simp only [parse, hkeyword, if_false, hother, hpatch]

/-- Every other line is sent. -/
theorem parse_send (h : IsPlain line) : parse line = .ok (send line) := by
  obtain ⟨hkeyword, hstarts⟩ := h
  simp only [keywords, List.mem_cons, not_or] at hkeyword
  have hdrop (start : String) (hstart : start ∈ starts) :
      Text.dropStart? start.toList line.toList = none :=
    Option.eq_none_iff_forall_ne_some.mpr fun rest hrest =>
      hstarts start hstart ⟨rest, (Text.dropStart?_eq_some_iff.mp hrest).symm⟩
  simp only [parse, hkeyword, if_false, hdrop "jump " (by decide), hdrop "file " (by decide),
    hdrop "patch " (by decide)]

/-- A line is a keyword, starts in one of three ways, or is script text. -/
theorem mem_keywords_or_start_or_isPlain (line : String) :
    line ∈ keywords ∨ (∃ start ∈ starts, ∃ rest, line = start ++ rest) ∨ IsPlain line := by
  by_cases hkeyword : line ∈ keywords
  · exact .inl hkeyword
  · refine .inr (or_iff_not_imp_left.mpr fun hstart => ⟨hkeyword, fun start hmem ⟨rest, hrest⟩ =>
      hstart ⟨start, hmem, String.ofList rest, ?_⟩⟩)
    rw [← String.toList_inj, ← hrest]
    simp

/-- The text behind `patch` is a target, a blank, and text that starts with none. -/
theorem parsePatch_eq_ok_iff :
    parsePatch rest = .ok command ↔
      ∃ target blank code, rest = target ++ blank :: code ∧
        (∀ c ∈ target, Text.isBlank c = false) ∧ Text.isBlank blank = true ∧
        Text.trimStart code ≠ [] ∧ ofTarget target (Text.trimStart code) = command := by
  constructor
  · intro h
    simp only [parsePatch] at h
    split at h
    · cases h
    · rename_i blank code hdrop
      split_ifs at h with hempty
      cases h
      have hblank := List.head?_dropWhile_not (!Text.isBlank ·) rest
      rw [hdrop] at hblank
      refine ⟨_, blank, code, ?_, fun c hc => ?_, by simpa using hblank,
        by simpa using hempty, rfl⟩
      · rw [← hdrop, List.takeWhile_append_dropWhile]
      · simpa using List.mem_takeWhile_imp hc
  · rintro ⟨target, blank, code, rfl, htarget, hblank, hcode, rfl⟩
    have hpass : ∀ c ∈ target, (!Text.isBlank c) = true := fun c hc => by simp [htarget c hc]
    have htake : (target ++ blank :: code).takeWhile (!Text.isBlank ·) = target := by
      rw [List.takeWhile_append_of_pos hpass]
      simp [hblank]
    have hdrop : (target ++ blank :: code).dropWhile (!Text.isBlank ·) = blank :: code := by
      rw [List.dropWhile_append_of_pos hpass]
      simp [hblank]
    simp only [parsePatch, htake, hdrop]
    exact if_neg (by simpa using hcode)

/-! ## There and back -/

/-- A canonical command is read from the line that it is printed as. -/
theorem parse_print_of_isCanonical (h : command.IsCanonical) :
    parse command.print = .ok command := by
  cases command with
  | empty => rfl
  | help => rfl
  | exit => rfl
  | restart => rfl
  | jump index =>
    have htext : Text.trim index.text.toList = index.text.toList := by
      rw [Index.toList_text]
      have hdigits : ∀ c ∈ Text.Decimal.digits index.value, Text.isBlank c = false := fun c hc =>
        isBlank_of_isDigit (Nat.isDigit_of_mem_toDigits (by decide) (by decide) hc)
      have hne : Text.Decimal.digits index.value ≠ [] := Nat.toDigits_ne_nil
      exact Text.trim_eq_self (Text.startsSolid_of_forall hne hdigits)
        (Text.endsSolid_of_forall hne hdigits)
    rw [print, parse_jump, htext, Index.read?_toList_text, Option.elim_some]
  | file path =>
    obtain ⟨hstart, hend⟩ := h
    rw [print, parse_file, Text.trim_eq_self hstart hend, if_neg (by simpa using hstart.ne_nil),
      String.ofList_toList]
  | patch path? query text =>
    obtain ⟨htarget, htext⟩ := h
    obtain ⟨hne, hsolid⟩ := htarget.isSolid
    have hrest : (targetText path? query ++ " " ++ text).toList =
        (targetText path? query).toList ++ ' ' :: text.toList := by
      simp
    have hstart : Text.StartsSolid ((targetText path? query).toList ++ ' ' :: text.toList) := by
      obtain ⟨c, hc, hfirst⟩ := Text.startsSolid_of_forall hne hsolid
      exact ⟨c, by rwa [List.head?_append_of_ne_nil _ hne], hfirst⟩
    rw [print, parse_patch, hrest, Text.trimStart_eq_self hstart, parsePatch_eq_ok_iff]
    refine ⟨_, ' ', text.toList, rfl, hsolid, by decide, ?_, ?_⟩ <;>
      rw [Text.trimStart_eq_self htext]
    · exact htext.ne_nil
    · rw [ofTarget_targetText htarget, String.ofList_toList]
  | send text => exact parse_send h

/-- Only canonical commands are read. -/
theorem isCanonical_of_parse (h : parse line = .ok command) : command.IsCanonical := by
  rcases mem_keywords_or_start_or_isPlain line with hkeyword | ⟨start, hstart, rest, rfl⟩ | hplain
  · have hparse : ∀ word ∈ keywords, ∃ read ∈ [empty, help, exit, restart],
        parse word = .ok read := by decide
    have hcanonical : ∀ read ∈ [empty, help, exit, restart], read.IsCanonical := by
      simp [IsCanonical]
    obtain ⟨read, hread, heq⟩ := hparse line hkeyword
    rw [heq] at h
    cases h
    exact hcanonical _ hread
  · simp only [starts, List.mem_cons, List.not_mem_nil, or_false] at hstart
    rcases hstart with rfl | rfl | rfl
    · rw [parse_jump] at h
      cases hindex : Index.read? (Text.trim rest.toList) with
      | none =>
        rw [hindex] at h
        cases h
      | some index =>
        rw [hindex] at h
        cases h
        trivial
    · rw [parse_file] at h
      split_ifs at h with hempty
      cases h
      rw [List.isEmpty_iff] at hempty
      exact ⟨by simpa using Text.startsSolid_trim hempty, by simpa using Text.endsSolid_trim hempty⟩
    · rw [parse_patch, parsePatch_eq_ok_iff] at h
      obtain ⟨target, blank, code, hrest, hsolid, hblank, hcode, rfl⟩ := h
      -- the rest is trimmed, so its first blank is not its first character
      have hne : target ≠ [] := by
        rintro rfl
        have hleft : Text.trimStart rest.toList ≠ [] := by simp [hrest]
        obtain ⟨c, hc, hfirst⟩ := Text.startsSolid_trimStart hleft
        rw [hrest] at hc
        cases hc
        rw [hblank] at hfirst
        cases hfirst
      obtain ⟨path?, query, heq, htarget⟩ :=
        exists_ofTarget_eq ⟨hne, hsolid⟩ (Text.trimStart code)
      rw [heq]
      exact ⟨htarget, by simpa using Text.startsSolid_trimStart hcode⟩
  · rw [parse_send hplain] at h
    cases h
    exact hplain

/-! ## Names of functions -/

/-- An identifier has no colon. -/
theorem colon_not_mem_identifier (word : Source.Identifier) : ':' ∉ word.val := fun hmem => by
  have hword := word.property.2 ':' hmem
  revert hword
  decide +kernel

/-- No word that begins with another character than a digit is a number. -/
theorem not_denotes_identifier (word : Source.Identifier)
    (h : ∀ c ∈ word.val.head?, c.isDigit = false) (n : ℕ) : ¬Text.Decimal.Denotes word.val n := by
  rintro ⟨body, heq | heq, hne, hdigits, -⟩
  · have hfirst := h (body.head hne) (by rw [heq, List.head?_eq_some_head hne]; rfl)
    rw [hdigits _ (List.head_mem hne)] at hfirst
    cases hfirst
  · have hplus := word.property.2 '+' (by simp [heq])
    revert hplus
    decide +kernel

/-- Whether no method begins with a digit, as in every name that a script can call. -/
def HasMethodName (name : Source.DeclaredName) : Prop :=
  ∀ method ∈ name.method, ∀ c ∈ method.val.head?, c.isDigit = false

/-- The name of a method is no path with a line, for a name stands behind its colon. -/
theorem not_isFileLine_text {name : Source.DeclaredName} (h : HasMethodName name)
    (path : List Char) (n : ℕ) : ¬IsFileLine name.text path n := by
  rintro ⟨number, heq, -, hdenotes, -⟩
  cases hmethod : name.method with
  | none =>
    have hcolon : ':' ∈ name.text := by simp [heq]
    simp only [Source.DeclaredName.text, hmethod, Source.fieldText, Option.map_none,
      Option.getD_none, List.append_nil, List.mem_append, List.mem_flatMap, List.mem_cons] at hcolon
    rcases hcolon with hbase | ⟨field, -, hdot | hfield⟩
    · exact colon_not_mem_identifier name.base hbase
    · exact absurd hdot (by decide)
    · exact colon_not_mem_identifier field hfield
  | some method =>
    -- the last colon is the one before the method
    have htext : name.text =
        (name.base.val ++ name.fields.flatMap Source.fieldText) ++ ':' :: method.val := by
      rw [Source.DeclaredName.text, hmethod]
      rfl
    have hlast := (Text.splitAtLast path hdenotes.colon_not_mem).1
    rw [← heq, htext, (Text.splitAtLast _ (colon_not_mem_identifier method)).1,
      List.reverse_inj] at hlast
    exact not_denotes_identifier method (h method hmethod) n (hlast ▸ hdenotes)

/-- So it may be asked for by itself. -/
theorem isTarget_query {name : Source.DeclaredName} (h : HasMethodName name) :
    IsTarget none name.query := by
  refine ⟨⟨by simpa using name.ne_nil, fun c hc => ?_⟩, fun path n => ?_⟩
  · exact Source.DeclaredName.isBlank_eq_false (by simpa using hc)
  · rw [String.toList_ofList]
    exact not_isFileLine_text h path n

/-- Every canonical command is read from the line that it is printed as, and what a line is read as
is canonical, so it is read once more from its own line. The name of a function is canonical as the
target of a patch. -/
theorem parse_print :
    (∀ command : Command, command.IsCanonical → parse command.print = .ok command) ∧
      (∀ line command, parse line = .ok command →
        command.IsCanonical ∧ parse command.print = .ok command) ∧
      ∀ (name : Source.DeclaredName) (text : String), HasMethodName name →
        Text.StartsSolid text.toList → (patch none name.query text).IsCanonical := by
  refine ⟨fun _ => parse_print_of_isCanonical, fun line command h => ?_,
    fun name text hname htext => ⟨isTarget_query hname, htext⟩⟩
  have hcanonical := isCanonical_of_parse h
  exact ⟨hcanonical, parse_print_of_isCanonical hcanonical⟩

/-- The method of a table, and a file whose path has a colon in it and whose line number is written
with a sign and zeros. -/
theorem parse_print_colons :
    parse (patch none (.name "a.b:c") "x()").print = .ok (patch none (.name "a.b:c") "x()") ∧
      (patch (some ⟨"a:b"⟩) (.line 7) "x()").IsCanonical ∧
      parse (patch (some ⟨"a:b"⟩) (.line 7) "x()").print =
        .ok (patch (some ⟨"a:b"⟩) (.line 7) "x()") := by
  let letter (c : Char) (h : Text.isWord c = true) : Source.Identifier :=
    ⟨[c], List.cons_ne_nil c [], List.forall_mem_singleton.mpr h⟩
  have hmethod := parse_print.2.2
    ⟨letter 'a' (by decide), [letter 'b' (by decide)], some (letter 'c' (by decide))⟩ "x()"
    (by simp [HasMethodName, letter]) ⟨'x', by decide⟩
  have hline : parse "patch  a:b:+007	x()" = .ok (patch (some ⟨"a:b"⟩) (.line 7) "x()") := by
    decide +kernel
  exact ⟨parse_print.1 _ hmethod, parse_print.2.1 _ _ hline⟩

end Command

end ScriptMailbox
