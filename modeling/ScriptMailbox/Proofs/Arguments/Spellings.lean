import ScriptMailbox.Arguments.Request
import Mathlib.Data.List.Basic
import Mathlib.Data.List.TakeWhile

/-!
# How options are written

An option and its value are one argument, `--name=value`, or two: `--name`, and a value that does
not look like an option itself. The arguments that are accepted are those that write options in this
way, first general ones, and behind the mode its own ones, too (`parse_eq_ok_iff`).
-/

namespace ScriptMailbox.Arguments

variable {level : Level} {option other : Opt} {name : List Char} {argument value : String}
  {arguments rest written : List String} {given more : Given} {progress : Progress}
  {request : Request}

/-! ## Arguments one by one -/

/-- An option as it is written. -/
def Opt.flag (option : Opt) : String :=
  "--" ++ option.spelling

/-- An option as it is written with its value. -/
def Opt.assignment (option : Opt) (value : String) : String :=
  option.flag ++ "=" ++ value

/-- Whether an argument does not look like an option. -/
def IsValue (argument : String) : Prop :=
  argument = "-" ∨ argument.toList.head? ≠ some '-'

instance (argument : String) : Decidable (IsValue argument) :=
  inferInstanceAs (Decidable (_ ∨ _))

/-- An option is spelled without an equals sign, so an assignment can be cut at its first one. -/
theorem Opt.equals_not_mem_spelling (option : Opt) : '=' ∉ option.spelling.toList := by
  cases option <;> decide

/-- Different options are spelled differently. -/
theorem Opt.spelling_injective (h : option.spelling.toList = other.spelling.toList) :
    option = other := by
  revert h
  cases option <;> cases other <;> decide

/-- The option that a level has under a spelling. -/
theorem Level.option?_eq_some_iff :
    level.option? name = some option ↔ option ∈ level.options ∧ option.spelling.toList = name := by
  rw [Level.option?]
  constructor
  · intro h
    exact ⟨List.mem_of_find?_eq_some h, by simpa using List.find?_some h⟩
  · rintro ⟨hmem, rfl⟩
    cases hfind : level.options.find? (·.spelling.toList == option.spelling.toList) with
    | none => exact absurd (beq_self_eq_true _) (List.find?_eq_none.mp hfind option hmem)
    | some found =>
      have hspelling := List.find?_some hfind
      obtain rfl : found = option := Opt.spelling_injective (by simpa using hspelling)
      rfl

namespace Shape

/-- The words are the arguments that can be values. -/
theorem ofArgument_eq_word_iff : ofArgument argument = .word ↔ IsValue argument := by
  have hdash : argument = "-" ↔ argument.toList = ['-'] := by
    rw [← String.toList_inj]
    rfl
  rw [IsValue, hdash, ofArgument]
  split
  case h_1 htext => simp [htext]
  case h_2 htext => split <;> simp [htext]
  case h_3 htext => simp [htext]
  case h_4 hescape hlong hshort =>
    simp only [true_iff]
    rcases htext : argument.toList with _ | ⟨c, _ | ⟨d, rest⟩⟩
    · simp
    · simpa using em (c = '-')
    · refine .inr fun hhead => ?_
      obtain rfl : c = '-' := by simpa using hhead
      exact hshort d rest htext

/-- Only two dashes end the options. -/
theorem eq_of_escape (h : ofArgument argument = .escape) : argument = "--" := by
  rw [ofArgument] at h
  split at h
  case h_1 htext => exact String.toList_inj.mp htext
  case h_2 => split at h <;> cases h
  case h_3 => cases h
  case h_4 => cases h

/-- A name behind two dashes, and a value behind an equals sign if there is one. -/
theorem toList_of_long {text : Option (List Char)} (h : ofArgument argument = .long name text) :
    argument.toList = '-' :: '-' :: (name ++ text.elim [] ('=' :: ·)) := by
  rw [ofArgument] at h
  split at h
  case h_1 => cases h
  case h_2 body _ htext =>
    rw [htext]
    split at h
    case h_1 c behind hdrop =>
      cases h
      have hc := List.head?_dropWhile_not (· != '=') body
      rw [hdrop] at hc
      obtain rfl : c = '=' := by simpa using hc
      rw [Option.elim_some, ← hdrop, List.takeWhile_append_dropWhile]
    case h_2 =>
      cases h
      rw [Option.elim_none, List.append_nil]
  case h_3 => cases h
  case h_4 => cases h

/-- An option that stands alone is read as that option without a value. -/
theorem ofArgument_flag (option : Opt) :
    ofArgument option.flag = .long option.spelling.toList none := by
  cases option <;> decide

/-- An option with its value is read as both. -/
theorem ofArgument_assignment (option : Opt) (value : String) :
    ofArgument (option.assignment value) =
      .long option.spelling.toList (some value.toList) := by
  have htext : (option.assignment value).toList =
      '-' :: '-' :: (option.spelling.toList ++ '=' :: value.toList) := by
    simp [Opt.assignment, Opt.flag]
  have hpass : ∀ c ∈ option.spelling.toList, (c != '=') = true := fun c hc =>
    bne_iff_ne.mpr (ne_of_mem_of_not_mem hc option.equals_not_mem_spelling)
  rw [ofArgument]
  split
  case h_1 hescape => simp [htext] at hescape
  case h_2 body _ hbody =>
    cases htext.symm.trans hbody
    rw [List.dropWhile_append_of_pos hpass, List.takeWhile_append_of_pos hpass]
    simp
  case h_3 hlong hbody =>
    cases htext.symm.trans hbody
    exact (hlong rfl).elim
  case h_4 hlong _ => exact (hlong _ htext).elim

end Shape

/-! ## One step of a scan -/

section

variable {α β : Type} {result : Except Refusal α} {next : α → Except Refusal β} {a : α} {b : β}

/-- What has succeeded goes on. -/
theorem bind_eq_of_ok (h : result = .ok a) : result >>= next = next a := by
  rw [h]
  rfl

/-- A whole succeeds exactly when both of its parts do. -/
theorem bind_eq_ok_iff : result >>= next = .ok b ↔ ∃ a, result = .ok a ∧ next a = .ok b := by
  cases result with
  | error refusal =>
    constructor
    · rintro ⟨⟩
    · rintro ⟨a, ⟨⟩, -⟩
  | ok a =>
    constructor
    · exact fun h => ⟨a, rfl, h⟩
    · rintro ⟨_, ⟨⟩, h⟩
      exact h

end

/-- Each mode has its own word. -/
theorem ofWord?_eq_some_iff {mode : Mode} :
    Mode.ofWord? argument = some mode ↔ argument = mode.word := by
  constructor
  · intro h
    rw [Mode.ofWord?] at h
    have hword := List.find?_some h
    exact (by simpa using hword : mode.word = argument).symm
  · rintro rfl
    cases mode <;> decide

/-- The word of a mode can be a value. -/
theorem isValue_word (mode : Mode) : IsValue mode.word := by
  cases mode <;> decide

/-- Neither a word that selects a mode nor the word that asks for help looks like an option. -/
theorem ofWord?_of_not_isValue (h : ¬IsValue argument) :
    Mode.ofWord? argument = none ∧ argument ≠ "help" := by
  constructor
  · rw [Option.eq_none_iff_forall_ne_some]
    intro mode hmode
    obtain rfl := ofWord?_eq_some_iff.mp hmode
    exact h (isValue_word mode)
  · rintro rfl
    exact h (by decide)

/-- An option is no value. -/
theorem not_isValue_flag (option : Opt) : ¬IsValue option.flag := by
  rw [← Shape.ofArgument_eq_word_iff, Shape.ofArgument_flag]
  simp

/-- Neither is an option with its value. -/
theorem not_isValue_assignment (option : Opt) (value : String) :
    ¬IsValue (option.assignment value) := by
  rw [← Shape.ofArgument_eq_word_iff, Shape.ofArgument_assignment]
  simp

/-- An option that stands alone awaits its value; what was awaited before has to be there by
then. -/
theorem scan_flag (h : option ∈ level.options) :
    scan level progress (option.flag :: rest) =
      progress.settle >>= fun given => scan level ⟨given, some (option, none)⟩ rest := by
  obtain ⟨hmode, hhelp⟩ := ofWord?_of_not_isValue (not_isValue_flag option)
  have hoption := Level.option?_eq_some_iff.mpr ⟨h, rfl⟩
  rw [scan.eq_def]
  simp only [hmode, hhelp, Option.isSome_none, Bool.false_eq_true, and_false, if_false,
    Shape.ofArgument_flag, hoption]

/-- An option with its value is added at once. -/
theorem scan_assignment (h : option ∈ level.options) :
    scan level progress (option.assignment value :: rest) =
      progress.settle >>= fun given =>
        given.add option value >>= fun more => scan level ⟨more, none⟩ rest := by
  obtain ⟨hmode, hhelp⟩ := ofWord?_of_not_isValue (not_isValue_assignment option value)
  have hoption := Level.option?_eq_some_iff.mpr ⟨h, rfl⟩
  rw [scan.eq_def]
  simp only [hmode, hhelp, Option.isSome_none, Bool.false_eq_true, and_false, if_false,
    Shape.ofArgument_assignment, hoption, String.ofList_toList]

/-- A value that is awaited is taken, and checked later. -/
theorem scan_value (hpending : progress.pending = some (option, none)) (hvalue : IsValue value) :
    scan level progress (value :: rest) =
      scan level ⟨progress.given, some (option, some value)⟩ rest := by
  have hawaits : progress.awaitsValue = true := by
    rw [Progress.awaitsValue, hpending]
  rw [scan.eq_def]
  simp only [hawaits, not_true, false_and, and_false, if_false,
    Shape.ofArgument_eq_word_iff.mpr hvalue, hpending]

/-- What the arguments of a level end with: nothing, or two dashes, or, before the mode, the mode
with the arguments behind it. -/
inductive Ends : Level → List String → Option (Mode × List String) → Prop
  | nothing (level : Level) : Ends level [] none
  | dashes (level : Level) : Ends level ["--"] none
  | mode (mode : Mode) (rest : List String) : Ends none (mode.word :: rest) (some (mode, rest))

/-- What an argument that is not the last one of its level adds to what has been read. -/
inductive Steps (level : Level) : Progress → String → Progress → Prop
  /-- An option comes with its value. -/
  | assignment {progress : Progress} {option : Opt} {value : String} {given more : Given}
    (hoption : option ∈ level.options) (hsettle : progress.settle = .ok given)
    (hadd : given.add option value = .ok more) :
    Steps level progress (option.assignment value) ⟨more, none⟩
  /-- An option is named. -/
  | flag {progress : Progress} {option : Opt} {given : Given} (hoption : option ∈ level.options)
    (hsettle : progress.settle = .ok given) :
    Steps level progress option.flag ⟨given, some (option, none)⟩
  /-- The option that has been named gets its value. -/
  | value {option : Opt} {value : String} {given : Given} (hvalue : IsValue value) :
    Steps level ⟨given, some (option, none)⟩ value ⟨given, some (option, some value)⟩

/-- Scanning is one step, and then it goes on. -/
theorem Steps.scan_eq {next : Progress} (h : Steps level progress argument next) :
    scan level progress (argument :: rest) = scan level next rest := by
  cases h with
  | assignment hoption hsettle hadd =>
    exact (scan_assignment hoption).trans
      (bind_eq_of_ok hsettle |>.trans (bind_eq_of_ok hadd))
  | flag hoption hsettle => exact (scan_flag hoption).trans (bind_eq_of_ok hsettle)
  | value hvalue => exact scan_value rfl hvalue

/-- A level ends where nothing is awaited. -/
theorem scan_of_ends {next : Option (Mode × List String)} (h : Ends level arguments next)
    (hawaits : progress.awaitsValue = false) :
    scan level progress arguments = .ok (progress, next) := by
  cases h with
  | nothing => rfl
  | dashes =>
    have hdashes : ¬IsValue "--" := by decide
    obtain ⟨hmode, hhelp⟩ := ofWord?_of_not_isValue hdashes
    have hshape : Shape.ofArgument "--" = .escape := by decide
    rw [scan.eq_def]
    simp only [hmode, hhelp, Option.isSome_none, Bool.false_eq_true, and_false, if_false, hshape]
  | mode mode rest =>
    have hmode : Mode.ofWord? mode.word = some mode := ofWord?_eq_some_iff.mpr rfl
    rw [scan.eq_def]
    simp [hmode, hawaits]

/-- An argument at which a scan does not fail ends the level or is a step. -/
theorem scan_cons_cases {scanned : Scanned}
    (h : scan level progress (argument :: rest) = .ok scanned) :
    scanned.1 = progress ∧ Ends level (argument :: rest) scanned.2 ∨
      ∃ next, Steps level progress argument next ∧ scan level next rest = .ok scanned := by
  rw [scan.eq_def] at h
  dsimp only at h
  -- the cases follow the scan: a mode, the word `help`, and then the shapes of an argument
  split at h
  case isTrue hmode =>
    obtain ⟨rfl, -, hword⟩ := hmode
    obtain ⟨mode, hmode⟩ := Option.isSome_iff_exists.mp hword
    obtain rfl := ofWord?_eq_some_iff.mp hmode
    rw [hmode] at h
    cases h
    exact .inl ⟨rfl, .mode mode rest⟩
  split at h
  case isTrue => cases h
  split at h
  case h_1 hshape =>
    obtain rfl := Shape.eq_of_escape hshape
    cases rest with
    | nil =>
      cases h
      exact .inl ⟨rfl, .dashes level⟩
    | cons stray rest => cases h
  case h_2 name text hshape =>
    have htext := Shape.toList_of_long hshape
    split at h
    case h_1 option value hfound =>
      obtain ⟨hoption, rfl⟩ := Level.option?_eq_some_iff.mp hfound
      obtain rfl : argument = option.assignment (String.ofList value) := by
        rw [← String.toList_inj, htext]
        simp [Opt.assignment, Opt.flag]
      obtain ⟨given, hsettle, hnext⟩ := bind_eq_ok_iff.mp h
      obtain ⟨more, hadd, hnext⟩ := bind_eq_ok_iff.mp hnext
      exact .inr ⟨_, .assignment hoption hsettle hadd, hnext⟩
    case h_2 option hfound =>
      obtain ⟨hoption, rfl⟩ := Level.option?_eq_some_iff.mp hfound
      obtain rfl : argument = option.flag := by
        rw [← String.toList_inj, htext]
        simp [Opt.flag]
      obtain ⟨given, hsettle, hnext⟩ := bind_eq_ok_iff.mp h
      exact .inr ⟨_, .flag hoption hsettle, hnext⟩
    case h_3 => split at h <;> cases h
  case h_3 => split at h <;> cases h
  case h_4 hshape =>
    split at h
    case h_1 option hpending =>
      obtain ⟨given, pending⟩ := progress
      cases hpending
      exact .inr ⟨_, .value (Shape.ofArgument_eq_word_iff.mp hshape), h⟩
    case h_2 => cases h

/-! ## A whole level -/

/-- Whether every value has passed the check of its option. -/
def AreAccepted (given : Given) : Prop :=
  ∀ entry ∈ given, entry.1.refuses? entry.2 = none

/-- Whether options with values are admitted at a level: the level has them, none is given twice,
and the values have passed their checks. -/
structure Level.Admits (level : Level) (given : Given) : Prop where
  options : ∀ entry ∈ given, entry.1 ∈ level.options
  nodup : (given.map Prod.fst).Nodup
  accepted : AreAccepted given

/-- Nothing is admitted everywhere. -/
theorem Level.admits_nil : level.Admits [] :=
  ⟨List.forall_mem_nil _, List.nodup_nil, List.forall_mem_nil _⟩

/-- What has been admitted with more behind it is admitted. -/
theorem Level.Admits.of_append (h : level.Admits (given ++ more)) : level.Admits given :=
  ⟨fun entry hentry => h.options entry (List.mem_append_left more hentry),
    (List.nodup_append.mp (List.map_append ▸ h.nodup)).1,
    fun entry hentry => h.accepted entry (List.mem_append_left more hentry)⟩

/-- One more option is admitted if the level has it, nobody has given it, and it takes its value. -/
theorem Level.admits_concat_iff :
    level.Admits (given ++ [(option, value)]) ↔
      level.Admits given ∧ option ∈ level.options ∧ (∀ entry ∈ given, entry.1 ≠ option) ∧
        option.refuses? value = none := by
  constructor
  · intro h
    have hnodup := h.nodup
    rw [List.map_append, List.map_singleton, List.nodup_append] at hnodup
    refine ⟨h.of_append, h.options (option, value) (by simp), fun entry hentry => ?_,
      h.accepted (option, value) (by simp)⟩
    exact hnodup.2.2 _ (List.mem_map_of_mem hentry) _ (List.mem_singleton.mpr rfl)
  · rintro ⟨h, hoption, hne, hcheck⟩
    refine ⟨List.forall_mem_append.mpr ⟨h.options, List.forall_mem_singleton.mpr hoption⟩, ?_,
      List.forall_mem_append.mpr ⟨h.accepted, List.forall_mem_singleton.mpr hcheck⟩⟩
    rw [List.map_append, List.map_singleton, List.nodup_append]
    refine ⟨h.nodup, List.pairwise_singleton _ option, fun other hother _ hlast => ?_⟩
    obtain ⟨entry, hentry, rfl⟩ := List.mem_map.mp hother
    rw [List.mem_singleton.mp hlast]
    exact hne entry hentry

/-- An option is accepted exactly if the level admits it besides those that have been given. -/
theorem Given.add_eq_ok_iff (h : level.Admits given) (hoption : option ∈ level.options) :
    given.add option value = .ok more ↔
      more = given ++ [(option, value)] ∧ level.Admits more := by
  have hany : given.any (·.1 == option) = true ↔ ¬∀ entry ∈ given, entry.1 ≠ option := by
    simp
  rw [Given.add]
  split_ifs with hgiven
  · rw [hany] at hgiven
    simp only [false_iff]
    rintro ⟨rfl, hadmits⟩
    exact hgiven (Level.admits_concat_iff.mp hadmits).2.2.1
  · rw [hany, not_not] at hgiven
    cases hcheck : option.refuses? value with
    | some refusal =>
      simp only [reduceCtorEq, false_iff]
      rintro ⟨rfl, hadmits⟩
      have haccepted := (Level.admits_concat_iff.mp hadmits).2.2.2
      rw [hcheck] at haccepted
      cases haccepted
    | none =>
      simp only [Except.ok.injEq]
      constructor
      · rintro rfl
        exact ⟨rfl, Level.admits_concat_iff.mpr ⟨h, hoption, hgiven, hcheck⟩⟩
      · rintro ⟨rfl, -⟩
        rfl

namespace Progress

/-- The option that has been named without a value. -/
def awaited (progress : Progress) : Option Opt :=
  match progress.pending with
  | some (option, none) => some option
  | _ => none

/-- All options that have been read with their values, the last one included. -/
def entries (progress : Progress) : Given :=
  match progress.pending with
  | some (option, some value) => progress.given ++ [(option, value)]
  | _ => progress.given

/-- Whether what has been read belongs to a level. -/
structure Fits (level : Level) (progress : Progress) : Prop where
  admits : level.Admits progress.given
  pending : ∀ entry ∈ progress.pending, entry.1 ∈ level.options

/-- What is pending is settled exactly if it has its value and is admitted. -/
theorem settle_eq_ok_iff (h : progress.Fits level) :
    progress.settle = .ok given ↔
      progress.awaited = none ∧ given = progress.entries ∧ level.Admits given := by
  obtain ⟨hadmits, hpending⟩ := h
  rw [settle, awaited, entries]
  rcases hcase : progress.pending with _ | ⟨option, _ | value⟩
  · simp only [Except.ok.injEq, true_and]
    constructor
    · rintro rfl
      exact ⟨rfl, hadmits⟩
    · exact fun h => h.1.symm
  · simp
  · simp only [true_and]
    exact Given.add_eq_ok_iff hadmits (hpending (option, some value) (by simp [hcase]))

/-- Where no value is awaited, what has been read is settled. -/
theorem awaitsValue_eq_false_iff : progress.awaitsValue = false ↔ progress.awaited = none := by
  rw [awaitsValue, awaited]
  rcases progress.pending with _ | ⟨option, _ | value⟩ <;> simp

end Progress

/-- A step leaves a progress that fits the level. -/
theorem Steps.fits {next : Progress} (h : Steps level progress argument next)
    (hfits : progress.Fits level) : next.Fits level := by
  cases h with
  | assignment hoption hsettle hadd =>
    obtain ⟨-, -, hadmits⟩ := (Progress.settle_eq_ok_iff hfits).mp hsettle
    exact ⟨((Given.add_eq_ok_iff hadmits hoption).mp hadd).2, by simp⟩
  | flag hoption hsettle =>
    obtain ⟨-, -, hadmits⟩ := (Progress.settle_eq_ok_iff hfits).mp hsettle
    exact ⟨hadmits, by simpa using hoption⟩
  | value hvalue => exact ⟨hfits.admits, by simpa using hfits.pending⟩

/-- Whether arguments write options with their values, the first of which has been named before if
an option is awaited. -/
inductive Spells : Option Opt → List String → Given → Prop
  | nil : Spells none [] []
  | assignment {arguments : List String} {given : Given} (option : Opt) (value : String)
    (h : Spells none arguments given) :
    Spells none (option.assignment value :: arguments) ((option, value) :: given)
  | flag {arguments : List String} {given : Given} {option : Opt}
    (h : Spells (some option) arguments given) : Spells none (option.flag :: arguments) given
  | value {arguments : List String} {given : Given} (option : Opt) {value : String}
    (hvalue : IsValue value) (h : Spells none arguments given) :
    Spells (some option) (value :: arguments) ((option, value) :: given)

/-- A step reads an argument of a spelling. -/
theorem Steps.spells {next : Progress} (h : Steps level progress argument next)
    (hfits : progress.Fits level) (hspells : Spells next.awaited written more) :
    ∃ added, next.entries ++ more = progress.entries ++ added ∧
      Spells progress.awaited (argument :: written) added := by
  cases h with
  | @assignment _ option value given added hoption hsettle hadd =>
    obtain ⟨hawaited, rfl, hadmits⟩ := (Progress.settle_eq_ok_iff hfits).mp hsettle
    obtain ⟨rfl, -⟩ := (Given.add_eq_ok_iff hadmits hoption).mp hadd
    refine ⟨(option, value) :: more, List.append_assoc .., ?_⟩
    rw [hawaited]
    exact .assignment option value hspells
  | flag hoption hsettle =>
    obtain ⟨hawaited, rfl, -⟩ := (Progress.settle_eq_ok_iff hfits).mp hsettle
    refine ⟨more, rfl, ?_⟩
    rw [hawaited]
    exact .flag hspells
  | @value option _ _ hvalue =>
    exact ⟨(option, argument) :: more, List.append_assoc .., .value option hvalue hspells⟩

/-- An option that has been named is the first to get a value. -/
theorem Spells.head_eq (h : Spells (some option) written given) :
    ∃ value after, given = (option, value) :: after := by
  cases h with
  | value _ _ _ => exact ⟨_, _, rfl⟩

variable {next : Option (Mode × List String)}

/-- What is accepted at a level has been spelled. -/
theorem spells_of_scan {reached : Progress} (hfits : progress.Fits level)
    (hscan : scan level progress arguments = .ok (reached, next))
    (hsettle : reached.settle = .ok given) :
    ∃ written rest more, arguments = written ++ rest ∧ Spells progress.awaited written more ∧
      Ends level rest next ∧ given = progress.entries ++ more ∧ level.Admits given := by
  have hends {rest : List String} (hfits : reached.Fits level) (hends : Ends level rest next) :
      ∃ written rest' more, rest = written ++ rest' ∧ Spells reached.awaited written more ∧
        Ends level rest' next ∧ given = reached.entries ++ more ∧ level.Admits given := by
    obtain ⟨hawaited, hgiven, hadmits⟩ := (Progress.settle_eq_ok_iff hfits).mp hsettle
    rw [hawaited]
    exact ⟨[], rest, [], rfl, .nil, hends, by rw [hgiven, List.append_nil], hadmits⟩
  induction arguments generalizing progress with
  | nil =>
    cases hscan
    exact hends hfits (.nothing level)
  | cons argument arguments ih =>
    rcases scan_cons_cases hscan with ⟨rfl, hlast⟩ | ⟨between, hstep, hrest⟩
    · exact hends hfits hlast
    · obtain ⟨written, rest, more, rfl, hspells, hlast, hgiven, hadmits⟩ :=
        ih (hstep.fits hfits) hrest
      obtain ⟨added, hadded, hspells⟩ := hstep.spells hfits hspells
      exact ⟨argument :: written, rest, added, rfl, hspells, hlast, hgiven.trans hadded, hadmits⟩

/-- What has been spelled is accepted, if the level admits it. -/
theorem scan_of_spells {awaited : Option Opt} (hspells : Spells awaited written more)
    (hends : Ends level rest next) (hfits : progress.Fits level)
    (hawaited : progress.awaited = awaited) (hadmits : level.Admits (progress.entries ++ more)) :
    ∃ reached, scan level progress (written ++ rest) = .ok (reached, next) ∧
      reached.settle = .ok (progress.entries ++ more) := by
  -- on what is written; each step needs only that what has been read so far is admitted
  induction hspells generalizing progress with
  | nil =>
    refine ⟨progress, scan_of_ends hends (Progress.awaitsValue_eq_false_iff.mpr hawaited), ?_⟩
    rw [List.append_nil] at hadmits ⊢
    exact (Progress.settle_eq_ok_iff hfits).mpr ⟨hawaited, rfl, hadmits⟩
  | @assignment arguments given option value _ ih =>
    have hsplit : progress.entries ++ (option, value) :: given =
        progress.entries ++ [(option, value)] ++ given := List.append_cons ..
    rw [hsplit] at hadmits ⊢
    have hoption := (Level.admits_concat_iff.mp hadmits.of_append).2.1
    have hread := hadmits.of_append.of_append
    have hstep : Steps level progress (option.assignment value)
        ⟨progress.entries ++ [(option, value)], none⟩ :=
      .assignment hoption ((Progress.settle_eq_ok_iff hfits).mpr ⟨hawaited, rfl, hread⟩)
        ((Given.add_eq_ok_iff hread hoption).mpr ⟨rfl, hadmits.of_append⟩)
    rw [List.cons_append, hstep.scan_eq]
    exact ih (hstep.fits hfits) rfl hadmits
  | @flag arguments given option hspells ih =>
    obtain ⟨value, after, rfl⟩ := hspells.head_eq
    have hoption := hadmits.options (option, value) (by simp)
    have hread := hadmits.of_append
    have hstep : Steps level progress option.flag ⟨progress.entries, some (option, none)⟩ :=
      .flag hoption ((Progress.settle_eq_ok_iff hfits).mpr ⟨hawaited, rfl, hread⟩)
    rw [List.cons_append, hstep.scan_eq]
    exact ih (hstep.fits hfits) rfl hadmits
  | @value arguments given option value hvalue _ ih =>
    obtain ⟨read, pending⟩ := progress
    -- a value is awaited only by an option that was written just before it
    rcases pending with _ | ⟨option', _ | value'⟩ <;> cases hawaited
    have hstep : Steps level ⟨read, some (option, none)⟩ value
        ⟨read, some (option, some value)⟩ := .value hvalue
    have hsplit : read ++ (option, value) :: given = read ++ [(option, value)] ++ given :=
      List.append_cons ..
    rw [List.cons_append, hstep.scan_eq]
    rw [Progress.entries, hsplit] at hadmits ⊢
    exact ih (hstep.fits hfits) rfl hadmits

/-- Whether the arguments of a level are read as options with values that are admitted there, up to
the end of the level. -/
def Level.Reads (level : Level) (arguments : List String) (given : Given)
    (next : Option (Mode × List String)) : Prop :=
  level.Admits given ∧
    ∃ written rest, arguments = written ++ rest ∧ Spells none written given ∧ Ends level rest next

/-- The start fits every level. -/
theorem fits_start : Progress.start.Fits level :=
  ⟨Level.admits_nil, by simp [Progress.start]⟩

/-- A level is accepted exactly if it reads so. -/
theorem scan_start_iff :
    (∃ reached, scan level .start arguments = .ok (reached, next) ∧
        reached.settle = .ok given) ↔ level.Reads arguments given next := by
  constructor
  · rintro ⟨reached, hscan, hsettle⟩
    obtain ⟨written, rest, more, hwritten, hspells, hends, rfl, hadmits⟩ :=
      spells_of_scan fits_start hscan hsettle
    exact ⟨hadmits, written, rest, hwritten, hspells, hends⟩
  · rintro ⟨hadmits, written, rest, rfl, hspells, hends⟩
    exact scan_of_spells hspells hends fits_start rfl hadmits

/-! ## All arguments -/

/-- Behind a mode there is no other. -/
theorem Level.Reads.eq_none {mode : Mode} (h : Level.Reads (some mode) arguments given next) :
    next = none := by
  obtain ⟨-, _, _, -, -, hends⟩ := h
  cases hends <;> rfl

/-- A mode is read exactly from the arguments that spell what it is given, unless these do not go
together. -/
theorem readMode_eq_ok_iff {mode : Mode} :
    readMode mode arguments = .ok given ↔
      Level.Reads (some mode) arguments given none ∧ given.fault? mode = none := by
  constructor
  · intro h
    obtain ⟨⟨reached, next⟩, hscan, h⟩ := bind_eq_ok_iff.mp h
    obtain ⟨read, hsettle, h⟩ := bind_eq_ok_iff.mp h
    cases hfault : read.fault? mode with
    | some refusal =>
      rw [hfault] at h
      cases h
    | none =>
      rw [hfault] at h
      cases h
      have hreads := scan_start_iff.mp ⟨reached, hscan, hsettle⟩
      obtain rfl := hreads.eq_none
      exact ⟨hreads, hfault⟩
  · rintro ⟨hreads, hfault⟩
    obtain ⟨reached, hscan, hsettle⟩ := scan_start_iff.mpr hreads
    refine bind_eq_ok_iff.mpr ⟨_, hscan, bind_eq_ok_iff.mpr ⟨_, hsettle, ?_⟩⟩
    rw [hfault]

/-- Arguments are accepted exactly if they read as general options alone, or as general options, a
mode, and options of the mode and general ones that lack nothing and do not exclude each other. -/
theorem parse_eq_ok_iff :
    parse arguments = .ok request ↔
      (∃ before, Level.Reads none arguments before none ∧ request = .ofGiven before [] none) ∨
      ∃ before mode rest behind, Level.Reads none arguments before (some (mode, rest)) ∧
        Level.Reads (some mode) rest behind none ∧ behind.fault? mode = none ∧
        request = .ofGiven before behind (some (behind.task mode)) := by
  constructor
  · intro h
    obtain ⟨⟨reached, _ | ⟨mode, rest⟩⟩, hscan, h⟩ := bind_eq_ok_iff.mp h
    · obtain ⟨before, hsettle, h⟩ := bind_eq_ok_iff.mp h
      cases h
      exact .inl ⟨before, scan_start_iff.mp ⟨reached, hscan, hsettle⟩, rfl⟩
    · obtain ⟨behind, hbehind, h⟩ := bind_eq_ok_iff.mp h
      obtain ⟨before, hsettle, h⟩ := bind_eq_ok_iff.mp h
      cases h
      obtain ⟨hreads, hfault⟩ := readMode_eq_ok_iff.mp hbehind
      exact .inr ⟨before, mode, rest, behind, scan_start_iff.mp ⟨reached, hscan, hsettle⟩, hreads,
        hfault, rfl⟩
  · rintro (⟨before, hreads, rfl⟩ | ⟨before, mode, rest, behind, hreads, hbehind, hfault, rfl⟩)
    · obtain ⟨reached, hscan, hsettle⟩ := scan_start_iff.mpr hreads
      exact bind_eq_ok_iff.mpr ⟨_, hscan, bind_eq_ok_iff.mpr ⟨_, hsettle, rfl⟩⟩
    · obtain ⟨reached, hscan, hsettle⟩ := scan_start_iff.mpr hreads
      have hmode := readMode_eq_ok_iff.mpr ⟨hbehind, hfault⟩
      exact bind_eq_ok_iff.mpr ⟨_, hscan, bind_eq_ok_iff.mpr ⟨_, hmode,
        bind_eq_ok_iff.mpr ⟨_, hsettle, rfl⟩⟩⟩

end ScriptMailbox.Arguments
