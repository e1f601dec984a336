import ScriptMailbox.Source.Span
import ScriptMailbox.Text.Decimal
import Mathlib.Data.List.Basic

/-!
# Reading JSON

A reader of JSON texts, numbers and objects of these, written down apart from what the program
writes: it knows all escapes, with surrogate pairs, and takes no control character between quotes.
Whatever is quoted is read as what it was (`scalar?_quote`), and so is the JSON of a span
(`object?_json`). Neither has a line break, nor any other control character.
-/

namespace ScriptMailbox.Text.Json

open Quoted

/-! ## The reader -/

/-- The value of a hexadecimal digit. -/
def hexValue? (c : Char) : Option ℕ :=
  if c.isDigit then some (c.toNat - '0'.toNat)
  else if 'a' ≤ c ∧ c ≤ 'f' then some (c.toNat - 'a'.toNat + 10)
  else if 'A' ≤ c ∧ c ≤ 'F' then some (c.toNat - 'A'.toNat + 10)
  else none

/-- The number of the four hexadecimal digits in front, and what follows. -/
def codeUnit? : List Char → Option (ℕ × List Char)
  | a :: b :: c :: d :: rest => do
    let a ← hexValue? a
    let b ← hexValue? b
    let c ← hexValue? c
    let d ← hexValue? d
    some (4096 * a + 256 * b + 16 * c + d, rest)
  | _ => none

/-- The character behind `\u`, which may take two units. -/
def codePoint? (text : List Char) : Option (Char × List Char) := do
  let (unit, rest) ← codeUnit? text
  if 0xD800 ≤ unit ∧ unit < 0xDC00 then
    match rest with
    | '\\' :: 'u' :: rest => do
      let (low, rest) ← codeUnit? rest
      if 0xDC00 ≤ low ∧ low < 0xE000 then
        some (Char.ofNat (0x10000 + 1024 * (unit - 0xD800) + (low - 0xDC00)), rest)
      else none
    | _ => none
  else if 0xDC00 ≤ unit ∧ unit < 0xE000 then none
  else some (Char.ofNat unit, rest)

/-- The character that a short escape stands for. -/
def shortEscape? : Char → Option Char
  | '"' => some '"'
  | '\\' => some '\\'
  | '/' => some '/'
  | 'b' => some '\x08'
  | 'f' => some '\x0c'
  | 'n' => some '\n'
  | 'r' => some '\r'
  | 't' => some '\t'
  | _ => none

/-- The first character of what stands between quotes, and what follows. -/
def character? : List Char → Option (Char × List Char)
  | '\\' :: 'u' :: rest => codePoint? rest
  | '\\' :: c :: rest => (shortEscape? c).map (·, rest)
  | c :: rest => if c = '"' ∨ c = '\\' ∨ c.toNat < 0x20 then none else some (c, rest)
  | [] => none

/-- Reading a code unit uses up some of the text. This and the next lemmas make the readers end. -/
theorem codeUnit?_length {text rest : List Char} {unit : ℕ}
    (h : codeUnit? text = some (unit, rest)) : rest.length < text.length := by
  rw [codeUnit?.eq_def] at h
  split at h
  · simp only [Option.bind_eq_bind, Option.bind_eq_some_iff, Option.some.injEq,
      Prod.mk.injEq] at h
    obtain ⟨_, -, _, -, _, -, _, -, -, rfl⟩ := h
    simp only [List.length_cons]
    omega
  · cases h

/-- Reading a code point uses up some of the text. -/
theorem codePoint?_length {text rest : List Char} {c : Char}
    (h : codePoint? text = some (c, rest)) : rest.length < text.length := by
  rw [codePoint?, Option.bind_eq_bind, Option.bind_eq_some_iff] at h
  obtain ⟨⟨unit, behind⟩, hunit, h⟩ := h
  have hlength := codeUnit?_length hunit
  dsimp only at h
  split_ifs at h
  · split at h
    · obtain ⟨⟨low, last⟩, hlow, h⟩ := Option.bind_eq_some_iff.mp h
      have hless := codeUnit?_length hlow
      dsimp only at h
      split_ifs at h
      obtain ⟨-, rfl⟩ := Prod.mk.inj (Option.some.inj h)
      simp only [List.length_cons] at hlength
      omega
    · cases h
  · cases h
    exact hlength

/-- A character takes up some of the text. -/
theorem character?_length {text rest : List Char} {c : Char}
    (h : character? text = some (c, rest)) : rest.length < text.length := by
  rw [character?.eq_def] at h
  split at h
  · have := codePoint?_length h
    simp only [List.length_cons]
    omega
  · obtain ⟨c, -, hrest⟩ := Option.map_eq_some_iff.mp h
    cases hrest
    simp only [List.length_cons]
    omega
  · split_ifs at h
    cases h
    simp only [List.length_cons]
    omega
  · cases h

/-- What stands before the closing quote, and what follows that. -/
def unquote? : List Char → Option (List Char × List Char)
  | '"' :: rest => some ([], rest)
  | text =>
    match h : character? text with
    | none => none
    | some (c, rest) =>
      have := character?_length h
      (unquote? rest).map fun (inside, after) => (c :: inside, after)
termination_by text => text.length

/-- The inside of a string is read character by character. -/
theorem unquote?_of_character? {text rest : List Char} {c : Char}
    (h : character? text = some (c, rest)) :
    unquote? text = (unquote? rest).map fun (inside, after) => (c :: inside, after) := by
  rw [unquote?.eq_def]
  split
  · cases h
  · split <;> simp_all

/-- What is read up to the closing quote takes up some of the text. -/
theorem unquote?_length {text inside after : List Char}
    (h : unquote? text = some (inside, after)) : after.length < text.length := by
  induction text using unquote?.induct generalizing inside with
  | case1 rest =>
    rw [unquote?] at h
    cases h
    exact Nat.lt_succ_self _
  | case2 text _ hnone =>
    rw [unquote?.eq_def] at h
    split at h
    · rename_i hother
      exact absurd rfl (hother _)
    · split at h <;> simp_all
  | case3 text _ c rest hsome _ ih =>
    rw [unquote?_of_character? hsome] at h
    obtain ⟨⟨more, _⟩, hmore, heq⟩ := Option.map_eq_some_iff.mp h
    cases heq
    exact Nat.lt_trans (ih hmore) (character?_length hsome)

/-- A text or a number. -/
inductive Scalar
  | text (value : String)
  | number (value : ℕ)
  deriving DecidableEq, Repr

/-- The text or the number in front, and what follows. -/
def value? : List Char → Option (Scalar × List Char)
  | '"' :: rest => (unquote? rest).map fun (inside, after) => (.text (String.ofList inside), after)
  | text =>
    if text.takeWhile Char.isDigit = [] then none
    else some (.number (Nat.ofDigitChars 10 (text.takeWhile Char.isDigit) 0),
      text.dropWhile Char.isDigit)

/-- The text or the number that a whole JSON text is. -/
def scalar? (text : List Char) : Option Scalar :=
  match value? text with
  | some (value, []) => some value
  | _ => none

/-- The name and the value of the member in front, and what follows. -/
def member? (text : List Char) : Option ((String × Scalar) × List Char) :=
  match value? text with
  | some (.text name, ':' :: rest) => (value? rest).map fun (value, after) => ((name, value), after)
  | _ => none

/-- Reading a value uses up some of the text. -/
theorem value?_length {text after : List Char} {value : Scalar}
    (h : value? text = some (value, after)) : after.length < text.length := by
  rw [value?.eq_def] at h
  split at h
  · obtain ⟨⟨inside, _⟩, hinside, heq⟩ := Option.map_eq_some_iff.mp h
    cases heq
    exact Nat.lt_trans (unquote?_length hinside) (Nat.lt_succ_self _)
  · split_ifs at h with hdigits
    cases h
    have hlength := congrArg List.length
      (List.takeWhile_append_dropWhile (p := Char.isDigit) (l := text))
    have hpos := List.length_pos_iff.mpr hdigits
    rw [List.length_append] at hlength
    omega

/-- Reading a member uses up some of the text. -/
theorem member?_length {text after : List Char} {member : String × Scalar}
    (h : member? text = some (member, after)) : after.length < text.length := by
  rw [member?] at h
  split at h
  · rename_i hname
    obtain ⟨⟨value, _⟩, hvalue, heq⟩ := Option.map_eq_some_iff.mp h
    cases heq
    have hless := value?_length hname
    have hrest := value?_length hvalue
    rw [List.length_cons] at hless
    omega
  · cases h

/-- The members of an object, behind its opening brace. -/
def members? (text : List Char) : Option (List (String × Scalar)) :=
  match h : member? text with
  | some (member, ',' :: rest) =>
    have := member?_length h
    have : rest.length < text.length := by
      rw [List.length_cons] at this
      omega
    (members? rest).map (member :: ·)
  | some (member, ['\x7d']) => some [member]
  | _ => none
termination_by text.length

/-- The members of the object that a whole JSON text is. -/
def object? : List Char → Option (List (String × Scalar))
  | '\x7b' :: rest => members? rest
  | _ => none

/-! ## Reading what is quoted -/

/-- The digits that are written have the values that they are written for. -/
theorem hexValue?_hexDigit : ∀ n < 16, hexValue? (hexDigit n) = some n := by decide

/-- An escaped character is read as that character. -/
theorem character?_escape (c : Char) (rest : List Char) :
    character? (escape c ++ rest) = some (c, rest) := by
  rw [escape]
  split_ifs with hquote hback hfeed hreturn htab hb hf hcontrol
  · rw [hquote]; rfl
  · rw [hback]; rfl
  · rw [hfeed]; rfl
  · rw [hreturn]; rfl
  · rw [htab]; rfl
  · rw [hb]; rfl
  · rw [hf]; rfl
  · have hunit : codeUnit? ('0' :: '0' :: hexDigit (c.toNat / 16) :: hexDigit (c.toNat % 16) ::
        rest) = some (c.toNat, rest) := by
      have hhigh := hexValue?_hexDigit (c.toNat / 16) (by omega)
      have hlow := hexValue?_hexDigit (c.toNat % 16) (by omega)
      have hzero : hexValue? '0' = some 0 := by decide
      have hsum : 4096 * 0 + 256 * 0 + 16 * (c.toNat / 16) + c.toNat % 16 = c.toNat := by omega
      simp only [codeUnit?, hhigh, hlow, hzero, Option.bind_eq_bind, Option.bind_some, hsum]
    show codePoint? ('0' :: '0' :: hexDigit (c.toNat / 16) :: hexDigit (c.toNat % 16) :: rest) = _
    rw [codePoint?, hunit, Option.bind_eq_bind, Option.bind_some]
    dsimp only
    rw [if_neg (by omega), if_neg (by omega), Char.ofNat_toNat]
  · rw [List.singleton_append, character?.eq_def]
    split <;> simp_all

/-- Escaped characters are read up to the closing quote. -/
theorem unquote?_escape (text rest : List Char) :
    unquote? (text.flatMap escape ++ '"' :: rest) = some (text, rest) := by
  induction text with
  | nil => rw [List.flatMap_nil, List.nil_append, unquote?]
  | cons c text ih =>
    rw [List.flatMap_cons, List.append_assoc, unquote?_of_character? (character?_escape c _), ih,
      Option.map_some]

/-- A string that has been written is read as its text, and nothing behind it is. -/
theorem value?_encode (text rest : List Char) :
    value? (encode text ++ rest) = some (.text (String.ofList text), rest) := by
  rw [encode, List.cons_append, List.cons_append, List.append_assoc, List.singleton_append, value?,
    unquote?_escape, Option.map_some]

/-- A quoted text is read as that text. -/
theorem scalar?_quote (text : String) : scalar? (quote text).toList = some (.text text) := by
  rw [quote, String.toList_ofList, scalar?, ← List.append_nil (encode text.toList), value?_encode,
    String.ofList_toList]

/-! ## Reading numbers -/

/-- A number is written with digits only. -/
theorem isDigit_of_mem_digits {n : ℕ} {c : Char} (h : c ∈ Decimal.digits n) : c.isDigit = true :=
  Nat.isDigit_of_mem_toDigits (by decide) (by decide) h

/-- Digits are read as their number, up to something else. -/
theorem value?_digits (n : ℕ) {rest : List Char} (hrest : ∀ c ∈ rest.head?, c.isDigit = false) :
    value? (Decimal.digits n ++ rest) = some (.number n, rest) := by
  have hne : Decimal.digits n ≠ [] := Nat.toDigits_ne_nil
  have htake : (Decimal.digits n ++ rest).takeWhile Char.isDigit = Decimal.digits n := by
    rw [List.takeWhile_append_of_pos fun c => isDigit_of_mem_digits]
    cases rest with
    | nil => simp
    | cons c rest => simp [hrest c rfl]
  have hdrop : (Decimal.digits n ++ rest).dropWhile Char.isDigit = rest := by
    rw [List.dropWhile_append_of_pos fun c => isDigit_of_mem_digits]
    cases rest with
    | nil => rfl
    | cons c rest => rw [List.dropWhile_cons_of_neg (by simp [hrest c rfl])]
  have hvalue : Nat.ofDigitChars 10 (Decimal.digits n) 0 = n := Nat.ofDigitChars_ten_toDigits
  rw [value?.eq_def]
  split
  · rename_i inside heq
    have hquote := isDigit_of_mem_digits (n := n) (c := '"') (by
      obtain ⟨c, digits, hdigits⟩ := List.exists_cons_of_ne_nil hne
      rw [hdigits, List.cons_append, List.cons.injEq] at heq
      rw [hdigits, heq.1]
      exact List.mem_cons_self)
    cases hquote
  · rw [htake, hdrop, hvalue, if_neg hne]

/-- A number is written in decimal digits. -/
theorem toList_toString (n : ℕ) : (toString n).toList = Decimal.digits n := by
  rw [Nat.toString_eq_repr, Nat.toList_repr, Decimal.digits]

/-- A number that has been written is read as that number. -/
theorem scalar?_toString (n : ℕ) : scalar? (toString n).toList = some (.number n) := by
  rw [toList_toString, scalar?, ← List.append_nil (Decimal.digits n), value?_digits n (by simp)]

/-! ## Reading a span -/

variable {name rest written : List Char} {value : Scalar}

/-- A member that has been written is read with its name and its value. -/
theorem member?_eq (h : value? written = some (value, rest)) :
    member? (encode name ++ ':' :: written) = some ((String.ofList name, value), rest) := by
  simp only [member?, value?_encode, h, Option.map_some]

/-- More members follow behind a comma. -/
theorem members?_comma (h : value? written = some (value, ',' :: rest)) :
    members? (encode name ++ ':' :: written) =
      (members? rest).map ((String.ofList name, value) :: ·) := by
  have hmember : member? (encode name ++ ':' :: written) = some ((String.ofList name, value), _) :=
    member?_eq h
  rw [members?]
  split
  · rename_i hread
    cases hmember.symm.trans hread
    rfl
  · rename_i hread
    cases hmember.symm.trans hread
  · rename_i hother _
    exact absurd hmember (hother _ _)

/-- The last member is the one with the brace behind it. -/
theorem members?_last (h : value? written = some (value, ['\x7d'])) :
    members? (encode name ++ ':' :: written) = some [(String.ofList name, value)] := by
  have hmember : member? (encode name ++ ':' :: written) = some ((String.ofList name, value), _) :=
    member?_eq h
  rw [members?]
  split
  · rename_i hread
    cases hmember.symm.trans hread
  · rename_i hread
    cases hmember.symm.trans hread
    rfl
  · rename_i hother
    exact absurd hmember (hother _)

/-- The JSON of a span is read as its offsets and its text. -/
theorem object?_json (span : Span) :
    object? span.json.toList = some [("start", .number span.start), ("end", .number span.stop),
      ("text", .text span.text)] := by
  have hjson : span.json.toList = '\x7b' :: (encode "start".toList ++ ':' ::
      (Decimal.digits span.start ++ ',' :: (encode "end".toList ++ ':' ::
        (Decimal.digits span.stop ++ ',' :: (encode "text".toList ++ ':' ::
          (encode span.text.toList ++ ['\x7d'])))))) := by
    have hstart : "\x7b\"start\":".toList = '\x7b' :: (encode "start".toList ++ [':']) := by decide
    have hend : ",\"end\":".toList = ',' :: (encode "end".toList ++ [':']) := by decide
    have htext : ",\"text\":".toList = ',' :: (encode "text".toList ++ [':']) := by decide
    have hbrace : "\x7d".toList = ['\x7d'] := by decide
    simp only [Span.json, String.toList_append, toList_toString, quote, String.toList_ofList,
      hstart, hend, htext, hbrace, List.append_assoc, List.cons_append, List.nil_append]
  rw [hjson, object?, members?_comma (value?_digits span.start (by simp)),
    members?_comma (value?_digits span.stop (by simp)), members?_last (value?_encode _ _)]
  simp

/-! ## Control characters -/

/-- Whether a text has no control character below U+0020. -/
def IsPlain (text : List Char) : Prop :=
  ∀ c ∈ text, 0x20 ≤ c.toNat

instance (text : List Char) : Decidable (IsPlain text) :=
  List.decidableBAll (fun c : Char => 0x20 ≤ c.toNat) text

variable {text more : List Char}

/-- A text has no control character exactly when its parts have none. -/
theorem isPlain_append_iff : IsPlain (text ++ more) ↔ IsPlain text ∧ IsPlain more :=
  List.forall_mem_append

/-- A text without control characters has no line feed. -/
theorem IsPlain.not_mem (h : IsPlain text) : '\n' ∉ text :=
  fun hmem => absurd (h _ hmem) (by decide)

/-- An escaped character is written without control characters, also if it is one. -/
theorem isPlain_escape (c : Char) : IsPlain (escape c) := by
  have hdigit : ∀ n < 16, 0x20 ≤ (hexDigit n).toNat := by decide
  rw [escape]
  split_ifs with _ _ _ _ _ _ _ hcontrol
  all_goals try decide
  · have hhigh := hdigit (c.toNat / 16) (by omega)
    have hlow := hdigit (c.toNat % 16) (by omega)
    simp [IsPlain, hhigh, hlow]
  · exact List.forall_mem_singleton.mpr (Nat.not_lt.mp hcontrol)

/-- So is a string. -/
theorem isPlain_encode (text : List Char) : IsPlain (encode text) := by
  have hinside : IsPlain (text.flatMap escape) := by
    intro c hmem
    obtain ⟨d, -, hc⟩ := List.mem_flatMap.mp hmem
    exact isPlain_escape d c hc
  have hquote : IsPlain ['"'] := by decide
  rw [encode, ← List.singleton_append]
  exact isPlain_append_iff.mpr ⟨isPlain_append_iff.mpr ⟨hquote, hinside⟩, hquote⟩

/-- The same for a text that is quoted. -/
theorem isPlain_quote (text : String) : IsPlain (quote text).toList := by
  rw [quote, String.toList_ofList]
  exact isPlain_encode _

/-- Digits are no control characters. -/
theorem isPlain_digits (n : ℕ) : IsPlain (Decimal.digits n) := by
  intro c hmem
  have hdigit := isDigit_of_mem_digits hmem
  have hzero : '0'.toNat = 0x30 := rfl
  rw [Char.isDigit_iff_toNat, hzero] at hdigit
  omega

/-- So a number is written without them. -/
theorem isPlain_toString (n : ℕ) : IsPlain (toString n).toList := by
  rw [toList_toString]
  exact isPlain_digits n

/-- A span is written without control characters, whatever its text is. -/
theorem isPlain_json (span : Span) : IsPlain span.json.toList := by
  have hstart : IsPlain "\x7b\"start\":".toList := by decide
  have hend : IsPlain ",\"end\":".toList := by decide
  have htext : IsPlain ",\"text\":".toList := by decide
  have hbrace : IsPlain "\x7d".toList := by decide
  simp only [Span.json, String.toList_append, isPlain_append_iff, hstart, hend, htext, hbrace,
    isPlain_toString, isPlain_quote, and_self]

end ScriptMailbox.Text.Json
