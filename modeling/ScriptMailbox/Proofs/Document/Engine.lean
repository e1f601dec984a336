import ScriptMailbox.Proofs.Document.RoundTrip

/-!
# How the engine reads a document

The engine runs what stands behind the mark `//!beginusercode`. Of its lexical rules two matter
here: a comment that opens with `--[[` and a string that opens with `[[` both end at the first `]]`,
and a line break directly behind the opening of a string is not part of it. The text of a chunk line
up to its own `]]` belongs to the comment that was left open before, so the engine meets one call of
the collector for each chunk line, and hands it the piece that the line carries.
-/

namespace ScriptMailbox

open Text

namespace Engine

/-- What the engine meets when it reads a script. Comments do not count. -/
inductive Lexeme
  /-- A character of the code. -/
  | symbol (c : Char)
  /-- A long string. -/
  | text (inside : List Char)
  deriving DecidableEq, Repr

/-- A long string without the line break directly behind its opening. -/
def dropBreak : List Char → List Char
  | '\r' :: '\n' :: rest => rest
  | '\n' :: '\r' :: rest => rest
  | '\r' :: rest => rest
  | '\n' :: rest => rest
  | rest => rest

/-- What ends a long comment and a long string. -/
def closing : List Char := "]]".toList

/-- What a script consists of, unless a comment or a string in it is left open. -/
def lexemes? : List Char → Option (List Lexeme)
  | '-' :: '-' :: '[' :: '[' :: rest =>
    match h : cutAt? closing rest with
    | none => none
    | some (_, after) =>
      have := length_lt_of_cutAt? (by decide) h
      lexemes? after
  | '[' :: '[' :: rest =>
    match h : cutAt? closing rest with
    | none => none
    | some (inside, after) =>
      have := length_lt_of_cutAt? (by decide) h
      (lexemes? after).map (.text (dropBreak inside) :: ·)
  | c :: rest => (lexemes? rest).map (.symbol c :: ·)
  | [] => some []
termination_by text => text.length

/-- The part of a document that the engine runs. -/
def userCode? (document : List Char) : Option (List Char) :=
  (cutAt? "//!beginusercode".toList document).map Prod.snd

/-- The characters of a piece of code. -/
def code (text : String) : List Lexeme :=
  text.toList.map .symbol

/-- A call of the collector with a string. -/
def call (inside : List Char) : List Lexeme :=
  code "i(" ++ [.text inside] ++ code ")"

variable {text rest inside after : List Char}

/-! ## The lexical rules -/

/-- A long comment is passed over. -/
theorem lexemes?_comment (h : cutAt? closing rest = some (inside, after)) :
    lexemes? ("--[[".toList ++ rest) = lexemes? after := by
  change lexemes? ('-' :: '-' :: '[' :: '[' :: rest) = _
  rw [lexemes?]
  split
  · rename_i heq
    cases heq.symm.trans h
  · rename_i heq
    cases heq.symm.trans h
    rfl

/-- A long string is a text, without the line break at its start. -/
theorem lexemes?_text (h : cutAt? closing rest = some (inside, after)) :
    lexemes? ("[[".toList ++ rest) = (lexemes? after).map (.text (dropBreak inside) :: ·) := by
  change lexemes? ('[' :: '[' :: rest) = _
  rw [lexemes?]
  split
  · rename_i heq
    cases heq.symm.trans h
  · rename_i heq
    cases heq.symm.trans h
    rfl

/-- The characters that open neither a comment nor a string. -/
def isPlain (c : Char) : Bool :=
  c != '[' && c != '-'

/-- Plain code is read character by character. -/
theorem lexemes?_code (h : text.all isPlain = true) :
    lexemes? (text ++ rest) = (lexemes? rest).map (text.map Lexeme.symbol ++ ·) := by
  induction text with
  | nil => simp
  | cons c text ih =>
    simp only [List.all_cons, Bool.and_eq_true, isPlain, bne_iff_ne, ne_eq] at h
    obtain ⟨⟨hbracket, hhyphen⟩, htext⟩ := h
    rw [List.cons_append, lexemes?, ih htext, Option.map_map]
    · rfl
    · rintro rest rfl
      exact absurd rfl hhyphen
    · rintro rest rfl
      exact absurd rfl hbracket

/-- A text that starts with no line break is left as it is. -/
theorem dropBreak_eq_self (h : inside.head? ≠ some '\n' ∧ inside.head? ≠ some '\r') :
    dropBreak inside = inside := by
  unfold dropBreak
  split <;> simp_all

/-! ## A document in the eyes of the engine -/

/-- Behind a calm text, a long comment or string ends at the doubled bracket that follows it. -/
theorem cutAt?_closing (h : Calm ']' inside) :
    cutAt? closing (inside ++ closing ++ rest) = some (inside, rest) :=
  Calm.cutAt?_eq (by rwa [List.append_nil]) rfl

/-- The code that sets up the collector. -/
def setUp : String := "\nlocal p=\x7b\x7d local i=function(s) table.insert(p,s) end"

/-- The code that publishes what was collected. -/
def publish : String := "BlzSetAbilityTooltip(1095656547, table.concat(p), 0)"

/-- What follows the publication. -/
def ending : String :=
  "\n//!endusercode\nfunction a takes nothing returns nothing\n//\" )\n" ++
    "\tcall PreloadEnd( 0.1 )\n\nendfunction\n\n"

/-- What stands before the first `]]` of a line: the part that the comment before it swallows. -/
def swallowed : List Char := "\n\tcall Preload( \"".toList

/-! Decoding the bytes of a long literal takes the kernel seconds, so literals are turned into the
lists of their characters first. -/

/-- The letters of a text that is given by its letters. -/
theorem toList_eq {s : String} (h : s = String.ofList text) : s.toList = text := by
  rw [h, String.toList_ofList]

/-- The letters of two texts one after the other. -/
theorem toList_append_eq {s t : String} (hs : s.toList = text) (ht : t.toList = rest) :
    (s ++ t).toList = text ++ rest := by
  rw [String.toList_append, hs, ht]

/-- The prefix of a line closes the comment before it and opens a string. -/
theorem linePrefix_toList :
    Document.linePrefix.toList = swallowed ++ closing ++ "i(".toList ++ "[[".toList := by
  have hliteral : Document.linePrefix.toList = _ :=
    toList_append_eq (toList_eq rfl) (toList_eq rfl)
  rw [hliteral]
  decide

/-- The suffix of a line closes the string and opens a comment. -/
theorem lineSuffix_toList :
    Document.lineSuffix.toList = closing ++ ")".toList ++ "--[[".toList ++ "\" )".toList := by
  decide

/-- The footer closes the last comment and hands the text over. -/
theorem footer_toList :
    Document.footer.toList = swallowed ++ closing ++ (publish.toList ++ ending.toList) := by
  have hfooter : Document.footer.toList = _ :=
    toList_append_eq (toList_append_eq (toList_eq rfl) (toList_eq rfl)) (toList_eq rfl)
  have hpublish : publish.toList = _ := toList_eq rfl
  have hending : ending.toList = _ := toList_append_eq (toList_eq rfl) (toList_eq rfl)
  rw [hfooter, hpublish, hending]
  decide +kernel

/-- The code in front of the lines opens neither a comment nor a string. -/
theorem setUp_isPlain : setUp.toList.all isPlain = true := by
  have hsetUp : setUp.toList = _ := toList_eq rfl
  rw [hsetUp]
  decide

/-- Neither does the code behind them. -/
theorem publish_isPlain : (publish.toList ++ ending.toList).all isPlain = true := by
  have hpublish : publish.toList = _ := toList_eq rfl
  have hending : ending.toList = _ := toList_append_eq (toList_eq rfl) (toList_eq rfl)
  rw [hpublish, hending]
  decide +kernel

/-- What stands before the mark of the code that the engine runs. -/
def preamble : String :=
  "function PreloadFiles takes nothing returns nothing\n\n\tcall PreloadStart()\n" ++
    "\tcall Preload( \"\")\nendfunction\n"

/-- A document up to its first chunk line leaves a comment open. -/
theorem userCode?_header (more : List Char) :
    userCode? (Document.header.toList ++ more) =
      some (setUp.toList ++ ("--[[".toList ++ ("\" )\n\t".toList ++ more))) := by
  have hheader : Document.header.toList = _ :=
    toList_append_eq (toList_append_eq (toList_eq rfl) (toList_eq rfl)) (toList_eq rfl)
  have hpreamble : preamble.toList = _ := toList_append_eq (toList_eq rfl) (toList_eq rfl)
  have hsetUp : setUp.toList = _ := toList_eq rfl
  have hcut : cutAt? "//!beginusercode".toList Document.header.toList =
      some (preamble.toList, setUp.toList ++ "--[[".toList ++ "\" )\n\t".toList) := by
    rw [hheader, hpreamble, hsetUp]
    decide +kernel
  rw [userCode?, cutAt?_append_right (by decide) hcut, Option.map_some]
  simp only [List.append_assoc]

variable {piece lead more : List Char} {pieces : List (List Char)}

/-- A comment that is left open swallows the next line up to its first `]]`. -/
theorem lexemes?_swallowed (hlead : Calm ']' lead) :
    lexemes? ("--[[".toList ++ (lead ++ (swallowed ++ (closing ++ more)))) = lexemes? more := by
  have hcalm : Calm ']' (lead ++ swallowed) := hlead.append (by decide)
  have hcut : cutAt? closing (lead ++ (swallowed ++ (closing ++ more))) =
      some (lead ++ swallowed, more) := by
    rw [← List.append_assoc, ← List.append_assoc]
    exact cutAt?_closing hcalm
  exact lexemes?_comment hcut

/-- Behind that, a chunk line is a call with its piece. -/
theorem lexemes?_call (hpiece : Calm ']' piece)
    (hstart : piece.head? ≠ some '\n' ∧ piece.head? ≠ some '\r') :
    lexemes? ("i(".toList ++ ("[[".toList ++ (piece ++ (closing ++ (")".toList ++ more))))) =
      (lexemes? more).map (call piece ++ ·) := by
  have hcut : cutAt? closing (piece ++ (closing ++ (")".toList ++ more))) =
      some (piece, ")".toList ++ more) := by
    rw [← List.append_assoc]
    exact cutAt?_closing hpiece
  rw [lexemes?_code (by decide), lexemes?_text hcut, lexemes?_code (by decide), Option.map_map,
    Option.map_map, dropBreak_eq_self hstart]
  simp only [call, code, Function.comp_def, List.append_assoc, List.cons_append,
    List.nil_append]

/-- From inside a comment, the engine reads one call for each chunk line and then the code that
publishes. -/
theorem lexemes?_lines (hlead : Calm ']' lead) (hcalm : ∀ piece ∈ pieces, Calm ']' piece)
    (hstart : ∀ piece ∈ pieces, piece.head? ≠ some '\n' ∧ piece.head? ≠ some '\r') :
    lexemes? ("--[[".toList ++
        (lead ++ (pieces.flatMap Document.chunkLine ++ Document.footer.toList))) =
      some (pieces.flatMap call ++ (code publish ++ code ending)) := by
  induction pieces generalizing lead with
  | nil =>
    rw [List.flatMap_nil, List.nil_append, footer_toList, List.append_assoc,
      lexemes?_swallowed hlead, ← List.append_nil (publish.toList ++ ending.toList),
      lexemes?_code publish_isPlain, lexemes?, Option.map_some, List.append_nil, List.map_append]
    rfl
  | cons piece pieces ih =>
    have hsuffix : Calm ']' "\" )".toList := by decide
    have hread := ih hsuffix (fun piece hmem => hcalm piece (List.mem_cons_of_mem _ hmem))
      fun piece hmem => hstart piece (List.mem_cons_of_mem _ hmem)
    rw [List.flatMap_cons, Document.chunkLine, linePrefix_toList, lineSuffix_toList]
    simp only [List.append_assoc]
    rw [lexemes?_swallowed hlead, lexemes?_call (hcalm piece List.mem_cons_self)
      (hstart piece List.mem_cons_self), hread, Option.map_some, List.flatMap_cons,
      List.append_assoc]

/-- The engine meets these pieces in a document. -/
structure Meets (document : List Char) (pieces : List (List Char)) : Prop where
  ne_nil : pieces ≠ []
  /-- The document is the header, a line for each piece, and the footer. -/
  lines : document =
    Document.header.toList ++ pieces.flatMap Document.chunkLine ++ Document.footer.toList
  /-- The engine sets up the collector, calls it once for each piece, and publishes. -/
  lexemes : (userCode? document).bind lexemes? =
    some (code setUp ++ (pieces.flatMap call ++ (code publish ++ code ending)))
  /-- No piece is empty or longer than 255 characters. -/
  length : ∀ piece ∈ pieces, 1 ≤ piece.length ∧ piece.length ≤ 255

/-- In the document of a payload, the engine meets pieces that together are the payload. -/
theorem meets_of_write {payload : Payload} {document : String}
    (h : Document.write payload = .ok document) :
    ∃ pieces, Meets document.toList pieces ∧
      Utf8.encode (String.ofList pieces.flatten) = payload.bytes := by
  obtain ⟨text, pieces, rfl, hne, hpieces, rfl⟩ := Document.write_eq_ok_iff.mp h
  obtain ⟨hclosing, hcut, -⟩ := Document.chunks?_eq_ok hpieces
  refine ⟨pieces, ⟨?_, String.toList_ofList, ?_, ?_⟩, ?_⟩
  · rintro rfl
    exact hne (String.toList_eq_nil_iff.mp hcut.flatten_eq.symm)
  · rw [String.toList_ofList, Document.render, List.append_assoc, userCode?_header,
      Option.bind_some, lexemes?_code setUp_isPlain, lexemes?_lines (by decide) (hcut.calm hclosing)
        fun piece hmem => (hcut.admissible piece hmem).head?_ne,
      Option.map_some, ← code]
  · intro piece hmem
    have hpiece := hcut.admissible piece hmem
    exact ⟨List.length_pos_iff.mpr hpiece.ne_nil, hpiece.length_le⟩
  · rw [hcut.flatten_eq, String.ofList_toList, Payload.ofText]

/-- Openings of comments and strings inside a piece do not mislead the engine. -/
theorem meets_of_write_openings :
    Document.write (.ofText (String.ofList "a[[b --[[c]d\r\n".toList)) =
        .ok (String.ofList (Document.render ["a[[b --[[c]d\r\n".toList])) ∧
      ∃ pieces, Meets (String.ofList (Document.render ["a[[b --[[c]d\r\n".toList])).toList pieces ∧
        Utf8.encode (String.ofList pieces.flatten) =
          (Payload.ofText (String.ofList "a[[b --[[c]d\r\n".toList)).bytes := by
  have hchunks : Document.chunks? "a[[b --[[c]d\r\n".toList = .ok ["a[[b --[[c]d\r\n".toList] := by
    decide +kernel
  have hwrite := Document.write_ofList (by decide) hchunks
  exact ⟨hwrite, meets_of_write hwrite⟩

end Engine

end ScriptMailbox
