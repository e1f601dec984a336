import ScriptMailbox.Proofs.Document.Closing
import ScriptMailbox.Proofs.Document.Cuts

/-!
# Reading what was written

The pieces of an admissible cut are calm about closing brackets. So in the bytes of a document the
openers are those of its chunk lines, the first closer behind each of them ends that line, and a
reader finds the pieces that the writer has cut.
-/

namespace ScriptMailbox.Document

open Text

/-- The bytes of a chunk line. -/
def lineBytes (chunk : Bytes) : Bytes :=
  Utf8.encode linePrefix ++ chunk ++ closerBytes

variable {chunk rest : Bytes} {text : List Char} {pieces : List (List Char)}

/-! ## One chunk line -/

/-- The prefix of a line ends with an opener. -/
theorem linePrefix_eq : Utf8.encode linePrefix = Utf8.encode "\n\t" ++ openerBytes := by
  rw [linePrefix, openerBytes, Utf8.encode_eq_flatMap, String.toList_append, List.flatMap_append,
    ← Utf8.encode_eq_flatMap, ← Utf8.encode_eq_flatMap]

/-- An opener has a doubled closing bracket inside, which no calm text has. -/
theorem openerBytes_eq :
    openerBytes = Utf8.encode "call Preload( \"" ++ [0x5D, 0x5D] ++ Utf8.encode "i([[" := by
  decide

/-- A closer starts with one. -/
theorem closerBytes_eq : closerBytes = [] ++ [0x5D, 0x5D] ++ Utf8.encode ")--[[\" )" := by
  decide

/-- The first opener of a chunk line is its own. -/
theorem cutAt?_opener_line :
    cutAt? openerBytes (lineBytes chunk ++ rest) =
      some (Utf8.encode "\n\t", chunk ++ closerBytes ++ rest) := by
  have hcalm : Calm (0x5D : UInt8) (Utf8.encode "\n\t" ++ Utf8.encode "call Preload( \"") := by
    decide
  have hcut : cutAt? openerBytes
        (Utf8.encode "\n\t" ++ openerBytes ++ (chunk ++ closerBytes ++ rest)) =
      some (Utf8.encode "\n\t", chunk ++ closerBytes ++ rest) :=
    hcalm.cutAt?_eq openerBytes_eq
  simpa only [lineBytes, linePrefix_eq, List.append_assoc] using hcut

/-- The first closer behind a calm chunk ends it. -/
theorem cutAt?_closer_chunk (hchunk : Calm (0x5D : UInt8) chunk) :
    cutAt? closerBytes (chunk ++ closerBytes ++ rest) = some (chunk, rest) :=
  Calm.cutAt?_eq (by rwa [List.append_nil]) closerBytes_eq

/-- A line with a calm chunk gives this chunk, and what follows it gives the others. -/
theorem chunks_line (hchunk : Calm (0x5D : UInt8) chunk) :
    chunks (lineBytes chunk ++ rest) = chunk :: chunks rest :=
  chunks_of_cut cutAt?_opener_line (cutAt?_closer_chunk hchunk)

/-- Such a line is closed in time, whatever follows it. -/
theorem wellClosed_line (hchunk : Calm (0x5D : UInt8) chunk) :
    WellClosed (lineBytes chunk ++ rest) ↔ WellClosed rest := by
  have hnone : places openerBytes chunk = [] := by
    apply places_eq_nil
    intro place _
    exact hchunk.stands_nowhere openerBytes_eq
  rw [wellClosed_first cutAt?_opener_line (cutAt?_closer_chunk hchunk), and_iff_right hnone]

/-! ## All chunk lines -/

variable {lines : List Bytes}

/-- By induction, several such lines give their chunks. -/
theorem chunks_lines (hlines : ∀ chunk ∈ lines, Calm (0x5D : UInt8) chunk) :
    chunks (lines.flatMap lineBytes ++ rest) = lines ++ chunks rest := by
  induction lines with
  | nil => rfl
  | cons chunk lines ih =>
    rw [List.flatMap_cons, List.append_assoc, chunks_line (hlines chunk List.mem_cons_self),
      ih fun chunk hmem => hlines chunk (List.mem_cons_of_mem _ hmem), List.cons_append]

/-- They are closed in time, too. -/
theorem wellClosed_lines (hlines : ∀ chunk ∈ lines, Calm (0x5D : UInt8) chunk) :
    WellClosed (lines.flatMap lineBytes ++ rest) ↔ WellClosed rest := by
  induction lines with
  | nil => rfl
  | cons chunk lines ih =>
    rw [List.flatMap_cons, List.append_assoc, wellClosed_line (hlines chunk List.mem_cons_self),
      ih fun chunk hmem => hlines chunk (List.mem_cons_of_mem _ hmem)]

/-! ## The whole document -/

/-- No opener starts in the header, whatever follows. -/
theorem not_stands_opener_header {place : ℕ} (hplace : place < (Utf8.encode header).length) :
    ¬Stands openerBytes (Utf8.encode header ++ rest) place := by
  intro hstands
  have hapart : Apart 0 (Utf8.encode header) openerBytes := by decide +kernel
  have := hapart.end_le stands_mark_append hstands (by omega)
  omega

/-- The footer has no opener. -/
theorem not_stands_opener_footer (place : ℕ) : ¬Stands openerBytes (Utf8.encode footer) place := by
  have hnil : places openerBytes (Utf8.encode footer) = [] := by decide +kernel
  rw [← mem_places openerBytes_ne_nil, hnil]
  exact List.not_mem_nil

/-- The bytes of a line are the line of the bytes of its piece. -/
theorem encode_chunkLine (piece : List Char) :
    (chunkLine piece).flatMap String.utf8EncodeChar =
      lineBytes (Utf8.encode (String.ofList piece)) := by
  rw [chunkLine, List.flatMap_append, List.flatMap_append, ← Utf8.encode_eq_flatMap,
    ← Utf8.encode_eq_flatMap, ← Utf8.encode_ofList, lineBytes, lineSuffix, closerBytes]

/-- The bytes of a document: the header, a line for each piece, and the footer. -/
theorem encode_render :
    Utf8.encode (String.ofList (render pieces)) = Utf8.encode header ++
      ((pieces.map fun piece => Utf8.encode (String.ofList piece)).flatMap lineBytes ++
        Utf8.encode footer) := by
  rw [Utf8.encode_ofList, render, List.flatMap_append, List.flatMap_append,
    ← Utf8.encode_eq_flatMap, ← Utf8.encode_eq_flatMap, List.flatMap_assoc, List.append_assoc,
    List.flatMap_map]
  simp only [encode_chunkLine]

/-- Calm pieces have calm bytes, for a bracket is one byte and no part of another character. -/
theorem calm_lines (hcalm : ∀ piece ∈ pieces, Calm ']' piece) :
    ∀ chunk ∈ pieces.map fun piece => Utf8.encode (String.ofList piece),
      Calm (0x5D : UInt8) chunk := by
  intro chunk hmem
  obtain ⟨piece, hpiece, rfl⟩ := List.mem_map.mp hmem
  exact Utf8.calm_encode (hcalm piece hpiece)

/-- So a document made of calm pieces is closed in time. -/
theorem wellClosed_render (hcalm : ∀ piece ∈ pieces, Calm ']' piece) :
    WellClosed (Utf8.encode (String.ofList (render pieces))) := by
  rw [encode_render, wellClosed_append fun _ => not_stands_opener_header,
    wellClosed_lines (calm_lines hcalm)]
  intro place hstands
  exact absurd hstands (not_stands_opener_footer place)

/-- The chunks of a document are the bytes of its pieces. -/
theorem chunks_render (hcalm : ∀ piece ∈ pieces, Calm ']' piece) :
    chunks (Utf8.encode (String.ofList (render pieces))) =
      pieces.map fun piece => Utf8.encode (String.ofList piece) := by
  have hfooter := (cutAt?_eq_none_iff openerBytes_ne_nil).mpr not_stands_opener_footer
  rw [encode_render, chunks_append fun _ => not_stands_opener_header,
    chunks_lines (calm_lines hcalm), chunks_of_no_opener hfooter, List.append_nil]

/-- The bytes of pieces one after the other are the bytes of the whole. -/
theorem flatten_map_encode (pieces : List (List Char)) :
    (pieces.map fun piece => Utf8.encode (String.ofList piece)).flatten =
      Utf8.encode (String.ofList pieces.flatten) := by
  induction pieces with
  | nil => rfl
  | cons piece pieces ih =>
    rw [List.map_cons, List.flatten_cons, ih, List.flatten_cons, Utf8.encode_ofList,
      Utf8.encode_ofList, Utf8.encode_ofList, List.flatMap_append]

/-- The pieces of a cut are calm when no doubled bracket stands in the text. -/
theorem IsCut.calm (h : IsCut text pieces) (hclosing : ¬[']', ']'] <:+: text) :
    ∀ piece ∈ pieces, Calm ']' piece := by
  intro piece hmem
  rw [calm_iff]
  constructor
  · intro hinfix
    apply hclosing
    rw [← h.flatten_eq]
    exact hinfix.trans (List.infix_of_mem_flatten hmem)
  · exact (h.admissible piece hmem).getLast?_ne

/-- The document of a cut is read as the text that was cut. -/
theorem read_render {text : String} (hclosing : ¬[']', ']'] <:+: text.toList)
    (hcut : IsCut text.toList pieces) :
    read (Utf8.encode (String.ofList (render pieces))) = .ok (.ofText text) := by
  have hcalm := hcut.calm hclosing
  rw [read_of_wellClosed (wellClosed_render hcalm), chunks_render hcalm, flatten_map_encode,
    hcut.flatten_eq, String.ofList_toList, Payload.ofText]

/-- What is written in chunks is read as the text. -/
theorem read_ofList {text : List Char} (h : chunks? text = .ok pieces) :
    read (Utf8.encode (String.ofList (render pieces))) = .ok (.ofText (String.ofList text)) := by
  obtain ⟨hclosing, hcut, -⟩ := chunks?_eq_ok h
  apply read_render <;> rwa [String.toList_ofList]

/-- A document ends with the footer. -/
theorem footer_suffix_render (pieces : List (List Char)) :
    Utf8.encode footer <:+ Utf8.encode (String.ofList (render pieces)) := by
  rw [encode_render, ← List.append_assoc]
  exact List.suffix_append _ _

/-- Reading the document of a payload yields that payload. -/
theorem read_encode_of_write {payload : Payload} {document : String}
    (h : write payload = .ok document) : read (Utf8.encode document) = .ok payload := by
  obtain ⟨text, pieces, rfl, -, hpieces, rfl⟩ := write_eq_ok_iff.mp h
  obtain ⟨hclosing, hcut, -⟩ := chunks?_eq_ok hpieces
  have hcalm := hcut.calm hclosing
  rw [read_of_wellClosed (wellClosed_render hcalm), chunks_render hcalm, flatten_map_encode,
    hcut.flatten_eq, String.ofList_toList, Payload.ofText]

/-- The first cut moves back from a bracket, and the second piece starts almost like a closer. -/
theorem read_encode_of_write_moved_cut :
    write (.ofText (String.ofList (List.replicate 254 'é' ++ "])--[[\" )".toList))) =
        .ok (String.ofList (render [List.replicate 254 'é', "])--[[\" )".toList])) ∧
      read (Utf8.encode (String.ofList (render [List.replicate 254 'é', "])--[[\" )".toList]))) =
        .ok (.ofText (String.ofList (List.replicate 254 'é' ++ "])--[[\" )".toList))) := by
  have hchunks : chunks? (List.replicate 254 'é' ++ "])--[[\" )".toList) =
      .ok [List.replicate 254 'é', "])--[[\" )".toList] := by
    decide +kernel
  have hwrite := write_ofList (by decide) hchunks
  exact ⟨hwrite, read_encode_of_write hwrite⟩

end ScriptMailbox.Document
