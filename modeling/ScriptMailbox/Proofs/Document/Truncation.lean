import ScriptMailbox.Proofs.Document.RoundTrip

/-!
# Documents that break off

A document may be read while it is still being written, or after its writing has broken off. What
is there then is a start of the document. A reader refuses it when it breaks off inside a chunk,
behind the opener and before the end of the closer, and otherwise yields the chunks of the lines
that are whole. So it never yields anything but the payload up to the end of some chunk.
-/

namespace ScriptMailbox.Document

open Text

/-! ## Where a document breaks off

Places are those of the document; `start` is where its first chunk line starts. -/

/-- Where the first `n` chunk lines end. -/
def lineEnd (start : ℕ) (lines : List Bytes) (n : ℕ) : ℕ :=
  start + ((lines.take n).flatMap lineBytes).length

/-- How many chunk lines lie wholly before a place. -/
def linesBefore (start : ℕ) (lines : List Bytes) (place : ℕ) : ℕ :=
  (List.range lines.length).countP fun n => lineEnd start lines (n + 1) ≤ place

/-- The place lies behind the prefix of the first line that is not wholly before it, and before the
end of that line. -/
def BreaksChunk (start : ℕ) (lines : List Bytes) (place : ℕ) : Prop :=
  linesBefore start lines place < lines.length ∧
    lineEnd start lines (linesBefore start lines place) + (Utf8.encode linePrefix).length ≤ place ∧
    place < lineEnd start lines (linesBefore start lines place + 1)

variable {chunk rest : Bytes} {lines : List Bytes} {start place : ℕ}

/-- No lines end where they start. -/
theorem lineEnd_zero (start : ℕ) (lines : List Bytes) : lineEnd start lines 0 = start := rfl

/-- Lines end where the lines behind the first one end. -/
theorem lineEnd_cons_succ (start : ℕ) (chunk : Bytes) (lines : List Bytes) (n : ℕ) :
    lineEnd start (chunk :: lines) (n + 1) =
      lineEnd (start + (lineBytes chunk).length) lines n := by
  rw [lineEnd, List.take_succ_cons, List.flatMap_cons, List.length_append, lineEnd, Nat.add_assoc]

/-- Lines never end before they start. -/
theorem le_lineEnd (start : ℕ) (lines : List Bytes) (n : ℕ) : start ≤ lineEnd start lines n :=
  Nat.le_add_right ..

/-- When the first line is not whole, none is. -/
theorem linesBefore_of_lt (h : place < start + (lineBytes chunk).length) :
    linesBefore start (chunk :: lines) place = 0 := by
  rw [linesBefore, List.countP_eq_zero]
  intro n _
  have := le_lineEnd (start + (lineBytes chunk).length) lines n
  rw [lineEnd_cons_succ, decide_eq_true_eq]
  omega

/-- When the first line is whole, the others count from its end. -/
theorem linesBefore_of_le (h : start + (lineBytes chunk).length ≤ place) :
    linesBefore start (chunk :: lines) place =
      linesBefore (start + (lineBytes chunk).length) lines place + 1 := by
  rw [linesBefore, List.length_cons, List.range_succ_eq_map,
    List.countP_cons_of_pos (by simpa [lineEnd_cons_succ, lineEnd_zero] using h), List.countP_map,
    linesBefore]
  simp only [Function.comp_def, Nat.succ_eq_add_one, lineEnd_cons_succ]

/-- A cut inside the first line breaks its chunk exactly if it is behind the opener. -/
theorem breaksChunk_of_lt (h : place < start + (lineBytes chunk).length) :
    BreaksChunk start (chunk :: lines) place ↔
      start + (Utf8.encode linePrefix).length ≤ place := by
  rw [BreaksChunk, linesBefore_of_lt h, lineEnd_zero, lineEnd_cons_succ, lineEnd_zero,
    List.length_cons]
  omega

/-- A cut behind the first line breaks a chunk of the other lines, or none. -/
theorem breaksChunk_of_le (h : start + (lineBytes chunk).length ≤ place) :
    BreaksChunk start (chunk :: lines) place ↔
      BreaksChunk (start + (lineBytes chunk).length) lines place := by
  rw [BreaksChunk, linesBefore_of_le h, lineEnd_cons_succ, lineEnd_cons_succ, List.length_cons,
    BreaksChunk, Nat.add_lt_add_iff_right]

/-- What breaks off before the first line has no whole line and breaks no chunk. -/
theorem linesBefore_of_lt_start (lines : List Bytes) (h : place < start) :
    linesBefore start lines place = 0 ∧ ¬BreaksChunk start lines place := by
  constructor
  · rw [linesBefore, List.countP_eq_zero]
    intro n _
    have := le_lineEnd start lines (n + 1)
    rw [decide_eq_true_eq]
    omega
  · rintro ⟨-, hle, -⟩
    have := le_lineEnd start lines (linesBefore start lines place)
    omega

/-! ## A line that breaks off -/

/-- A mark that stands in the start of a text stands in the text. -/
theorem stands_of_take {mark text : Bytes} {next : ℕ} (h : Stands mark (text.take place) next) :
    Stands mark text next := by
  rw [← List.take_append_drop place text]
  exact h.append_right _

/-- A text without openers is closed in time, and gives no chunks. -/
theorem wellClosed_of_no_opener {raw : Bytes} (h : ∀ next, ¬Stands openerBytes raw next) :
    WellClosed raw ∧ chunks raw = [] :=
  ⟨fun next hstands => absurd hstands (h next),
    chunks_of_no_opener ((cutAt?_eq_none_iff openerBytes_ne_nil).mpr h)⟩

/-- What breaks off before the end of the first opener has none. -/
theorem not_stands_opener_take {before body raw : Bytes}
    (hopen : cutAt? openerBytes raw = some (before, body))
    (h : place < before.length + openerBytes.length) (next : ℕ) :
    ¬Stands openerBytes (raw.take place) next := by
  intro hstands
  have hend := hstands.end_le openerBytes_ne_nil
  rw [List.length_take] at hend
  obtain ⟨-, hfirst⟩ := (cutAt?_eq_some_iff openerBytes_ne_nil).mp hopen
  exact hfirst next (by omega) (stands_of_take hstands)

/-- The prefix of a line is what it has in front of the opener, and the opener. -/
theorem length_linePrefix :
    (Utf8.encode linePrefix).length = (Utf8.encode "\n\t").length + openerBytes.length := by
  rw [linePrefix_eq, List.length_append]

/-- A line is its prefix, its chunk and a closer. -/
theorem length_lineBytes (chunk : Bytes) :
    (lineBytes chunk).length =
      (Utf8.encode linePrefix).length + chunk.length + closerBytes.length := by
  rw [lineBytes, List.length_append, List.length_append]

/-- A line that breaks off inside its chunk is not closed. -/
theorem not_wellClosed_take_line (hchunk : Calm (0x5D : UInt8) chunk)
    (hopen : (Utf8.encode linePrefix).length ≤ place) (hend : place < (lineBytes chunk).length) :
    ¬WellClosed ((lineBytes chunk ++ rest).take place) := by
  intro hclosed
  have hopened : cutAt? openerBytes (lineBytes chunk ++ rest) =
      some (Utf8.encode "\n\t", chunk ++ closerBytes ++ rest) := cutAt?_opener_line
  obtain ⟨hline, -⟩ := (cutAt?_eq_some_iff openerBytes_ne_nil).mp hopened
  -- The opener of the line is whole, so something must close it.
  have hopener : Stands openerBytes ((lineBytes chunk ++ rest).take place)
      (Utf8.encode "\n\t").length := by
    have hstands : Stands openerBytes (lineBytes chunk ++ rest) (Utf8.encode "\n\t").length :=
      hline ▸ stands_at_length
    rw [← List.take_append_drop place (lineBytes chunk ++ rest)] at hstands
    apply hstands.of_append
    rw [List.length_take, ← length_linePrefix, List.length_append]
    omega
  obtain ⟨stop, hle, hstop, -⟩ := hclosed _ hopener
  have hstopend := hstop.end_le closerBytes_ne_nil
  -- But no closer stands in the line before its own, which ends behind the break.
  have hwhole := stands_of_take hstop
  rw [hline] at hwhole
  obtain ⟨shift, rfl, hshift⟩ := hwhole.behind (by rwa [List.length_append])
  have hcloser : cutAt? closerBytes (chunk ++ closerBytes ++ rest) = some (chunk, rest) :=
    cutAt?_closer_chunk hchunk
  obtain ⟨-, hnone⟩ := (cutAt?_eq_some_iff closerBytes_ne_nil).mp hcloser
  apply hnone shift _ hshift
  rw [length_lineBytes, length_linePrefix] at hend
  rw [List.length_take, List.length_append] at hstopend
  omega

/-! ## All chunk lines -/

/-- Chunk lines that break off are well closed unless they break off inside a chunk, and then the
chunks are those of the lines that are whole. -/
theorem take_lines (hlines : ∀ chunk ∈ lines, Calm (0x5D : UInt8) chunk)
    (hrest : ∀ next, ¬Stands openerBytes rest next) (hstart : start ≤ place) :
    (BreaksChunk start lines place →
        ¬WellClosed ((lines.flatMap lineBytes ++ rest).take (place - start))) ∧
      (¬BreaksChunk start lines place →
        WellClosed ((lines.flatMap lineBytes ++ rest).take (place - start)) ∧
          chunks ((lines.flatMap lineBytes ++ rest).take (place - start)) =
            lines.take (linesBefore start lines place)) := by
  induction lines generalizing start with
  | nil =>
    constructor
    · rintro ⟨hlt, -, -⟩
      exact absurd hlt (Nat.not_lt_zero _)
    · intro _
      rw [List.flatMap_nil, List.nil_append, List.take_nil]
      apply wellClosed_of_no_opener
      intro next hstands
      exact hrest next (stands_of_take hstands)
  | cons chunk lines ih =>
    have hchunk := hlines chunk List.mem_cons_self
    have hmore : ∀ chunk ∈ lines, Calm (0x5D : UInt8) chunk := by
      intro chunk hmem
      exact hlines chunk (List.mem_cons_of_mem _ hmem)
    rw [List.flatMap_cons, List.append_assoc]
    rcases Nat.lt_or_ge place (start + (lineBytes chunk).length) with hlt | hge
    · -- The first line breaks off.
      rw [breaksChunk_of_lt hlt, linesBefore_of_lt hlt, List.take_zero, Nat.not_le]
      constructor
      · intro hopen
        exact not_wellClosed_take_line hchunk (by omega) (by omega)
      · intro hshort
        rw [length_linePrefix] at hshort
        exact wellClosed_of_no_opener (not_stands_opener_take cutAt?_opener_line (by omega))
    · -- The first line is whole, so the break is in one of the others or behind them.
      have hsub : place - start - (lineBytes chunk).length =
          place - (start + (lineBytes chunk).length) := by omega
      rw [breaksChunk_of_le hge, linesBefore_of_le hge, List.take_succ_cons,
        List.take_append, List.take_of_length_le (by omega), hsub, wellClosed_line hchunk,
        chunks_line hchunk, List.cons_inj_right]
      exact ih hmore hge

/-! ## The whole document -/

/-- The same with the header in front. -/
theorem take_header_lines (hlines : ∀ chunk ∈ lines, Calm (0x5D : UInt8) chunk)
    (hrest : ∀ next, ¬Stands openerBytes rest next) (place : ℕ) :
    (BreaksChunk (Utf8.encode header).length lines place →
        ¬WellClosed ((Utf8.encode header ++ (lines.flatMap lineBytes ++ rest)).take place)) ∧
      (¬BreaksChunk (Utf8.encode header).length lines place →
        WellClosed ((Utf8.encode header ++ (lines.flatMap lineBytes ++ rest)).take place) ∧
          chunks ((Utf8.encode header ++ (lines.flatMap lineBytes ++ rest)).take place) =
            lines.take (linesBefore (Utf8.encode header).length lines place)) := by
  rcases Nat.lt_or_ge place (Utf8.encode header).length with hlt | hge
  · obtain ⟨hzero, hwhole⟩ := linesBefore_of_lt_start lines hlt
    refine ⟨fun hbreak => absurd hbreak hwhole, fun _ => ?_⟩
    rw [hzero, List.take_zero]
    apply wellClosed_of_no_opener
    intro next hstands
    have hend := hstands.end_le openerBytes_ne_nil
    have hpos := List.length_pos_iff.mpr openerBytes_ne_nil
    rw [List.length_take] at hend
    exact not_stands_opener_header (by omega) (stands_of_take hstands)
  · rw [List.take_append, List.take_of_length_le hge,
      wellClosed_append fun _ => not_stands_opener_header,
      chunks_append fun _ => not_stands_opener_header]
    exact take_lines hlines hrest hge

/-- The bytes of the pieces of a cut. -/
def pieceBytes (pieces : List (List Char)) : List Bytes :=
  pieces.map fun piece => Utf8.encode (String.ofList piece)

/-- What breaks off is corrupt when it breaks off inside a chunk. Otherwise it is read as the chunks
whose lines are whole, a start of the payload. -/
theorem read_take_of_write {payload : Payload} {document : String}
    (h : write payload = .ok document) :
    ∃ text pieces, payload = .ofText text ∧ chunks? text.toList = .ok pieces ∧
      document = String.ofList (render pieces) ∧
      ∀ place,
        (BreaksChunk (Utf8.encode header).length (pieceBytes pieces) place →
          ∃ reason, (read ((Utf8.encode document).take place)).mapError Failure.ofDamage =
            .error (.corruptResponse reason)) ∧
        (¬BreaksChunk (Utf8.encode header).length (pieceBytes pieces) place →
          ∃ whole : Payload,
            whole.bytes = ((pieceBytes pieces).take
              (linesBefore (Utf8.encode header).length (pieceBytes pieces) place)).flatten ∧
            whole.bytes <+: payload.bytes ∧
            read ((Utf8.encode document).take place) = .ok whole) := by
  obtain ⟨text, pieces, rfl, -, hpieces, rfl⟩ := write_eq_ok_iff.mp h
  obtain ⟨hclosing, hcut, -⟩ := chunks?_eq_ok hpieces
  have hbytes : (pieceBytes pieces).flatten = (Payload.ofText text).bytes := by
    rw [pieceBytes, flatten_map_encode, hcut.flatten_eq, String.ofList_toList, Payload.ofText]
  refine ⟨text, pieces, rfl, hpieces, rfl, ?_⟩
  intro place
  -- what breaking off does is known for the lines, and behind them no chunk begins
  obtain ⟨hinside, houtside⟩ :=
    take_header_lines (calm_lines (hcut.calm hclosing)) not_stands_opener_footer place
  rw [← encode_render] at hinside houtside
  constructor
  · intro hbreak
    obtain ⟨damage, hdamage⟩ := read_of_not_wellClosed (hinside hbreak)
    exact ⟨damage.message, by rw [hdamage]; rfl⟩
  · intro hbreak
    obtain ⟨hclosed, hchunks⟩ := houtside hbreak
    refine ⟨_, rfl, ?_, ?_⟩
    · rw [← hbytes]
      exact (List.take_prefix _ _).flatten
    · rw [read_of_wellClosed hclosed, hchunks, pieceBytes]

/-- A document that breaks off inside a character of its chunk is corrupt. -/
theorem read_take_of_write_inside_character :
    write (.ofText (String.ofList ['é'])) = .ok (String.ofList (render [['é']])) ∧
      ∃ reason,
        (read ((Utf8.encode (String.ofList (render [['é']]))).take
          ((Utf8.encode header).length + (Utf8.encode linePrefix).length + 1))).mapError
            Failure.ofDamage = .error (.corruptResponse reason) := by
  have hchunks : chunks? ['é'] = .ok [['é']] := by decide +kernel
  have hwrite := write_ofList (by decide) hchunks
  refine ⟨hwrite, ?_⟩
  obtain ⟨text, pieces, htext, hpieces, -, hread⟩ := read_take_of_write hwrite
  have hsame := (text?_eq_some_iff.mpr rfl).symm.trans (text?_eq_some_iff.mpr htext)
  rw [← Option.some.inj hsame, String.toList_ofList, hchunks] at hpieces
  obtain rfl := Except.ok.inj hpieces
  exact (hread _).1 (by unfold BreaksChunk; decide +kernel)

end ScriptMailbox.Document
