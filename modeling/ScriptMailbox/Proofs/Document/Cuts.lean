import ScriptMailbox.Failure
import ScriptMailbox.Proofs.Text.Encoding

/-!
# Cutting a payload

A cut is admissible when each piece can stand in a chunk line. A writer takes the longest piece each
time and never goes back; still it finds a cut whenever there is one, and no cut has fewer pieces.
For wherever another cut has come to, the writer has come at least as far with as many pieces, so
the next piece of the other cut ends at a place that the writer may choose as well.
-/

namespace ScriptMailbox.Document

open Text

/-- A piece that can stand in a chunk line. -/
structure Admissible (piece : List Char) : Prop where
  ne_nil : piece ≠ []
  /-- It has at most 255 characters. -/
  length_le : piece.length ≤ 255
  /-- Its end does not join the bracket that closes the line. -/
  getLast?_ne : piece.getLast? ≠ some ']'
  /-- Its start is not dropped by the engine. -/
  head?_ne : piece.head? ≠ some '\n' ∧ piece.head? ≠ some '\r'

/-- An admissible cut of a text into consecutive pieces. -/
structure IsCut (text : List Char) (pieces : List (List Char)) : Prop where
  flatten_eq : pieces.flatten = text
  admissible : ∀ piece ∈ pieces, Admissible piece

variable {text piece rest lead : List Char} {pieces other : List (List Char)} {n limit start : ℕ}

/-- A text that a piece may start with. -/
theorem any_isBreak_iff :
    text.head?.any isBreak = false ↔ text.head? ≠ some '\n' ∧ text.head? ≠ some '\r' := by
  cases text <;> simp [isBreak]

/-! ## The places where a text may be cut -/

/-- A text may be cut behind a piece when nothing follows, or when the piece may end there and the
rest may start a piece. -/
theorem allowsCut_append (hpiece : piece ≠ []) :
    allowsCut (piece ++ rest) (piece.length - 1) = true ↔
      rest = [] ∨ piece.getLast? ≠ some ']' ∧ rest.head?.any isBreak = false := by
  obtain rfl | ⟨lead, c, rfl⟩ := List.eq_nil_or_concat piece
  · exact absurd rfl hpiece
  have hlength : (lead ++ [c]).length - 1 = lead.length := by simp
  rw [List.concat_eq_append, allowsCut, hlength, List.append_assoc, List.drop_left]
  cases rest with
  | nil => simp
  | cons after rest => simp [bne]

/-- A text is not cut at its end. -/
theorem lt_length_of_allowsCut (h : allowsCut text n = true) : n < text.length := by
  by_contra hle
  rw [allowsCut, List.drop_eq_nil_of_le (by omega)] at h
  cases h

/-- The longest piece ends at a place where the text may be cut. -/
theorem allowsCut_of_chunkLength? (h : chunkLength? text limit = some n) :
    n ≤ limit ∧ allowsCut text (n - 1) = true := by
  induction limit with
  | zero => cases h
  | succ limit ih =>
    rw [chunkLength?] at h
    split at h
    · rename_i hcut
      cases h
      exact ⟨le_rfl, hcut⟩
    · have := ih h
      exact ⟨by omega, this.2⟩

/-- It ends no earlier than any other such place within the limit. -/
theorem le_chunkLength? (hcut : allowsCut text n = true) (hn : n < limit) :
    ∃ longest, chunkLength? text limit = some longest ∧ n < longest := by
  induction limit with
  | zero => omega
  | succ limit ih =>
    rw [chunkLength?]
    split
    · exact ⟨limit + 1, rfl, hn⟩
    · rename_i hno
      have hne : n ≠ limit := by
        rintro rfl
        exact hno hcut
      exact ih (by omega)

/-! ## The writer's cut -/

/-- An empty text has no pieces. -/
theorem chunksFrom_nil : chunksFrom start [] = .ok [] := by
  rw [chunksFrom, dif_pos rfl]

/-- The longest chunk comes first. -/
theorem chunksFrom_of_some (htext : text ≠ []) (h : chunkLength? text chunkLimit = some n) :
    chunksFrom start text =
      (chunksFrom (start + n) (text.drop n)).map (text.take n :: ·) := by
  rw [chunksFrom, dif_neg htext]
  split <;> simp_all

/-- Where no chunk can end, the text cannot be cut. -/
theorem chunksFrom_of_none (htext : text ≠ []) (h : chunkLength? text chunkLimit = none) :
    chunksFrom start text = .error (.noCut start) := by
  rw [chunksFrom, dif_neg htext]
  split <;> simp_all

/-- Where a text may be cut, the piece before can stand in a chunk line, and the rest starts and
ends as well as the text did. -/
theorem admissible_of_allowsCut (hpiece : piece ≠ []) (hlength : piece.length ≤ chunkLimit)
    (hcut : allowsCut (piece ++ rest) (piece.length - 1) = true)
    (hlast : (piece ++ rest).getLast? ≠ some ']')
    (hhead : (piece ++ rest).head?.any isBreak = false) :
    Admissible piece ∧ rest.getLast? ≠ some ']' ∧ rest.head?.any isBreak = false := by
  have hstart : piece.head? ≠ some '\n' ∧ piece.head? ≠ some '\r' := by
    rw [List.head?_append_of_ne_nil piece hpiece] at hhead
    exact any_isBreak_iff.mp hhead
  rcases (allowsCut_append hpiece).mp hcut with rfl | ⟨hend, hbreak⟩
  · rw [List.append_nil] at hlast
    exact ⟨⟨hpiece, hlength, hlast, hstart⟩, by simp, rfl⟩
  · refine ⟨⟨hpiece, hlength, hend, hstart⟩, ?_, hbreak⟩
    intro heq
    apply hlast
    rw [List.getLast?_append, heq, Option.some_or]

/-- So it is with the longest piece. -/
theorem admissible_take (h : chunkLength? text chunkLimit = some n)
    (hlast : text.getLast? ≠ some ']') (hhead : text.head?.any isBreak = false) :
    Admissible (text.take n) ∧ (text.drop n).getLast? ≠ some ']' ∧
      (text.drop n).head?.any isBreak = false := by
  obtain ⟨hlimit, hcut⟩ := allowsCut_of_chunkLength? h
  have hpos := chunkLength?_pos h
  have hlt := lt_length_of_allowsCut hcut
  have hlength : (text.take n).length = n := by
    rw [List.length_take]
    omega
  rw [← List.take_append_drop n text] at hlast hhead
  apply admissible_of_allowsCut (List.length_pos_iff.mp (by omega)) (by omega) _ hlast hhead
  rwa [List.take_append_drop, hlength]

/-- A text that starts no better than a piece and ends no worse is cut into pieces that can stand in
chunk lines. -/
theorem isCut_of_chunksFrom (h : chunksFrom start text = .ok pieces)
    (hlast : text.getLast? ≠ some ']') (hhead : text.head?.any isBreak = false) :
    IsCut text pieces := by
  induction start, text using chunksFrom.induct generalizing pieces with
  | case1 start =>
    rw [chunksFrom_nil] at h
    cases h
    exact ⟨rfl, fun _ hmem => absurd hmem List.not_mem_nil⟩
  | case2 start text htext hnone =>
    rw [chunksFrom_of_none htext hnone] at h
    cases h
  | case3 start text htext n hsome _ ih =>
    rw [chunksFrom_of_some htext hsome] at h
    cases hmore : chunksFrom (start + n) (text.drop n) with
    | error fault =>
      rw [hmore] at h
      cases h
    | ok more =>
      rw [hmore] at h
      cases h
      obtain ⟨hfirst, hlast, hhead⟩ := admissible_take hsome hlast hhead
      obtain ⟨hflatten, hadmissible⟩ := ih hmore hlast hhead
      constructor
      · rw [List.flatten_cons, hflatten, List.take_append_drop]
      · rintro piece (_ | ⟨_, hmem⟩)
        · exact hfirst
        · exact hadmissible piece hmem

/-- What pieces that can stand in chunk lines make up does not start with a line break. -/
theorem head?_flatten (h : ∀ piece ∈ pieces, Admissible piece) :
    pieces.flatten.head?.any isBreak = false := by
  cases pieces with
  | nil => rfl
  | cons piece pieces =>
    obtain ⟨hne, -, -, hhead⟩ := h piece List.mem_cons_self
    obtain ⟨c, tail, rfl⟩ := List.exists_cons_of_ne_nil hne
    exact any_isBreak_iff.mpr hhead

/-- Nor does it end with a bracket. -/
theorem getLast?_flatten (h : ∀ piece ∈ pieces, Admissible piece) :
    pieces.flatten.getLast? ≠ some ']' := by
  obtain rfl | ⟨lead, piece, rfl⟩ := List.eq_nil_or_concat pieces
  · simp
  · have hpiece := h piece (by simp)
    rw [List.concat_eq_append, List.flatten_append, List.flatten_singleton,
      List.getLast?_append_of_ne_nil _ hpiece.ne_nil]
    exact hpiece.getLast?_ne

/-- When a text starts with the end of a piece and what follows may start a piece, the writer may
end its next piece where this one ends, so its choice reaches at least as far. -/
theorem exists_chunkLength? {new : List Char} (hnew : new ≠ []) (hlength : new.length ≤ chunkLimit)
    (hlast : new.getLast? ≠ some ']') (hhead : rest.head?.any isBreak = false) :
    ∃ n, chunkLength? (new ++ rest) chunkLimit = some n ∧ new.length ≤ n := by
  have hpos := List.length_pos_iff.mpr hnew
  have hcut : allowsCut (new ++ rest) (new.length - 1) = true :=
    (allowsCut_append hnew).mpr (Or.inr ⟨hlast, hhead⟩)
  obtain ⟨n, hn, hlt⟩ := le_chunkLength? hcut (by omega : _ < chunkLimit)
  exact ⟨n, hn, by omega⟩

/-- The writer keeps up with every other cut. When `lead` is what the writer is ahead of a cut into
`other`, the writer cuts the remaining text into no more pieces than that. -/
theorem length_chunksFrom_le (start : ℕ) (lead : List Char)
    (hother : ∀ piece ∈ other, Admissible piece) (hflatten : other.flatten = lead ++ text) :
    ∃ pieces, chunksFrom start text = .ok pieces ∧ pieces.length ≤ other.length := by
  induction other generalizing lead text start with
  | nil =>
    obtain ⟨-, rfl⟩ := List.append_eq_nil_iff.mp hflatten.symm
    exact ⟨[], chunksFrom_nil, le_rfl⟩
  | cons piece other ih =>
    have hpiece := hother piece List.mem_cons_self
    have hrest : ∀ piece ∈ other, Admissible piece := by
      intro piece hmem
      exact hother piece (List.mem_cons_of_mem _ hmem)
    rw [List.flatten_cons] at hflatten
    rcases List.append_eq_append_iff.mp hflatten with ⟨ahead, rfl, hahead⟩ | ⟨new, rfl, rfl⟩
    · -- The piece ends where the writer has already been.
      obtain ⟨pieces, hpieces, hle⟩ := ih start ahead hrest hahead
      exact ⟨pieces, hpieces, by rw [List.length_cons]; omega⟩
    · -- The piece reaches further by `new`, which the writer may choose for its next piece.
      by_cases hnew : new = []
      · subst hnew
        obtain ⟨pieces, hpieces, hle⟩ := ih start [] hrest rfl
        exact ⟨pieces, hpieces, by rw [List.length_cons]; omega⟩
      have hlength : new.length ≤ chunkLimit := by
        have := hpiece.length_le
        rw [List.length_append] at this
        rw [chunkLimit]
        omega
      have hlast : new.getLast? ≠ some ']' := by
        rw [← List.getLast?_append_of_ne_nil lead hnew]
        exact hpiece.getLast?_ne
      obtain ⟨n, hn, hle⟩ := exists_chunkLength? hnew hlength hlast (head?_flatten hrest)
      have hdrop : (new ++ other.flatten).drop n = other.flatten.drop (n - new.length) := by
        rw [List.drop_append, List.drop_eq_nil_of_le hle, List.nil_append]
      obtain ⟨pieces, hpieces, hcount⟩ := ih (start + n) _ hrest
        (List.take_append_drop (n - new.length) other.flatten).symm
      refine ⟨(new ++ other.flatten).take n :: pieces, ?_, by simpa using hcount⟩
      rw [chunksFrom_of_some (by simp [hnew]) hn, hdrop, hpieces]
      rfl

/-! ## What is checked before a text is cut -/

/-- A text has no closing bracket exactly if the two brackets are nowhere in it. -/
theorem hasClosing_eq_false_iff : hasClosing text = false ↔ ¬[']', ']'] <:+: text := by
  induction text using hasClosing.induct with
  | case1 rest => simp [hasClosing, List.infix_cons_iff]
  | case2 c rest hpair ih =>
    have hstart : ¬[']', ']'] <+: c :: rest := by
      rintro ⟨after, hafter⟩
      cases hafter
      exact hpair after rfl rfl
    rw [hasClosing, ih, List.infix_cons_iff, not_or, and_iff_right hstart]
    exact hpair
  | case3 => simp [hasClosing]

/-- The chunks of a text are an admissible cut of it, and no cut has fewer pieces. -/
theorem chunks?_eq_ok (h : chunks? text = .ok pieces) :
    ¬[']', ']'] <:+: text ∧ IsCut text pieces ∧
      ∀ other, IsCut text other → pieces.length ≤ other.length := by
  rw [chunks?] at h
  split_ifs at h with hclosing hlast hhead
  refine ⟨?_, ?_, ?_⟩
  · exact hasClosing_eq_false_iff.mp (by simpa using hclosing)
  · exact isCut_of_chunksFrom h hlast (by simpa using hhead)
  · intro other hother
    obtain ⟨pieces', hpieces, hle⟩ :=
      length_chunksFrom_le 0 [] hother.admissible hother.flatten_eq
    cases h.symm.trans hpieces
    exact hle

/-- A text with an admissible cut has chunks, unless a doubled bracket stands in it. -/
theorem exists_chunks? (hclosing : ¬[']', ']'] <:+: text) (hcut : IsCut text other) :
    ∃ pieces, chunks? text = .ok pieces := by
  have hhead : text.head?.any isBreak = false := hcut.flatten_eq ▸ head?_flatten hcut.admissible
  have hlast : text.getLast? ≠ some ']' := hcut.flatten_eq ▸ getLast?_flatten hcut.admissible
  obtain ⟨pieces, hpieces, -⟩ :=
    length_chunksFrom_le 0 [] hcut.admissible hcut.flatten_eq
  refine ⟨pieces, ?_⟩
  rw [chunks?, if_neg (by simpa using hasClosing_eq_false_iff.mpr hclosing), if_neg hlast,
    if_neg (by simpa using hhead), hpieces]

/-- A payload is the payload of its text, if it has one. -/
theorem text?_eq_some_iff {payload : Payload} {text : String} :
    payload.text? = some text ↔ payload = .ofText text := by
  rw [Payload.text?, Utf8.decode?_eq_some_iff]
  constructor
  · intro h
    rw [Payload.ofText, ← h]
  · rintro rfl
    rfl

/-- A document is written for a text that is not empty and has chunks. -/
theorem write_eq_ok_iff {payload : Payload} {document : String} :
    write payload = .ok document ↔ ∃ text pieces, payload = .ofText text ∧ text ≠ "" ∧
      chunks? text.toList = .ok pieces ∧ document = String.ofList (render pieces) := by
  constructor
  · intro h
    rw [write] at h
    split at h
    · cases h
    · rename_i hempty
      split at h
      · cases h
      · rename_i text htext
        obtain rfl := text?_eq_some_iff.mp htext
        cases hpieces : chunks? text.toList with
        | error fault =>
          rw [hpieces] at h
          cases h
        | ok pieces =>
          rw [hpieces] at h
          have hne : text ≠ "" := by
            intro hnil
            exact hempty (List.isEmpty_iff.mpr (Utf8.encode_eq_nil_iff.mpr hnil))
          exact ⟨text, pieces, rfl, hne, hpieces, (Except.ok.inj h).symm⟩
  · rintro ⟨text, pieces, rfl, hne, hpieces, rfl⟩
    have hempty : (Payload.ofText text).bytes ≠ [] := mt Utf8.encode_eq_nil_iff.mp hne
    rw [write, if_neg (mt List.isEmpty_iff.mp hempty), text?_eq_some_iff.mpr rfl]
    simp only [hpieces, Except.map]

/-- A text that can be cut is written in these pieces. -/
theorem write_ofList (hne : text ≠ []) (h : chunks? text = .ok pieces) :
    write (.ofText (String.ofList text)) = .ok (String.ofList (render pieces)) := by
  have hstring : String.ofList text ≠ "" := by
    intro hempty
    apply hne
    rw [← String.toList_ofList (l := text), hempty, String.toList_empty]
  refine write_eq_ok_iff.mpr ⟨String.ofList text, pieces, rfl, hstring, ?_, rfl⟩
  rw [String.toList_ofList, h]

/-- A payload has a document exactly when it is a text, not empty and without doubled bracket, that
can be cut at all; its document then carries an admissible cut with the fewest pieces. Any other
payload is invalid. -/
theorem write_fewest_pieces (payload : Payload) :
    ((∃ document, write payload = .ok document) ↔
      ∃ text pieces, payload = .ofText text ∧ text ≠ "" ∧ ¬[']', ']'] <:+: text.toList ∧
        IsCut text.toList pieces) ∧
    (∀ document, write payload = .ok document →
      ∃ text pieces, payload = .ofText text ∧ document = String.ofList (render pieces) ∧
        IsCut text.toList pieces ∧
        ∀ other, IsCut text.toList other → pieces.length ≤ other.length) ∧
    ((∃ reason, (write payload).mapError Failure.ofPayloadFault = .error (.invalidPayload reason)) ↔
      ¬∃ document, write payload = .ok document) := by
  refine ⟨⟨?_, ?_⟩, ?_, ?_⟩
  · rintro ⟨document, h⟩
    obtain ⟨text, pieces, htext, hne, hpieces, -⟩ := write_eq_ok_iff.mp h
    obtain ⟨hclosing, hcut, -⟩ := chunks?_eq_ok hpieces
    exact ⟨text, pieces, htext, hne, hclosing, hcut⟩
  · rintro ⟨text, other, htext, hne, hclosing, hother⟩
    obtain ⟨pieces, hpieces⟩ := exists_chunks? hclosing hother
    exact ⟨_, write_eq_ok_iff.mpr ⟨text, pieces, htext, hne, hpieces, rfl⟩⟩
  · intro document h
    obtain ⟨text, pieces, htext, -, hpieces, hdocument⟩ := write_eq_ok_iff.mp h
    obtain ⟨-, hcut, hfewest⟩ := chunks?_eq_ok hpieces
    exact ⟨text, pieces, htext, hdocument, hcut, hfewest⟩
  · cases h : write payload <;> simp [Except.mapError, Failure.ofPayloadFault]

/-- A line break behind 255 characters moves the cut, and no cut has fewer than its two pieces. -/
theorem write_fewest_pieces_line_break :
    ∃ text pieces, Payload.ofText (String.ofList (List.replicate 255 'a' ++ ['\n', 'x'])) =
        .ofText text ∧
      String.ofList (render [List.replicate 254 'a', ['a', '\n', 'x']]) =
        String.ofList (render pieces) ∧
      IsCut text.toList pieces ∧
      ∀ other, IsCut text.toList other → pieces.length ≤ other.length :=
  (write_fewest_pieces _).2.1 _ (write_ofList (by decide) (by decide +kernel))

end ScriptMailbox.Document
