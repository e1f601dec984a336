import ScriptMailbox.Proofs.Document.RoundTrip
import Mathlib.Data.List.Chain
import Mathlib.Data.List.Nodup
import Mathlib.Data.List.Perm.Subperm

/-!
# How many chunk lines a document has

Two chunks that follow each other do not fit into one line, for otherwise the writer would not have
cut between them. So a document has at most about twice as many lines as its text would fill, and
where no cut has to move back it has no more lines than that. The lines are counted by what they
start with, which no payload can imitate: behind every such start is an opener, and a document has
no other openers than those of its lines.
-/

namespace ScriptMailbox.Document

open Text

variable {text piece : List Char} {pieces : List (List Char)} {start n m : ℕ}

/-! ## Two chunks that follow each other -/

/-- Whether a text may be cut somewhere does not depend on what is far in front. -/
theorem allowsCut_drop : allowsCut (text.drop n) m = allowsCut text (n + m) := by
  rw [allowsCut, allowsCut, List.drop_drop]

/-- The longest piece and the longest piece behind it do not fit into one line. -/
theorem chunkLimit_lt_of_chunkLength? (hfirst : chunkLength? text chunkLimit = some n)
    (hsecond : chunkLength? (text.drop n) chunkLimit = some m) : chunkLimit < n + m := by
  by_contra hfit
  have hpos := chunkLength?_pos hsecond
  obtain ⟨-, hcut⟩ := allowsCut_of_chunkLength? hsecond
  rw [allowsCut_drop] at hcut
  obtain ⟨longest, hlongest, hlt⟩ := le_chunkLength? hcut (by omega : _ < chunkLimit)
  obtain rfl := Option.some.inj (hfirst.symm.trans hlongest)
  omega

/-- The first piece is as long as can be, and the others are those of the rest. -/
theorem chunksFrom_eq_ok_cons (h : chunksFrom start text = .ok (piece :: pieces)) :
    ∃ n, chunkLength? text chunkLimit = some n ∧ piece.length = n ∧
      chunksFrom (start + n) (text.drop n) = .ok pieces := by
  have htext : text ≠ [] := by
    rintro rfl
    rw [chunksFrom_nil] at h
    cases h
  cases hlength : chunkLength? text chunkLimit with
  | none =>
    rw [chunksFrom_of_none htext hlength] at h
    cases h
  | some n =>
    obtain ⟨-, hcut⟩ := allowsCut_of_chunkLength? hlength
    have hlt := lt_length_of_allowsCut hcut
    rw [chunksFrom_of_some htext hlength] at h
    cases hmore : chunksFrom (start + n) (text.drop n) with
    | error fault =>
      rw [hmore] at h
      cases h
    | ok more =>
      rw [hmore] at h
      cases h
      exact ⟨n, rfl, by rw [List.length_take]; omega, hmore⟩

/-- Whether two pieces do not fit into one line. -/
def Overfills (first second : List Char) : Prop :=
  256 ≤ first.length + second.length

/-- So any two neighbours are together longer than a chunk may be. -/
theorem isChain_chunksFrom (h : chunksFrom start text = .ok pieces) : pieces.IsChain Overfills := by
  induction pieces generalizing start text with
  | nil => exact .nil
  | cons first pieces ih =>
    obtain ⟨n, hfirst, hn, hmore⟩ := chunksFrom_eq_ok_cons h
    have hchain := ih hmore
    cases pieces with
    | nil => exact .singleton first
    | cons second pieces =>
      obtain ⟨m, hsecond, hm, -⟩ := chunksFrom_eq_ok_cons hmore
      refine .cons_cons ?_ hchain
      have hlt := chunkLimit_lt_of_chunkLength? hfirst hsecond
      rw [chunkLimit] at hlt
      rw [Overfills]
      omega

/-! ## Bounds for the number of pieces -/

/-- Taken in pairs, the pieces use up the text. -/
theorem pairs_le_length_flatten : ∀ {pieces : List (List Char)}, pieces.IsChain Overfills →
    (∀ piece ∈ pieces, piece ≠ []) →
      256 * (pieces.length / 2) + pieces.length % 2 ≤ pieces.flatten.length
  | [], _, _ => by simp
  | [piece], _, hne => by
    have hpos := List.length_pos_iff.mpr (hne piece List.mem_cons_self)
    simp only [List.flatten_singleton, List.length_singleton]
    omega
  | first :: second :: pieces, hchain, hne => by
    have hpair : 256 ≤ first.length + second.length := hchain.rel
    have hrest : 256 * (pieces.length / 2) + pieces.length % 2 ≤ pieces.flatten.length :=
      pairs_le_length_flatten hchain.tail.tail fun piece hmem =>
        hne piece (List.mem_cons_of_mem _ (List.mem_cons_of_mem _ hmem))
    simp only [List.flatten_cons, List.length_append, List.length_cons]
    omega

/-- Each piece uses up at most a line of the text. -/
theorem length_flatten_le (h : ∀ piece ∈ pieces, Admissible piece) :
    pieces.flatten.length ≤ 255 * pieces.length := by
  induction pieces with
  | nil => exact Nat.zero_le _
  | cons piece pieces ih =>
    have hrest := ih fun piece hmem => h piece (List.mem_cons_of_mem _ hmem)
    have hpiece := (h piece List.mem_cons_self).length_le
    simp only [List.flatten_cons, List.length_append, List.length_cons]
    omega

/-- No cut has fewer pieces than the text would fill. -/
theorem IsCut.chunkCount_le (h : IsCut text pieces) : chunkCount text.length ≤ pieces.length := by
  have hlines := length_flatten_le h.admissible
  rw [h.flatten_eq] at hlines
  rw [chunkCount, chunkLimit]
  omega

/-! ## Texts that fill their lines -/

/-- Whether no cut between filled lines has to move back: at none of these places a line break
follows, or a bracket stands before. -/
def FillsLines (text : List Char) : Prop :=
  ∀ k, 0 < k → 255 * k < text.length →
    text[255 * k]? ≠ some '\n' ∧ text[255 * k]? ≠ some '\r' ∧ text[255 * k - 1]? ≠ some ']'

/-- A text that fills its lines does so behind the first one. -/
theorem FillsLines.drop (h : FillsLines text) : FillsLines (text.drop 255) := by
  intro k hk hlt
  rw [List.length_drop] at hlt
  have hsucc := h (k + 1) (by omega) (by omega)
  rw [List.getElem?_drop, List.getElem?_drop]
  have hplace : 255 + (255 * k - 1) = 255 * (k + 1) - 1 := by omega
  rwa [hplace, Nat.add_comm, ← Nat.mul_succ]

/-- Such a text can be cut into filled lines, if it starts no worse than a piece and ends no
worse. -/
theorem FillsLines.exists_isCut (h : FillsLines text) (hlast : text.getLast? ≠ some ']')
    (hhead : text.head?.any isBreak = false) :
    ∃ pieces, IsCut text pieces ∧ pieces.length = chunkCount text.length := by
  -- on the length: a text that is too long for one line is cut behind its first 255 characters
  induction hlength : text.length using Nat.strong_induction_on generalizing text with
  | h length ih =>
    subst hlength
    by_cases hnil : text = []
    · subst hnil
      exact ⟨[], ⟨rfl, List.forall_mem_nil _⟩, rfl⟩
    have hpos := List.length_pos_iff.mpr hnil
    by_cases hshort : text.length ≤ 255
    · refine ⟨[text], ⟨List.flatten_singleton, List.forall_mem_singleton.mpr
        ⟨hnil, hshort, hlast, any_isBreak_iff.mp hhead⟩⟩, ?_⟩
      rw [List.length_singleton, chunkCount, chunkLimit]
      omega
    · have hline : (text.take 255).length = 255 := by
        rw [List.length_take]
        omega
      have hne : text.take 255 ≠ [] := List.length_pos_iff.mp (by omega)
      obtain ⟨hfeed, hreturn, hbracket⟩ := h 1 (by omega) (by omega)
      have hcut :
          allowsCut (text.take 255 ++ text.drop 255) ((text.take 255).length - 1) = true := by
        refine (allowsCut_append hne).mpr (.inr ⟨?_, any_isBreak_iff.mpr ?_⟩)
        · rw [List.getLast?_take, if_neg (by omega), List.getElem?_eq_getElem (by omega)]
          rwa [List.getElem?_eq_getElem (by omega)] at hbracket
        · rw [List.head?_drop]
          exact ⟨hfeed, hreturn⟩
      rw [← List.take_append_drop 255 text] at hlast hhead
      obtain ⟨hadmissible, hlast, hhead⟩ :=
        admissible_of_allowsCut hne hline.le hcut hlast hhead
      obtain ⟨pieces, hpieces, hcount⟩ :=
        ih (text.drop 255).length (by rw [List.length_drop]; omega) h.drop hlast hhead rfl
      refine ⟨text.take 255 :: pieces, ⟨?_, List.forall_mem_cons.mpr
        ⟨hadmissible, hpieces.admissible⟩⟩, ?_⟩
      · rw [List.flatten_cons, hpieces.flatten_eq, List.take_append_drop]
      · rw [List.length_cons, hcount, chunkCount, chunkCount, List.length_drop, chunkLimit]
        omega

/-! ## Where chunk lines start -/

/-- The places in a document at which something starts like a chunk line. -/
def linePlaces (document : String) : List ℕ :=
  places (Utf8.encode linePrefix) (Utf8.encode document)

/-- The prefix of a line is not empty. -/
theorem linePrefix_ne_nil : Utf8.encode linePrefix ≠ [] := by decide

/-- Prefixes of lines do not overlap. -/
theorem linePrefix_apart_linePrefix :
    Apart 1 (Utf8.encode linePrefix) (Utf8.encode linePrefix) := by decide

/-- A mark has no fewer places when something comes in front. -/
theorem length_places_le_append {mark lead rest : Bytes} :
    (places mark rest).length ≤ (places mark (lead ++ rest)).length := by
  rw [places, places, List.length_append, List.range_add, List.filter_append, List.length_append,
    List.filter_map, List.length_map]
  simp only [Function.comp_def, stands_append_length]
  omega

/-- Every chunk line starts like one. -/
theorem length_le_places_lines (lines : List Bytes) (rest : Bytes) :
    lines.length ≤ (places (Utf8.encode linePrefix) (lines.flatMap lineBytes ++ rest)).length := by
  induction lines with
  | nil => exact Nat.zero_le _
  | cons chunk lines ih =>
    have hmore : lines.length ≤ (places (Utf8.encode linePrefix)
        (chunk ++ closerBytes ++ (lines.flatMap lineBytes ++ rest))).length :=
      ih.trans length_places_le_append
    rw [List.flatMap_cons, lineBytes, List.append_assoc, List.append_assoc, List.append_assoc,
      places_mark_append linePrefix_ne_nil linePrefix_apart_linePrefix, List.length_cons,
      List.length_cons, List.length_map, ← List.append_assoc chunk]
    omega

/-- What starts like a chunk line has an opener. -/
theorem length_places_linePrefix_le (raw : Bytes) :
    (places (Utf8.encode linePrefix) raw).length ≤ (places openerBytes raw).length := by
  have hopens : ((places (Utf8.encode linePrefix) raw).map (· + (Utf8.encode "\n\t").length)) ⊆
      places openerBytes raw := by
    intro place hmem
    obtain ⟨place, hplace, rfl⟩ := List.mem_map.mp hmem
    rw [mem_places linePrefix_ne_nil, linePrefix_eq,
      ← List.append_nil (Utf8.encode "\n\t" ++ openerBytes)] at hplace
    exact (mem_places openerBytes_ne_nil).mpr hplace.part
  have hnodup : ((places (Utf8.encode linePrefix) raw).map
      (· + (Utf8.encode "\n\t").length)).Nodup :=
    (List.nodup_range.filter _).map fun _ _ => Nat.add_right_cancel
  simpa using (List.subperm_of_subset hnodup hopens).length_le

/-- A document has as many starts of chunk lines as chunk lines. -/
theorem length_linePlaces (hcalm : ∀ piece ∈ pieces, Calm ']' piece) :
    (linePlaces (String.ofList (render pieces))).length = pieces.length := by
  apply Nat.le_antisymm
  · have hopened := length_places_le_iff.mpr (wellClosed_render hcalm)
    rw [chunks_render hcalm, List.length_map] at hopened
    exact (length_places_linePrefix_le _).trans hopened
  · have hlines := length_le_places_lines (pieces.map fun piece =>
      Utf8.encode (String.ofList piece)) (Utf8.encode footer)
    rw [List.length_map] at hlines
    rw [linePlaces, encode_render]
    exact hlines.trans length_places_le_append

/-- A document has at least as many chunk lines as its text would fill, and at most about twice as
many, since any two that follow each other hold more than one line carries. Where no cut has to
move back, it has no more lines than its text would fill. -/
theorem write_line_count {payload : Payload} {document : String}
    (h : write payload = .ok document) :
    ∃ text pieces, payload = .ofText text ∧ document = String.ofList (render pieces) ∧
      pieces.flatten = text.toList ∧ (linePlaces document).length = pieces.length ∧
      chunkCount text.length ≤ pieces.length ∧ pieces.length ≤ 2 * (text.length / 256) + 1 ∧
      (∀ earlier first second later, pieces = earlier ++ first :: second :: later →
        256 ≤ first.length + second.length) ∧
      (FillsLines text.toList → pieces.length = chunkCount text.length) := by
  obtain ⟨text, pieces, rfl, -, hpieces, rfl⟩ := write_eq_ok_iff.mp h
  obtain ⟨hclosing, hcut, hfewest⟩ := chunks?_eq_ok hpieces
  rw [chunks?] at hpieces
  split_ifs at hpieces with hdoubled hlast hhead
  have hchain : pieces.IsChain Overfills := isChain_chunksFrom hpieces
  have hpairs := pairs_le_length_flatten hchain fun piece hmem =>
    (hcut.admissible piece hmem).ne_nil
  rw [hcut.flatten_eq, String.length_toList] at hpairs
  have hleast := hcut.chunkCount_le
  rw [String.length_toList] at hleast
  refine ⟨text, pieces, rfl, rfl, hcut.flatten_eq, length_linePlaces (hcut.calm hclosing), hleast,
    by omega, ?_, ?_⟩
  · rintro earlier first second later rfl
    exact hchain.right_of_append.rel
  · intro hfills
    obtain ⟨other, hother, hcount⟩ := hfills.exists_isCut hlast (by simpa using hhead)
    have hle := hfewest other hother
    rw [hcount, String.length_toList] at hle
    exact hle.antisymm hleast

/-- A bracket at the end of the first line moves two cuts, and three lines are as many as there can
be. -/
theorem write_line_count_bracket :
    let pieces : List (List Char) :=
      [List.replicate 254 'a', ']' :: List.replicate 254 'b', ['b']]
    let document := String.ofList (render pieces)
    write (.ofText (String.ofList pieces.flatten)) = .ok document ∧
      (∃ text lines, Payload.ofText (String.ofList pieces.flatten) = .ofText text ∧
        document = String.ofList (render lines) ∧ lines.flatten = text.toList ∧
        (linePlaces document).length = lines.length ∧ chunkCount text.length ≤ lines.length ∧
        lines.length ≤ 2 * (text.length / 256) + 1 ∧
        (∀ earlier first second later, lines = earlier ++ first :: second :: later →
          256 ≤ first.length + second.length) ∧
        (FillsLines text.toList → lines.length = chunkCount text.length)) ∧
      chunkCount pieces.flatten.length = 2 ∧ 2 * (pieces.flatten.length / 256) + 1 = 3 := by
  intro pieces document
  have hwrite : write (.ofText (String.ofList pieces.flatten)) = .ok document :=
    write_ofList (by decide) (by decide +kernel)
  exact ⟨hwrite, write_line_count hwrite, by decide +kernel, by decide +kernel⟩

end ScriptMailbox.Document
