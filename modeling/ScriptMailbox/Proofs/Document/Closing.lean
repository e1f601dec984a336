import ScriptMailbox.Failure
import ScriptMailbox.Proofs.Text.Places

/-!
# Well closed documents

A reader compares two counts: the chunks that it finds one behind the other, and the openers
anywhere. The counts agree exactly when every opener has a closer before the next opener. One step
of the reader takes a document apart into what stands before the first opener, a chunk, and the
rest; openers and closers never overlap, so no mark reaches over the seams between these parts.
-/

namespace ScriptMailbox.Document

open Text

/-! ## Openers and closers do not overlap -/

/-- Openers do not overlap. -/
theorem opener_apart_opener : Apart 1 openerBytes openerBytes := by decide

/-- Closers do not overlap. -/
theorem closer_apart_closer : Apart 1 closerBytes closerBytes := by decide

/-- A closer does not start inside an opener, or at its start. -/
theorem opener_apart_closer : Apart 0 openerBytes closerBytes := by decide

/-- An opener does not start inside a closer, or at its start. -/
theorem closer_apart_opener : Apart 0 closerBytes openerBytes := by decide

/-! ## The condition -/

/-- Behind the opener at this place comes a closer, and no opener starts before the end of it. -/
def ClosedAt (raw : Bytes) (place : ℕ) : Prop :=
  ∃ stop, place + openerBytes.length ≤ stop ∧ Stands closerBytes raw stop ∧
    ∀ next, place < next → Stands openerBytes raw next → stop + closerBytes.length ≤ next

/-- After every opener there is a closer before the next opener. -/
def WellClosed (raw : Bytes) : Prop :=
  ∀ place, Stands openerBytes raw place → ClosedAt raw place

/-- What stands between the opener at this place and the first closer behind it. -/
def enclosed (raw : Bytes) (place : ℕ) : Bytes :=
  let body := raw.drop (place + openerBytes.length)
  body.take ((places closerBytes body).headD 0)

variable {raw before body chunk rest lead : Bytes} {place : ℕ}

/-- It is the same to ask that the closer starts before the next opener does. -/
theorem closedAt_iff_lt : ClosedAt raw place ↔
    ∃ stop, place + openerBytes.length ≤ stop ∧ Stands closerBytes raw stop ∧
      ∀ next, place < next → Stands openerBytes raw next → stop < next := by
  have hpos := List.length_pos_iff.mpr closerBytes_ne_nil
  constructor
  · rintro ⟨stop, hle, hstands, hnext⟩
    refine ⟨stop, hle, hstands, ?_⟩
    intro next hlt hopen
    have := hnext next hlt hopen
    omega
  · rintro ⟨stop, hle, hstands, hnext⟩
    refine ⟨stop, hle, hstands, ?_⟩
    intro next hlt hopen
    have := hnext next hlt hopen
    exact closer_apart_opener.end_le hstands hopen (by omega)

/-- Whether an opener is closed does not depend on what stands before it. -/
theorem closedAt_append : ClosedAt (lead ++ rest) (lead.length + place) ↔ ClosedAt rest place := by
  constructor
  · rintro ⟨stop, hle, hstands, hnext⟩
    obtain ⟨shift, rfl, hshift⟩ := hstands.behind (by omega)
    refine ⟨shift, by omega, hshift, ?_⟩
    intro next hlt hopen
    have := hnext (lead.length + next) (by omega) (stands_append_length.mpr hopen)
    omega
  · rintro ⟨stop, hle, hstands, hnext⟩
    refine ⟨lead.length + stop, by omega, stands_append_length.mpr hstands, ?_⟩
    intro next hlt hopen
    obtain ⟨shift, rfl, hshift⟩ := hopen.behind (by omega)
    have := hnext shift (by omega) hshift
    omega

/-- What an opener encloses does not depend on what stands in front of it. -/
theorem enclosed_append : enclosed (lead ++ rest) (lead.length + place) = enclosed rest place := by
  rw [enclosed, Nat.add_assoc, List.drop_length_add_append, enclosed]

/-! ## One step of the reader -/

/-- No opener reaches over the end of a chunk. -/
theorem stands_opener_of_chunk (h : Stands openerBytes (chunk ++ closerBytes ++ rest) place)
    (hplace : place < (chunk ++ closerBytes).length) : Stands openerBytes chunk place := by
  rcases Nat.lt_or_ge place chunk.length with hlt | hge
  · have hend := opener_apart_closer.end_le h stands_at_length (by omega)
    rw [List.append_assoc] at h
    exact h.of_append hend
  · have hend := closer_apart_opener.end_le stands_at_length h (by omega)
    rw [List.length_append] at hplace
    omega

/-- The openers behind the first one: those in the chunk, which hide, and those in the rest. -/
theorem places_opener_chunk :
    places openerBytes (chunk ++ closerBytes ++ rest) = places openerBytes chunk ++
      (places openerBytes rest).map ((chunk ++ closerBytes).length + ·) := by
  have hchunk : places openerBytes (chunk ++ closerBytes) = places openerBytes chunk := by
    have hnone : places openerBytes closerBytes = [] := by decide
    rw [places_append, hnone, List.map_nil, List.append_nil]
    intro place hplace h
    rw [← List.append_nil (chunk ++ closerBytes)] at h
    exact stands_opener_of_chunk h (by rw [List.length_append]; omega)
  rw [places_append, hchunk]
  intro place hplace h
  exact (stands_opener_of_chunk h hplace).append_right closerBytes

/-- A first opener encloses what stands in front of the first closer behind it. -/
theorem enclosed_first (hclose : cutAt? closerBytes body = some (chunk, rest)) :
    enclosed (before ++ openerBytes ++ body) before.length = chunk := by
  obtain ⟨rfl, hfirst⟩ := (cutAt?_eq_some_iff closerBytes_ne_nil).mp hclose
  rw [enclosed, ← List.length_append, List.drop_left,
    places_first closerBytes_ne_nil closer_apart_closer hfirst]
  simp

/-- The first opener is closed exactly when no opener hides in the chunk behind it. -/
theorem closedAt_first (hclose : cutAt? closerBytes body = some (chunk, rest)) :
    ClosedAt (before ++ openerBytes ++ body) before.length ↔ places openerBytes chunk = [] := by
  obtain ⟨rfl, hfirst⟩ := (cutAt?_eq_some_iff closerBytes_ne_nil).mp hclose
  have hlength : (before ++ openerBytes).length = before.length + openerBytes.length :=
    List.length_append
  have hpos := List.length_pos_iff.mpr openerBytes_ne_nil
  constructor
  · rintro ⟨stop, hle, hstands, hnext⟩
    obtain ⟨stop, rfl, hstop⟩ := hstands.behind (hlength ▸ hle)
    have hchunk : chunk.length ≤ stop := by
      by_contra hlt
      exact hfirst stop (by omega) hstop
    apply places_eq_nil
    intro place hplace h
    have hopen := (h.append_right closerBytes).append_right rest
    have := hnext ((before ++ openerBytes).length + place) (by omega)
      (stands_append_length.mpr hopen)
    omega
  · intro hnil
    refine ⟨(before ++ openerBytes).length + chunk.length, by omega,
      stands_append_length.mpr stands_at_length, ?_⟩
    intro next hlt hopen
    have hge := opener_apart_opener.end_le stands_at_length hopen hlt
    obtain ⟨next, rfl, hnext⟩ := hopen.behind (hlength ▸ hge)
    by_contra hinside
    have hstands := stands_opener_of_chunk hnext (by rw [List.length_append]; omega)
    rw [← mem_places openerBytes_ne_nil, hnil] at hstands
    exact List.not_mem_nil hstands

/-- A document whose first chunk is closed, cut behind that chunk. -/
theorem eq_append_of_cut (hopen : cutAt? openerBytes raw = some (before, body))
    (hclose : cutAt? closerBytes body = some (chunk, rest)) :
    raw = (before ++ openerBytes ++ chunk ++ closerBytes) ++ rest := by
  have hraw := ((cutAt?_eq_some_iff openerBytes_ne_nil).mp hopen).1
  have hbody := ((cutAt?_eq_some_iff closerBytes_ne_nil).mp hclose).1
  rw [hraw, hbody]
  simp only [List.append_assoc]

/-- All openers of a document whose first chunk is closed. -/
theorem places_opener_of_cut (hopen : cutAt? openerBytes raw = some (before, body))
    (hclose : cutAt? closerBytes body = some (chunk, rest)) :
    places openerBytes raw = before.length ::
      ((places openerBytes chunk).map ((before ++ openerBytes).length + ·) ++
        (places openerBytes rest).map
          ((before ++ openerBytes ++ chunk ++ closerBytes).length + ·)) := by
  obtain ⟨rfl, hfirst⟩ := (cutAt?_eq_some_iff openerBytes_ne_nil).mp hopen
  obtain ⟨rfl, -⟩ := (cutAt?_eq_some_iff closerBytes_ne_nil).mp hclose
  rw [places_first openerBytes_ne_nil opener_apart_opener hfirst, places_opener_chunk,
    List.map_append, List.map_map]
  simp [Function.comp_def, Nat.add_assoc]

/-- A document is well closed when no opener hides in its first chunk and the rest is well
closed. -/
theorem wellClosed_first (hopen : cutAt? openerBytes raw = some (before, body))
    (hclose : cutAt? closerBytes body = some (chunk, rest)) :
    WellClosed raw ↔ places openerBytes chunk = [] ∧ WellClosed rest := by
  have hraw := ((cutAt?_eq_some_iff openerBytes_ne_nil).mp hopen).1
  have hsplit := eq_append_of_cut hopen hclose
  have hfirst : ClosedAt raw before.length ↔ places openerBytes chunk = [] :=
    hraw ▸ closedAt_first hclose
  constructor
  · intro h
    constructor
    · exact hfirst.mp (h _ (hraw ▸ stands_at_length))
    · intro place hstands
      rw [hsplit] at h
      exact closedAt_append.mp (h _ (stands_append_length.mpr hstands))
  · rintro ⟨hnil, hrest⟩ place hstands
    rw [← mem_places openerBytes_ne_nil, places_opener_of_cut hopen hclose, hnil, List.map_nil,
      List.nil_append, List.mem_cons, List.mem_map] at hstands
    rcases hstands with rfl | ⟨place, hmem, rfl⟩
    · exact hfirst.mpr hnil
    · rw [hsplit]
      exact closedAt_append.mpr (hrest place ((mem_places openerBytes_ne_nil).mp hmem))

/-! ## The two counts -/

/-- Openers are counted one after the other. -/
theorem openerCount_eq : openerCount raw =
    match cutAt? openerBytes raw with
    | none => 0
    | some (_, rest) => openerCount rest + 1 := by
  rw [openerCount]
  split <;> simp_all

/-- So they are counted as often as they stand in the text. -/
theorem openerCount_eq_length_places : openerCount raw = (places openerBytes raw).length := by
  induction raw using openerCount.induct with
  | case1 raw hnone =>
    have hnowhere := (cutAt?_eq_none_iff openerBytes_ne_nil).mp hnone
    rw [openerCount_eq, hnone, places_eq_nil fun place _ => hnowhere place, List.length_nil]
  | case2 raw before rest hopen _ ih =>
    rw [openerCount_eq, hopen]
    obtain ⟨rfl, hfirst⟩ := (cutAt?_eq_some_iff openerBytes_ne_nil).mp hopen
    rw [places_first openerBytes_ne_nil opener_apart_opener hfirst, List.length_cons,
      List.length_map, ← ih]

/-- Chunks are cut off one after the other, up to an opener without a closer. -/
theorem chunks_eq : chunks raw =
    match cutAt? openerBytes raw with
    | none => []
    | some (_, body) =>
      match cutAt? closerBytes body with
      | none => []
      | some (chunk, rest) => chunk :: chunks rest := by
  rw [chunks]
  split
  · simp_all
  · split <;> simp_all

/-- Without an opener there is no chunk. -/
theorem chunks_of_no_opener (hnone : cutAt? openerBytes raw = none) : chunks raw = [] := by
  rw [chunks_eq, hnone]

/-- Neither is there one without a closer. -/
theorem chunks_of_no_closer (hopen : cutAt? openerBytes raw = some (before, body))
    (hnone : cutAt? closerBytes body = none) : chunks raw = [] := by
  simp only [chunks_eq, hopen, hnone]

/-- An opener with a closer makes a chunk, and the others are behind it. -/
theorem chunks_of_cut (hopen : cutAt? openerBytes raw = some (before, body))
    (hclose : cutAt? closerBytes body = some (chunk, rest)) :
    chunks raw = chunk :: chunks rest := by
  rw [chunks_eq, hopen]
  simp only [hclose]

/-- What stands before the first opener does not matter to a reader. -/
theorem chunks_append (hlead : ∀ place < lead.length, ¬Stands openerBytes (lead ++ rest) place) :
    chunks (lead ++ rest) = chunks rest := by
  have happend := cutAt?_append openerBytes_ne_nil hlead
  cases hopen : cutAt? openerBytes rest with
  | none =>
    rw [hopen] at happend
    rw [chunks_of_no_opener happend, chunks_of_no_opener hopen]
  | some cut =>
    obtain ⟨before, body⟩ := cut
    rw [hopen] at happend
    cases hclose : cutAt? closerBytes body with
    | none => rw [chunks_of_no_closer happend hclose, chunks_of_no_closer hopen hclose]
    | some cut =>
      obtain ⟨chunk, rest⟩ := cut
      rw [chunks_of_cut happend hclose, chunks_of_cut hopen hclose]

/-- Nor does it matter to the closing of what follows. -/
theorem wellClosed_append
    (hlead : ∀ place < lead.length, ¬Stands openerBytes (lead ++ rest) place) :
    WellClosed (lead ++ rest) ↔ WellClosed rest := by
  constructor
  · intro h place hstands
    exact closedAt_append.mp (h _ (stands_append_length.mpr hstands))
  · intro h place hstands
    rcases Nat.lt_or_ge place lead.length with hlt | hge
    · exact absurd hstands (hlead place hlt)
    · obtain ⟨shift, rfl, hshift⟩ := hstands.behind hge
      exact closedAt_append.mpr (h shift hshift)

/-- A reader never finds more chunks than openers. -/
theorem length_chunks_le (raw : Bytes) : (chunks raw).length ≤ (places openerBytes raw).length := by
  induction raw using chunks.induct with
  | case1 raw hnone => simp [chunks_of_no_opener hnone]
  | case2 raw before body hopen hnone => simp [chunks_of_no_closer hopen hnone]
  | case3 raw before body hopen chunk rest hclose _ ih =>
    rw [chunks_of_cut hopen hclose, places_opener_of_cut hopen hclose]
    simp only [List.length_cons, List.length_append, List.length_map]
    omega

/-- It finds as many exactly when the document is well closed. -/
theorem length_places_le_iff :
    (places openerBytes raw).length ≤ (chunks raw).length ↔ WellClosed raw := by
  induction raw using chunks.induct with
  | case1 raw hnone =>
    have hnowhere := (cutAt?_eq_none_iff openerBytes_ne_nil).mp hnone
    rw [places_eq_nil fun place _ => hnowhere place]
    simp [WellClosed, hnowhere]
  | case2 raw before body hopen hnone =>
    -- The reader stops at an opener without closer, which counts and is not closed.
    obtain ⟨rfl, hfirst⟩ := (cutAt?_eq_some_iff openerBytes_ne_nil).mp hopen
    have hnowhere := (cutAt?_eq_none_iff closerBytes_ne_nil).mp hnone
    rw [chunks_of_no_closer hopen hnone,
      places_first openerBytes_ne_nil opener_apart_opener hfirst]
    apply iff_of_false
    · simp
    · intro h
      obtain ⟨stop, hle, hstands, -⟩ := h _ stands_at_length
      rw [← List.length_append] at hle
      obtain ⟨shift, -, hshift⟩ := hstands.behind hle
      exact hnowhere shift hshift
  | case3 raw before body hopen chunk rest hclose _ ih =>
    -- The counts draw apart by the openers that hide in the chunk, and never meet again.
    rw [chunks_of_cut hopen hclose, places_opener_of_cut hopen hclose,
      wellClosed_first hopen hclose, ← ih, ← List.length_eq_zero_iff]
    have hle := length_chunks_le rest
    simp only [List.length_cons, List.length_append, List.length_map]
    omega

/-- In a well closed document, the chunks are what the openers and their closers enclose. -/
theorem chunks_eq_map_enclosed (h : WellClosed raw) :
    chunks raw = (places openerBytes raw).map (enclosed raw) := by
  induction raw using chunks.induct with
  | case1 raw hnone =>
    rw [chunks_of_no_opener hnone, places_eq_nil fun place _ =>
      (cutAt?_eq_none_iff openerBytes_ne_nil).mp hnone place, List.map_nil]
  | case2 raw before body hopen hnone =>
    have hle := length_places_le_iff.mpr h
    rw [chunks_of_no_closer hopen hnone] at hle ⊢
    rw [List.eq_nil_of_length_eq_zero (Nat.le_zero.mp hle), List.map_nil]
  | case3 raw before body hopen chunk rest hclose _ ih =>
    obtain ⟨hnil, hrest⟩ := (wellClosed_first hopen hclose).mp h
    have hraw := ((cutAt?_eq_some_iff openerBytes_ne_nil).mp hopen).1
    have hfirst : enclosed raw before.length = chunk := hraw ▸ enclosed_first hclose
    rw [chunks_of_cut hopen hclose, places_opener_of_cut hopen hclose, hnil, ih hrest,
      List.map_cons, hfirst, eq_append_of_cut hopen hclose]
    simp only [List.map_nil, List.nil_append, List.map_map, Function.comp_def, enclosed_append]

/-! ## What a reader accepts -/

/-- Where every opener is closed in time, the chunks are the payload. -/
theorem read_of_wellClosed (h : WellClosed raw) : read raw = .ok ⟨(chunks raw).flatten⟩ := by
  have hle := length_places_le_iff.mpr h
  rw [read, openerCount_eq_length_places, if_neg (by omega)]

/-- Where one is not, the text is damaged. -/
theorem read_of_not_wellClosed (h : ¬WellClosed raw) : ∃ damage, read raw = .error damage := by
  have hlt := Nat.lt_of_not_le fun hle => h (length_places_le_iff.mp hle)
  rw [read, openerCount_eq_length_places, if_pos hlt]
  exact ⟨_, rfl⟩

/-- A reader accepts exactly the well closed documents, and yields what their openers and closers
enclose, in order; any other document is corrupt. -/
theorem read_eq_ok_iff_wellClosed (raw : Bytes) :
    (∀ payload, read raw = .ok payload ↔
      WellClosed raw ∧ payload = ⟨(places openerBytes raw).flatMap (enclosed raw)⟩) ∧
    ((∃ reason, (read raw).mapError Failure.ofDamage = .error (.corruptResponse reason)) ↔
      ¬WellClosed raw) := by
  by_cases h : WellClosed raw
  · rw [read_of_wellClosed h, chunks_eq_map_enclosed h]
    simp [h, List.flatMap, Except.mapError, eq_comm]
  · obtain ⟨damage, hdamage⟩ := read_of_not_wellClosed h
    rw [hdamage]
    simp [h, Except.mapError, Failure.ofDamage]

end ScriptMailbox.Document
