/-!
# Finite tables

A table maps keys to values and lists its entries by strictly increasing key, so two tables with
the same look-ups are the same table (`Table.ext_get?`).
-/

namespace ScriptMailbox

/-- A finite map whose entries stand in strictly increasing order of their keys. -/
structure Table (κ ν : Type) [Ord κ] where
  /-- Keys and their values. -/
  entries : List (κ × ν)
  sorted : entries.Pairwise fun a b => compare a.1 b.1 = .lt
  deriving DecidableEq

namespace Table

variable {κ ν : Type} [Ord κ]

/-- The table without entries. -/
def empty : Table κ ν := ⟨[], .nil⟩

instance : Inhabited (Table κ ν) := ⟨empty⟩

/-- The value of a key among entries. -/
def lookup (key : κ) (entries : List (κ × ν)) : Option ν :=
  (entries.find? fun entry => compare key entry.1 == .eq).map (·.2)

/-- The value of a key. -/
def get? (table : Table κ ν) (key : κ) : Option ν :=
  lookup key table.entries

/-- Changes the value of one key among sorted entries; a missing key gets its place. -/
def place (key : κ) (value : Option ν → ν) : List (κ × ν) → List (κ × ν)
  | [] => [(key, value none)]
  | entry :: rest =>
    match compare key entry.1 with
    | .lt => (key, value none) :: entry :: rest
    | .eq => (key, value (some entry.2)) :: rest
    | .gt => entry :: place key value rest

/-- What stands in the entries after a key has been placed is that key or stood there before. -/
theorem mem_place {key : κ} {value : Option ν → ν} {entries : List (κ × ν)} {e : κ × ν}
    (h : e ∈ place key value entries) : e.1 = key ∨ e ∈ entries := by
  induction entries with
  | nil => simp_all [place]
  | cons entry rest ih =>
    unfold place at h
    split at h
    · rcases List.mem_cons.mp h with rfl | h
      · exact .inl rfl
      · exact .inr h
    · rcases List.mem_cons.mp h with rfl | h
      · exact .inl rfl
      · exact .inr (List.mem_cons_of_mem _ h)
    · rcases List.mem_cons.mp h with rfl | h
      · exact .inr List.mem_cons_self
      · exact (ih h).imp_right (List.mem_cons_of_mem _)

section Lawful

variable [Std.TransOrd κ] [Std.LawfulEqOrd κ]

/-- Placing a key keeps the keys in increasing order, so that tables stay well formed. -/
theorem sorted_place {key : κ} {value : Option ν → ν} {entries : List (κ × ν)}
    (h : entries.Pairwise fun a b => compare a.1 b.1 = .lt) :
    (place key value entries).Pairwise fun a b => compare a.1 b.1 = .lt := by
  induction entries with
  | nil => simp [place]
  | cons entry rest ih =>
    obtain ⟨hfirst, hrest⟩ := List.pairwise_cons.mp h
    unfold place
    split
    · rename_i hlt
      refine List.pairwise_cons.mpr ⟨fun e he => ?_, h⟩
      rcases List.mem_cons.mp he with rfl | he
      · exact hlt
      · exact Std.TransCmp.lt_trans hlt (hfirst e he)
    · rename_i heq
      rw [Std.LawfulEqCmp.eq_of_compare heq]
      exact List.pairwise_cons.mpr ⟨hfirst, hrest⟩
    · rename_i hgt
      refine List.pairwise_cons.mpr ⟨fun e he => ?_, ih hrest⟩
      rcases mem_place he with hkey | he
      · rw [hkey]
        exact Std.OrientedCmp.lt_of_gt hgt
      · exact hfirst e he

/-- Gives a key a new value, computed from the old one if there is one. -/
def alter (table : Table κ ν) (key : κ) (value : Option ν → ν) : Table κ ν :=
  ⟨place key value table.entries, sorted_place table.sorted⟩

omit [Std.TransOrd κ] in
/-- Keys compare as equal exactly when they are. -/
private theorem compare_eq_iff {a b : κ} : compare a b = .eq ↔ a = b :=
  ⟨Std.LawfulEqCmp.eq_of_compare, fun h => h ▸ Std.ReflCmp.compare_self⟩

omit [Std.TransOrd κ] in
/-- No key comes before itself. -/
private theorem compare_self_ne_lt (key : κ) : compare key key ≠ .lt := by
  simp

omit [Std.TransOrd κ] in
/-- A key is looked up in the first entry, and then in the others. -/
private theorem lookup_cons [DecidableEq κ] (key : κ) (entry : κ × ν) (rest : List (κ × ν)) :
    lookup key (entry :: rest) = if key = entry.1 then some entry.2 else lookup key rest := by
  by_cases h : key = entry.1
  · simp [lookup, h]
  · have hne : compare key entry.1 ≠ .eq := fun he => h (compare_eq_iff.mp he)
    simp [lookup, hne, h]

omit [Std.TransOrd κ] in
/-- A key is found exactly at its entry. -/
theorem lookup_eq_some_iff {key : κ} {value : ν} {entries : List (κ × ν)}
    (h : entries.Pairwise fun a b => compare a.1 b.1 = .lt) :
    lookup key entries = some value ↔ (key, value) ∈ entries := by
  classical
  induction entries with
  | nil => simp [lookup]
  | cons entry rest ih =>
    obtain ⟨hfirst, hrest⟩ := List.pairwise_cons.mp h
    rw [lookup_cons, List.mem_cons]
    split
    · rename_i heq
      have hnot : (key, value) ∉ rest := fun hv => by
        have := hfirst _ hv
        rw [← heq] at this
        exact compare_self_ne_lt key this
      rw [or_iff_left hnot]
      simp [Prod.ext_iff, heq, eq_comm]
    · rename_i hne
      simp [ih hrest, Prod.ext_iff, hne]

omit [Std.TransOrd κ] in
/-- A look-up finds exactly the entries, because no two have the same key. -/
theorem get?_eq_some_iff {table : Table κ ν} {key : κ} {value : ν} :
    table.get? key = some value ↔ (key, value) ∈ table.entries :=
  lookup_eq_some_iff table.sorted

omit [Std.TransOrd κ] [Std.LawfulEqOrd κ] in
/-- A key that comes before all others is not found among them. -/
private theorem lookup_eq_none_of_lt {key : κ} {entries : List (κ × ν)}
    (h : ∀ e ∈ entries, compare key e.1 = .lt) : lookup key entries = none := by
  rw [lookup, Option.map_eq_none_iff, List.find?_eq_none]
  intro e he
  simp [h e he]

/-- Altering a key changes its value only. -/
theorem get?_alter [DecidableEq κ] (table : Table κ ν) (key other : κ) (value : Option ν → ν) :
    (table.alter key value).get? other =
      if other = key then some (value (table.get? key)) else table.get? other := by
  obtain ⟨entries, hsorted⟩ := table
  simp only [alter, get?]
  induction entries with
  | nil => simp [place, lookup]
  | cons entry rest ih =>
    obtain ⟨hfirst, hrest⟩ := List.pairwise_cons.mp hsorted
    unfold place
    -- the key comes before that of the first entry, is the same, or comes behind it
    split
    · rename_i hlt
      have hnone : lookup key (entry :: rest) = none := by
        refine lookup_eq_none_of_lt fun e he => ?_
        rcases List.mem_cons.mp he with rfl | he
        · exact hlt
        · exact Std.TransCmp.lt_trans hlt (hfirst e he)
      rw [lookup_cons, hnone]
    · rename_i heq
      have hkey := compare_eq_iff.mp heq
      subst hkey
      simp only [lookup_cons, if_true]
      split <;> rfl
    · rename_i hgt
      have hkey : key ≠ entry.1 := fun h => by
        rw [compare_eq_iff.mpr h] at hgt
        simp at hgt
      rw [lookup_cons, lookup_cons, lookup_cons, if_neg hkey, ih hrest]
      by_cases h : other = key
      · simp [h, hkey]
      · simp [h]

/-- Tables with the same look-ups are equal. -/
theorem ext_get? {a b : Table κ ν} (h : ∀ key, a.get? key = b.get? key) : a = b := by
  have hmem (e : κ × ν) : e ∈ a.entries ↔ e ∈ b.entries := by
    have ha : a.get? e.1 = some e.2 ↔ e ∈ a.entries := get?_eq_some_iff
    have hb : b.get? e.1 = some e.2 ↔ e ∈ b.entries := get?_eq_some_iff
    rw [← ha, ← hb, h]
  obtain ⟨as, ha⟩ := a
  obtain ⟨bs, hb⟩ := b
  congr 1
  clear h
  dsimp only at hmem
  induction as generalizing bs with
  | nil =>
    cases bs with
    | nil => rfl
    | cons e rest => exact absurd ((hmem e).mpr List.mem_cons_self) (by simp)
  | cons x as ih =>
    cases bs with
    | nil => exact absurd ((hmem x).mp List.mem_cons_self) (by simp)
    | cons y bs =>
      obtain ⟨hxa, has⟩ := List.pairwise_cons.mp ha
      obtain ⟨hyb, hbs⟩ := List.pairwise_cons.mp hb
      -- otherwise each of the two least keys would come before the other
      have hxy : x = y := by
        rcases List.mem_cons.mp ((hmem x).mp List.mem_cons_self) with h | h
        · exact h
        rcases List.mem_cons.mp ((hmem y).mpr List.mem_cons_self) with h' | h'
        · exact h'.symm
        exact absurd (Std.TransCmp.lt_trans (hxa y h') (hyb x h)) (compare_self_ne_lt _)
      subst hxy
      congr 1
      refine ih has bs hbs fun e => ⟨fun he => ?_, fun he => ?_⟩
      · rcases List.mem_cons.mp ((hmem e).mp (List.mem_cons_of_mem _ he)) with rfl | h
        · exact absurd (hxa e he) (compare_self_ne_lt _)
        · exact h
      · rcases List.mem_cons.mp ((hmem e).mpr (List.mem_cons_of_mem _ he)) with rfl | h
        · exact absurd (hyb e he) (compare_self_ne_lt _)
        · exact h

end Lawful

end Table

end ScriptMailbox
