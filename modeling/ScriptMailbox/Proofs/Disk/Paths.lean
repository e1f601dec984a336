import ScriptMailbox.Disk.Walk
import Mathlib.Data.List.Basic

/-!
# The path of an entry

The path of an entry is that of its directory with the name of the entry behind it. It starts where
the path of the directory starts, and takes the same steps and one more.
-/

namespace ScriptMailbox

/-- A step that takes a walk to an entry of the directory that it has come to. -/
structure IsName (step : String) : Prop where
  ne_empty : step ≠ ""
  ne_current : step ≠ "."
  ne_parent : step ≠ ".."

/-- A name that is a single step of a path. -/
structure IsEntryName (name : String) : Prop extends IsName name where
  slash_not_mem : '/' ∉ name.toList

namespace Path

variable {path : Path} {name : String} {text lead rest : List Char}

/-! ## Names -/

/-- The names in the text of a path. -/
def namesOf (text : List Char) : List String :=
  ((text.splitOn '/').filter (· ≠ [])).map String.ofList

/-- The names of a path are those of its text. -/
theorem names_eq (path : Path) : path.names = namesOf path.text.toList := rfl

/-- A separator ends a name. -/
theorem namesOf_append (lead rest : List Char) :
    namesOf (lead ++ '/' :: rest) = namesOf lead ++ namesOf rest := by
  have hsplit : (lead ++ '/' :: rest).splitOn '/' = lead.splitOn '/' ++ rest.splitOn '/' :=
    List.splitOnP_append_cons lead rest rfl
  rw [namesOf, hsplit, List.filter_append, List.map_append, namesOf, namesOf]

/-- The empty text has no names. -/
theorem namesOf_nil : namesOf [] = [] := rfl

/-- Separators at the end make no name. -/
theorem namesOf_separators (text : List Char) (count : ℕ) :
    namesOf (text ++ List.replicate count '/') = namesOf text := by
  induction count with
  | zero => rw [List.replicate_zero, List.append_nil]
  | succ count ih =>
    rw [List.replicate_succ', ← List.append_assoc, namesOf_append, ih, namesOf_nil,
      List.append_nil]

/-- The name of an entry is its only name. -/
theorem namesOf_entry (hname : IsEntryName name) : namesOf name.toList = [name] := by
  have hsplit : name.toList.splitOn '/' = [name.toList] := by
    apply List.splitOnP_eq_singleton
    intro c hc
    rw [beq_eq_false_iff_ne]
    rintro rfl
    exact hname.slash_not_mem hc
  have hne : name.toList ≠ [] := mt String.toList_eq_nil_iff.mp hname.ne_empty
  simp [namesOf, hsplit, hne]

/-! ## Joining -/

/-- The name of an entry is a relative path. -/
theorem not_isAbsolute_entry (hname : IsEntryName name) : isAbsolute ⟨name⟩ = false := by
  rw [isAbsolute, beq_eq_false_iff_ne]
  intro hhead
  exact hname.slash_not_mem (List.mem_of_mem_head? hhead)

/-- Whether a path ends with a separator can be seen from its last letter. -/
theorem endsWithSeparator_iff :
    path.endsWithSeparator = true ↔ ∃ lead, path.text.toList = lead ++ ['/'] := by
  rw [endsWithSeparator, beq_iff_eq, List.getLast?_eq_some_iff]

/-- The text of a joined path: the first path up to a separator at its end, a separator unless the
first path is empty, and the entry. -/
theorem toList_join (path : Path) (hname : IsEntryName name) :
    (path.text = "" ∧ (path.join name).text.toList = name.toList) ∨
      ∃ lead, (path.text.toList = lead ∨ path.text.toList = lead ++ ['/']) ∧ path.text ≠ "" ∧
        (path.join name).text.toList = lead ++ '/' :: name.toList := by
  rw [join, not_isAbsolute_entry hname, if_neg Bool.false_ne_true]
  by_cases hempty : path.text = ""
  · exact .inl ⟨hempty, by rw [if_pos (.inl hempty), hempty, String.empty_append]⟩
  right
  by_cases hend : path.endsWithSeparator = true
  · obtain ⟨lead, hlead⟩ := endsWithSeparator_iff.mp hend
    refine ⟨lead, .inr hlead, hempty, ?_⟩
    rw [if_pos (.inr hend), String.toList_append, hlead, List.append_assoc, List.singleton_append]
  · refine ⟨path.text.toList, .inl rfl, hempty, ?_⟩
    rw [if_neg (not_or_intro hempty hend), String.toList_append, String.toList_append,
      List.append_assoc]
    rfl

/-- A joined path takes the names of the first path, and then the entry. -/
theorem names_join (hname : IsEntryName name) : (path.join name).names = path.names ++ [name] := by
  rw [names_eq, names_eq]
  rcases toList_join path hname with ⟨hempty, htext⟩ | ⟨lead, htext | htext, -, hjoin⟩
  · rw [htext, hempty, String.toList_empty, namesOf_nil, namesOf_entry hname, List.nil_append]
  · rw [hjoin, htext, namesOf_append, namesOf_entry hname]
  · rw [hjoin, htext, namesOf_append, namesOf_append, namesOf_entry hname, namesOf_nil,
      List.append_nil]

/-- Different names behind the same path make different paths. -/
theorem join_injective {other : String} (hname : IsEntryName name) (hother : IsEntryName other)
    (h : path.join name = path.join other) : name = other := by
  have hnames := congrArg names h
  rw [names_join hname, names_join hother, List.append_cancel_left_eq] at hnames
  exact List.singleton_inj.mp hnames

/-- It does not end with a separator. -/
theorem steps_join (hname : IsEntryName name) : (path.join name).steps = path.names ++ [name] := by
  have hend : (path.join name).endsWithSeparator = false := by
    rw [Bool.eq_false_iff, Ne, endsWithSeparator_iff]
    rintro ⟨before, hbefore⟩
    have hne : name.toList ≠ [] := mt String.toList_eq_nil_iff.mp hname.ne_empty
    have hlast : name.toList.getLast? = some '/' := by
      rcases toList_join path hname with ⟨-, htext⟩ | ⟨lead, -, -, hjoin⟩
      · rw [← htext, hbefore, List.getLast?_concat]
      · rw [← List.getLast?_append_of_ne_nil (lead ++ ['/']) hne, List.append_assoc,
          List.singleton_append, ← hjoin, hbefore, List.getLast?_concat]
    exact hname.slash_not_mem (List.mem_of_getLast? hlast)
  rw [steps, hend, if_neg Bool.false_ne_true, names_join hname]

/-- It starts where the first path starts. -/
theorem isAbsolute_join (hname : IsEntryName name) :
    (path.join name).isAbsolute = path.isAbsolute := by
  rcases toList_join path hname with ⟨hempty, htext⟩ | ⟨lead, htext, hne, hjoin⟩
  · have habsolute := not_isAbsolute_entry hname
    rw [isAbsolute] at habsolute ⊢
    rw [htext, habsolute, isAbsolute, hempty]
    rfl
  · rw [isAbsolute, isAbsolute, hjoin]
    cases lead with
    | nil =>
      rcases htext with htext | htext
      · exact absurd (String.toList_eq_nil_iff.mp htext) hne
      · rw [htext]
        rfl
    | cons c lead =>
      rcases htext with htext | htext
      · rw [htext]
        rfl
      · rw [htext]
        rfl

/-- A joined path is longer. -/
theorem utf8ByteSize_lt_join (path : Path) (hname : IsEntryName name) :
    path.text.utf8ByteSize < (path.join name).text.utf8ByteSize := by
  have hpos : 0 < name.utf8ByteSize :=
    Nat.pos_of_ne_zero fun hzero => hname.ne_empty (String.utf8ByteSize_eq_zero_iff.mp hzero)
  rw [join, not_isAbsolute_entry hname, if_neg Bool.false_ne_true]
  split_ifs
  · rw [String.utf8ByteSize_append]
    omega
  · rw [String.utf8ByteSize_append, String.utf8ByteSize_append]
    omega

/-- A path that is refused cannot be mended by an entry below it, unless it is empty. -/
theorem fault?_of_join (hname : IsEntryName name) (hpath : path.text ≠ "")
    (h : (path.join name).fault? = none) : path.fault? = none := by
  obtain ⟨rest, hrest⟩ : ∃ rest, (path.join name).text = path.text ++ rest := by
    rw [join, not_isAbsolute_entry hname, if_neg Bool.false_ne_true]
    split_ifs
    · exact ⟨name, rfl⟩
    · exact ⟨"/" ++ name, String.append_assoc ..⟩
  rw [fault?, hrest] at h
  rw [fault?, if_neg hpath]
  split_ifs at h with hempty hnul hlong
  have hnul' : ¬path.text.toList.contains '\x00' = true := by
    intro hmem
    rw [String.toList_append] at hnul
    simp only [List.contains_eq_mem, List.mem_append, decide_eq_true_eq] at hnul hmem
    exact hnul (.inl hmem)
  have hshort : ¬byteLimit < path.text.utf8ByteSize := by
    rw [String.utf8ByteSize_append] at hlong
    omega
  rw [if_neg hnul', if_neg hshort]

end Path

namespace Disk

/-- A path starts where it started when a name follows it. -/
theorem origin_join {name : String} (hname : IsEntryName name) (path : Path)
    (directory : Location) : origin (path.join name) directory = origin path directory := by
  rw [origin, origin, Path.isAbsolute_join hname]

end Disk

end ScriptMailbox
