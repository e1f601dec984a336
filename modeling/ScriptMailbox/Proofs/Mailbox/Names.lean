import ScriptMailbox.Mailbox.Name
import ScriptMailbox.Proofs.Disk.Paths
import Mathlib.Data.String.Basic

/-!
# Names of requests and responses

The name of an exchange file is a single step of a path. Requests and responses have their own
names, one for each index.
-/

namespace ScriptMailbox.Mailbox

variable {index other : Index} {start name : String}

/-- The name of an exchange file is its start, the digits of the index, and the extension. -/
theorem toList_fileName (start : String) (index : Index) :
    (fileName start index).toList =
      start.toList ++ (Text.Decimal.digits index.value ++ ".txt".toList) := by
  simp only [fileName, fileExtension, Index.text, String.toList_append, List.append_assoc,
    Text.Decimal.digits, Nat.toString_eq_repr, Nat.toList_repr]
  rfl

/-! ## One name for each index -/

/-- Different numbers have different digits, as no leading zeros are written. -/
theorem digits_injective : Function.Injective Text.Decimal.digits := by
  intro m n h
  rw [← Nat.ofDigitChars_ten_toDigits (n := m), ← Nat.ofDigitChars_ten_toDigits (n := n)]
  exact congrArg (Nat.ofDigitChars 10 · 0) h

/-- Different indices have different file names. -/
theorem fileName_injective (start : String) : Function.Injective (fileName start) := by
  intro index other h
  have hlist := congrArg String.toList h
  rw [toList_fileName, toList_fileName, List.append_cancel_left_eq,
    List.append_cancel_right_eq] at hlist
  cases index
  cases other
  cases digits_injective hlist
  rfl

/-- So different indices have different requests. -/
theorem requestName_injective : Function.Injective requestName :=
  fileName_injective requestStart

/-- They have different responses, too. -/
theorem responseName_injective : Function.Injective responseName :=
  fileName_injective responseStart

/-- Every request comes before every response in ascending order. -/
theorem requestName_lt_responseName (index other : Index) :
    requestName index < responseName other := by
  rw [String.lt_iff_toList_lt, requestName, responseName, toList_fileName, toList_fileName]
  exact .rel (by decide)

/-- A request never has the name of a response. -/
theorem requestName_ne_responseName (index other : Index) :
    requestName index ≠ responseName other :=
  (requestName_lt_responseName index other).ne

/-! ## Names of exchange files -/

/-- A name belongs to an exchange when it is a start, some digits, and the extension. -/
theorem isExchangeName_iff :
    isExchangeName name = true ↔
      ∃ start digits, (start = responseStart ∨ start = requestStart) ∧
        name.toList = start.toList ++ (digits ++ ".txt".toList) ∧ digits ≠ [] ∧
        ∀ c ∈ digits, c.isDigit = true := by
  have hextension : '.' :: fileExtension.toList = ".txt".toList := rfl
  constructor
  · intro h
    rw [isExchangeName] at h
    split at h
    · rename_i digits hbind
      rw [Bool.and_eq_true, Bool.not_eq_true', List.isEmpty_eq_false_iff, List.all_eq_true] at h
      obtain ⟨stem, hstem, hnumber⟩ := Option.bind_eq_some_iff.mp hbind
      rw [stem?, hextension, Text.dropEnd?_eq_some_iff] at hstem
      rw [number?, Option.or_eq_some_iff] at hnumber
      rcases hnumber with hnumber | ⟨-, hnumber⟩ <;> rw [Text.dropStart?_eq_some_iff] at hnumber
      · exact ⟨responseStart, digits, .inl rfl, by rw [hstem, hnumber, List.append_assoc], h⟩
      · exact ⟨requestStart, digits, .inr rfl, by rw [hstem, hnumber, List.append_assoc], h⟩
    · cases h
  · rintro ⟨start, digits, hstart, hname, hne, hdigits⟩
    have hstem : stem? name.toList = some (start.toList ++ digits) := by
      rw [stem?, hextension, Text.dropEnd?_eq_some_iff, hname, List.append_assoc]
    have hnumber : number? (start.toList ++ digits) = some digits := by
      rcases hstart with rfl | rfl
      · rw [number?, Text.dropStart?_eq_some_iff.mpr rfl, Option.some_or]
      · have hout : Text.dropStart? responseStart.toList (requestStart.toList ++ digits) = none :=
          rfl
        rw [number?, hout, Option.none_or, Text.dropStart?_eq_some_iff]
    rw [isExchangeName, hstem, Option.bind_some, hnumber]
    simpa [hne] using hdigits

/-- The name of a request or response is one that a sweep deletes. -/
theorem isExchangeName_fileName (hstart : start = responseStart ∨ start = requestStart) :
    isExchangeName (fileName start index) = true :=
  isExchangeName_iff.mpr ⟨start, Text.Decimal.digits index.value, hstart,
    toList_fileName start index, Nat.toDigits_ne_nil,
    fun _ hc => Nat.isDigit_of_mem_toDigits (by decide) (by decide) hc⟩

/-- The case of a request. -/
theorem isExchangeName_requestName (index : Index) : isExchangeName (requestName index) = true :=
  isExchangeName_fileName (.inr rfl)

/-- The case of a response. -/
theorem isExchangeName_responseName (index : Index) : isExchangeName (responseName index) = true :=
  isExchangeName_fileName (.inl rfl)

/-- Such a name is a single step of a path. -/
theorem isEntryName_of_isExchangeName (h : isExchangeName name = true) : IsEntryName name := by
  obtain ⟨start, digits, hstart, hname, -, hdigits⟩ := isExchangeName_iff.mp h
  have hlength : 2 < name.toList.length := by
    rw [hname, List.length_append, List.length_append]
    have : ".txt".toList.length = 4 := rfl
    omega
  have hne {text : String} (htext : text.toList.length ≤ 2) : name ≠ text := by
    rintro rfl
    omega
  refine ⟨⟨hne (by decide), hne (by decide), hne (by decide)⟩, ?_⟩
  rw [hname, List.mem_append, List.mem_append, not_or, not_or]
  refine ⟨?_, fun hmem => ?_, by decide⟩
  · rcases hstart with rfl | rfl <;> decide
  · have := hdigits '/' hmem
    simp at this

/-- A request has a name that a directory can hold. -/
theorem isEntryName_requestName (index : Index) : IsEntryName (requestName index) :=
  isEntryName_of_isExchangeName (isExchangeName_requestName index)

end ScriptMailbox.Mailbox
