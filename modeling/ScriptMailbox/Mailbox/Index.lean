import ScriptMailbox.Text.Decimal

/-!
# Indexes

An index numbers an exchange. Indexes are 64 bits wide; the last one has no successor.
-/

namespace ScriptMailbox

/-- The number of an exchange. -/
structure Index where
  /-- The number. -/
  value : Nat
  value_lt : value < Text.Decimal.bound64
  deriving DecidableEq, Repr

namespace Index

/-- The index of the first exchange. -/
def zero : Index := ⟨0, by decide⟩

/-- The index that follows, unless this is the last one. -/
def next? (index : Index) : Option Index :=
  if h : index.value + 1 < Text.Decimal.bound64 then some ⟨index.value + 1, h⟩ else none

/-- The next index is the successor, as long as that is an index. -/
theorem next?_eq_some_iff {index next : Index} :
    index.next? = some next ↔ next.value = index.value + 1 := by
  have hnext := next.value_lt
  cases next
  rw [next?]
  split
  · simp [eq_comm]
  · simp only [reduceCtorEq, false_iff]
    omega

/-- Only the last index has no successor. -/
theorem next?_eq_none_iff {index : Index} :
    index.next? = none ↔ index.value + 1 = Text.Decimal.bound64 := by
  have hindex := index.value_lt
  rw [next?]
  split
  · simp only [reduceCtorEq, false_iff]
    omega
  · simp only [true_iff]
    omega

/-- The index that a text stands for. -/
def read? (text : List Char) : Option Index :=
  match Text.Decimal.read? Text.Decimal.bound64 text with
  | some n => if h : n < Text.Decimal.bound64 then some ⟨n, h⟩ else none
  | none => none

/-- The decimal digits of an index. -/
def text (index : Index) : String :=
  toString index.value

end Index

end ScriptMailbox
