/-!
# Decimal numbers

A number is written with its decimal digits and read back from an optional plus sign followed by
at least one digit. A reader has a bound: what is not below it is refused, so numbers of a
fixed width never wrap.
-/

namespace ScriptMailbox.Text.Decimal

/-- The decimal digits of a number, without leading zeros. -/
def digits (n : Nat) : List Char :=
  Nat.toDigits 10 n

/-- Indexes, counts and times are held in 64 bits: this is the 64th power of two. -/
def bound64 : Nat := 18446744073709551616

/-- A text without the plus sign that may stand before a number. -/
def dropSign : List Char → List Char
  | '+' :: rest => rest
  | text => text

/-- The number that a text stands for, if it is below the bound. -/
def read? (bound : Nat) (text : List Char) : Option Nat :=
  let body := dropSign text
  if !body.isEmpty && body.all Char.isDigit then
    let n := Nat.ofDigitChars 10 body 0
    if n < bound then some n else none
  else none

/-- A number below the bound is read back from its digits. -/
theorem read?_digits {bound n : Nat} (h : n < bound) : read? bound (digits n) = some n := by
  have hdigit : ∀ c ∈ digits n, c.isDigit = true := fun c hc =>
    Nat.isDigit_of_mem_toDigits (by decide) (by decide) hc
  have hsign : dropSign (digits n) = digits n := by
    unfold dropSign
    split
    · rename_i heq
      have := hdigit '+' (heq ▸ List.mem_cons_self)
      simp at this
    · rfl
  have hne : digits n ≠ [] := Nat.toDigits_ne_nil
  have hvalue : Nat.ofDigitChars 10 (digits n) 0 = n := Nat.ofDigitChars_ten_toDigits
  have hall : (digits n).all Char.isDigit = true := List.all_eq_true.mpr hdigit
  simp [read?, hsign, hvalue, hne, h]
  exact hdigit

end ScriptMailbox.Text.Decimal
