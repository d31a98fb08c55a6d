import BlockLang.Text.Blank

/-!
# Columns and numerals

A column is filled from the left with spaces up to its width, counted in characters; a text that is
wider than the column is kept whole. Numbers are written in decimal, and read with an optional plus
sign and any number of leading zeros.
-/

namespace BlockLang.Text

/-- Fills with spaces on the left up to the given width. -/
def padLeft (width : Nat) (t : Text) : Text := List.replicate (width - t.length) ' ' ++ t

def decimal (n : Nat) : Text := Nat.toDigits 10 n

/-- Drops a plus sign in front. -/
def dropPlus : Text → Text
  | '+' :: t => t
  | t => t

/-- Reads a numeral: an optional plus sign and at least one decimal digit. -/
def numeral? (t : Text) : Option Nat :=
  let digits := dropPlus t
  if digits ≠ [] ∧ digits.all Char.isDigit then some (Nat.ofDigitChars 10 digits 0) else none

theorem length_padLeft (width : Nat) (t : Text) :
    (padLeft width t).length = max width t.length := by
  simp [padLeft]; omega

/-! ## Reading what was written -/

theorem isDigit_of_mem_decimal {n : Nat} {c : Char} (h : c ∈ decimal n) : c.isDigit = true :=
  Nat.isDigit_of_mem_toDigits (by decide) (by decide) h

theorem dropPlus_of_digits {t : Text} (h : ∀ c ∈ t, c.isDigit = true) : dropPlus t = t := by
  fun_cases dropPlus t with
  | case1 u => exact absurd (h '+' (by simp)) (by decide)
  | case2 => rfl

theorem numeral?_decimal (n : Nat) : numeral? (decimal n) = some n := by
  have hd : ∀ c ∈ decimal n, c.isDigit = true := fun _ h => isDigit_of_mem_decimal h
  have hne : decimal n ≠ [] := Nat.toDigits_ne_nil
  have hv : Nat.ofDigitChars 10 (decimal n) 0 = n :=
    Nat.ofDigitChars_toDigits (by decide) (by decide)
  simp [numeral?, dropPlus_of_digits hd, hne, List.all_eq_true.2 hd, hv]

end BlockLang.Text
