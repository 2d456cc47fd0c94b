import Mathlib.Data.List.Basic
import Mathlib.Data.Nat.Digits.Defs
import Mathlib.Tactic.IntervalCases
import RenewalDrive.Text.Blank
import RenewalDrive.Text.Numeral

/-!
# Numerals and their values

The numeral of a number consists of digits and has that number as its value, with or without
leading zeros.
-/

namespace RenewalDrive

namespace Text

theorem isDigit_iff {c : Char} : isDigit c = true ↔ c.isDigit = true := by
  simp only [isDigit, Char.isDigit, Bool.and_eq_true, decide_eq_true_eq, ge_iff_le]
  exact Iff.rfl

theorem isBlank_of_isDigit {c : Char} (h : isDigit c = true) : isBlank c = false := by
  have hbounds : 48 ≤ c.toNat ∧ c.toNat ≤ 57 := by
    simpa [isDigit, Char.le_def, UInt32.le_iff_toNat_le] using h
  simp only [isBlank, blankRanges, List.any_cons, List.any_nil, Bool.or_false, Bool.or_eq_false_iff,
    Bool.and_eq_false_iff, decide_eq_false_iff_not]
  omega

theorem numeralValue_eq (digits : List Char) :
    numeralValue digits = Nat.ofDigitChars 10 digits 0 :=
  Nat.ofDigitChars_eq_foldl.symm

section

variable {n width : Nat} {c : Char}

theorem numeralValue_numeral : numeralValue (numeral n) = n :=
  (numeralValue_eq _).trans Nat.ofDigitChars_ten_toDigits

theorem numeral_ne_nil : numeral n ≠ [] :=
  Nat.toDigits_ne_nil

theorem isDigit_of_mem_numeral (h : c ∈ numeral n) : isDigit c = true :=
  isDigit_iff.mpr (Nat.isDigit_of_mem_toDigits (by decide) (by decide) h)

theorem isBlank_of_mem_numeral (h : c ∈ numeral n) : isBlank c = false :=
  isBlank_of_isDigit (isDigit_of_mem_numeral h)

theorem head?_numeral_ne_zero (h : n ≠ 0) : (numeral n).head? ≠ some '0' := by
  induction n using Nat.strongRecOn with
  | ind n ih =>
      rw [numeral, Nat.toDigits_eq_if (by decide)]
      split
      · rename_i hlt
        interval_cases n <;> first | contradiction | decide
      · rename_i hle
        rw [List.head?_append_of_ne_nil _ Nat.toDigits_ne_nil]
        exact ih (n / 10) (by omega) (by omega)

theorem numeralValue_paddedNumeral : numeralValue (paddedNumeral width n) = n := by
  rw [numeralValue_eq, paddedNumeral, List.leftpad, Nat.ofDigitChars_append,
    Nat.ofDigitChars_replicate_zero, Nat.mul_zero]
  exact Nat.ofDigitChars_ten_toDigits

theorem isDigit_of_mem_paddedNumeral (h : c ∈ paddedNumeral width n) : isDigit c = true := by
  rcases List.mem_append.mp h with hmem | hmem
  · rw [List.eq_of_mem_replicate hmem]
    decide
  · exact isDigit_of_mem_numeral hmem

theorem paddedNumeral_ne_nil : paddedNumeral width n ≠ [] :=
  List.append_ne_nil_of_right_ne_nil _ Nat.toDigits_ne_nil

theorem length_paddedNumeral (hwidth : 0 < width) (h : n < 10 ^ width) :
    (paddedNumeral width n).length = width := by
  have hle : (numeral n).length ≤ width := (Nat.length_toDigits_le_iff (by decide) hwidth).mpr h
  rw [paddedNumeral, List.length_leftpad]
  exact Nat.max_eq_left hle

end

end Text
end RenewalDrive
