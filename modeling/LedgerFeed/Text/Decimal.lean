/-! Decimal numerals of natural numbers: writing, and reading back what was written. -/

namespace LedgerFeed.Decimal

def text (n : Nat) : String :=
  String.ofList (Nat.toDigits 10 n)

def value? (digits : List Char) : Option Nat :=
  if digits ≠ [] ∧ digits.all Char.isDigit then some (Nat.ofDigitChars 10 digits 0) else none

theorem value?_text (n : Nat) : value? (text n).toList = some n := by
  have hne : Nat.toDigits 10 n ≠ [] := by
    intro h
    have := @Nat.length_toDigits_pos 10 n
    simp [h] at this
  have hall : (Nat.toDigits 10 n).all Char.isDigit = true := by
    rw [List.all_eq_true]
    exact fun c hc => Nat.isDigit_of_mem_toDigits (by decide) (by decide) hc
  simp [value?, text, String.toList_ofList, hne, hall, Nat.ofDigitChars_ten_toDigits]

end LedgerFeed.Decimal
