import Mathlib.Data.List.Basic

/-!
# Decimal numerals

The numeral of a natural number, as the program writes it: one or more digits, with no zero in front of others, and a
different numeral for each number.
-/

namespace Lowering

theorem toList_decimal (n : Nat) : (toString n).toList = Nat.toDigits 10 n :=
  Nat.toList_repr

theorem isDigit_toDigits {n : Nat} {c : Char} (h : c ∈ Nat.toDigits 10 n) : c.isDigit = true :=
  Nat.isDigit_of_mem_toDigits (by decide) (by decide) h

/-- Only zero is written with a zero first: the first digit of a longer numeral is that of a tenth of the number. -/
theorem head?_toDigits {n : Nat} (h : 0 < n) : (Nat.toDigits 10 n).head? ≠ some '0' := by
  induction n using Nat.strongRecOn with
  | ind n ih =>
    rcases Nat.lt_or_ge n 10 with hSmall | hLarge
    · rw [Nat.toDigits_of_lt_base hSmall]
      intro hZero
      have hNone := Nat.digitChar_eq_zero.mp (Option.some.inj hZero)
      omega
    · rw [Nat.toDigits_of_base_le (by decide) hLarge, List.head?_append_of_ne_nil _ Nat.toDigits_ne_nil]
      exact ih (n / 10) (by omega) (by omega)

/-- Different numbers have different numerals. -/
theorem decimal_inj {a b : Nat} : toString a = toString b ↔ a = b := by
  constructor
  · intro h
    have hDigits : Nat.toDigits 10 a = Nat.toDigits 10 b := by
      rw [← toList_decimal, ← toList_decimal, h]
    rw [← Nat.ofDigitChars_ten_toDigits (n := a), hDigits, Nat.ofDigitChars_ten_toDigits]
  · rintro rfl
    rfl

end Lowering
