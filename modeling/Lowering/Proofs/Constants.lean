import Mathlib.Data.List.Induction
import Mathlib.Tactic.IntervalCases
import Lowering.Main
import Lowering.Proofs.C.Quoted
import Lowering.Proofs.C.Spelling

/-!
# Integer constants

The digits of a whole number are copied into the C file as they stand. C takes the base of a constant from its first
characters: after `0x` the digits are hexadecimal, after any other zero they are octal, and else they are decimal. A
hexadecimal literal is written with its prefix and keeps its value. A decimal literal is written without one, so that
leading zeros make it octal: it then has another value, or is no constant at all, as soon as its value is above seven.

* `integerConstant?` — the value of an integer constant by the rules of C.
* `positional_eight_eq_iff` — digits that stand for the same number in base eight and in base ten.
* `integer_literal_keeps_value_iff` — which literals keep their value; `generate_octal_literal` is one that does not.
-/

namespace Lowering

namespace C

-- ---------------------------------------------------------------------------
-- The rules of C
-- ---------------------------------------------------------------------------

/-- The number that digits stand for in a base. -/
def positional (base : Nat) (digits : List Char) : Nat :=
  digits.foldl (fun v c => base * v + digitValue c) 0

/-- What may follow the digits of an integer constant: marks for unsigned and for long ones, in either order. -/
def integerSuffixes : List (List Char) :=
  (["", "u", "U"].flatMap fun u => ["", "l", "L", "ll", "LL"].flatMap fun l => [u ++ l, l ++ u]).map String.toList

/-- The base of an integer constant, and the text without the prefix that gives the base. The zero of an octal constant is
one of its digits. -/
def radix : List Char → Nat × List Char
  | '0' :: 'x' :: r => (16, r)
  | '0' :: 'X' :: r => (16, r)
  | '0' :: r => (8, '0' :: r)
  | s => (10, s)

/-- The value of an integer constant. A text that is not one has none. -/
def integerConstant? (s : List Char) : Option Nat :=
  let (base, text) := radix s
  let digits := text.takeWhile (isDigitIn base)
  if !digits.isEmpty && integerSuffixes.contains (text.drop digits.length) then some (positional base digits) else none

/-- Three constants and a text that is none. -/
example : ["0x1Fu", "017L", "170"].map (fun s => integerConstant? s.toList) = [some 31, some 15, some 170] ∧
    integerConstant? "018".toList = none := by
  decide +kernel

-- ---------------------------------------------------------------------------
-- Digits
-- ---------------------------------------------------------------------------

theorem positional_concat (base : Nat) (digits : List Char) (c : Char) :
    positional base (digits ++ [c]) = base * positional base digits + digitValue c := by
  simp [positional]

/-- No digit is worth more than the number it stands in. -/
theorem digitValue_le_positional {base : Nat} (hBase : 0 < base) {digits : List Char} {c : Char} (hc : c ∈ digits) :
    digitValue c ≤ positional base digits := by
  induction digits using List.reverseRecOn with
  | nil => simp at hc
  | append_singleton digits d ih =>
    rw [positional_concat]
    rcases List.mem_append.mp hc with hc | hc
    · have hEarlier := ih hc
      have hScaled := Nat.le_mul_of_pos_left (positional base digits) hBase
      omega
    · rw [List.mem_singleton.mp hc]
      omega

theorem positional_eight_le (digits : List Char) : positional 8 digits ≤ positional 10 digits := by
  induction digits using List.reverseRecOn with
  | nil => exact Nat.le_refl 0
  | append_singleton digits d ih =>
    rw [positional_concat, positional_concat]
    omega

/-- Only the last digit counts the same in both bases. -/
theorem positional_eight_eq_iff {digits : List Char} (h : ∀ c ∈ digits, isDigitIn 8 c = true) :
    positional 8 digits = positional 10 digits ↔ positional 10 digits < 8 := by
  cases digits using List.reverseRecOn with
  | nil => decide
  | append_singleton before last =>
    have hLast : digitValue last < 8 := by simpa [isDigitIn] using h last (by simp)
    have hBefore := positional_eight_le before
    rw [positional_concat, positional_concat]
    omega

-- ---------------------------------------------------------------------------
-- Rows of digits
-- ---------------------------------------------------------------------------

/-- Digits of the base, and a suffix that does not go on with them. -/
theorem integerConstant?_of_radix {s digits suffix : List Char} {base : Nat} (hRadix : radix s = (base, digits ++ suffix))
    (hSome : digits ≠ []) (hDigits : ∀ c ∈ digits, isDigitIn base c = true) (hSuffix : suffix ∈ integerSuffixes)
    (hEnd : NotAhead (isDigitIn base) suffix) : integerConstant? s = some (positional base digits) := by
  have hTake : (digits ++ suffix).takeWhile (isDigitIn base) = digits := takeWhile_append_of_notAhead hDigits hEnd
  rw [integerConstant?, hRadix]
  dsimp only
  rw [hTake, List.drop_left]
  refine if_pos (Bool.and_eq_true_iff.mpr ⟨?_, List.contains_iff_mem.mpr hSuffix⟩)
  rw [List.isEmpty_eq_false_iff.mpr hSome, Bool.not_false]

/-- A decimal digit is one of ten characters. -/
theorem mem_digits_of_isDigit {c : Char} (h : c.isDigit = true) : c ∈ "0123456789".toList := by
  simp only [Char.isDigit, Bool.and_eq_true, decide_eq_true_eq, ge_iff_le, UInt32.le_iff_toNat_le] at h
  have hLow : 48 ≤ c.val.toNat := h.1
  have hHigh : c.val.toNat ≤ 57 := h.2
  rw [← Char.ofNat_toNat c, show c.toNat = c.val.toNat from rfl]
  interval_cases c.val.toNat <;> decide

theorem isDigitIn_ten {c : Char} (h : c.isDigit = true) : isDigitIn 10 c = true := by
  have hAll : "0123456789".toList.all (isDigitIn 10) = true := by decide
  exact List.all_eq_true.mp hAll c (mem_digits_of_isDigit h)

theorem isDigitIn_sixteen {c : Char} (h : isHexDigit c = true) : isDigitIn 16 c = true := by
  have hAll : ("0123456789".toList ++ "abcdefABCDEF".toList).all (isDigitIn 16) = true := by decide
  refine List.all_eq_true.mp hAll c (List.mem_append.mpr ?_)
  rcases Bool.or_eq_true_iff.mp h with h | h
  · exact Or.inl (mem_digits_of_isDigit h)
  · exact Or.inr (List.contains_iff_mem.mp h)

/-- Digits that do not start with a zero are decimal. -/
theorem radix_of_head_ne {s : List Char} (h : s.head? ≠ some '0') : radix s = (10, s) := by
  unfold radix
  split
  · exact absurd rfl h
  · exact absurd rfl h
  · exact absurd rfl h
  · rfl

/-- Digits that start with a zero are octal. -/
theorem radix_of_isDigits {s : List Char} (hDigits : ∀ c ∈ s, c.isDigit = true) (h : s.head? = some '0') :
    radix s = (8, s) := by
  unfold radix
  split
  · exact absurd (hDigits 'x' (by simp)) (by decide)
  · exact absurd (hDigits 'X' (by simp)) (by decide)
  · rfl
  · rename_i hZero
    cases s with
    | nil => cases h
    | cons c r => exact absurd (congrArg (· :: r) (Option.some.inj h)) (hZero r)

/-- A decimal digit that is not octal ends a constant where none can end. -/
theorem integerConstant?_eq_none {s : List Char} (hRadix : radix s = (8, s)) (hDigits : ∀ c ∈ s, c.isDigit = true)
    (h : ¬ ∀ c ∈ s, isDigitIn 8 c = true) : integerConstant? s = none := by
  have hSuffixes : ∀ suffix ∈ integerSuffixes, suffix.all (fun c => !c.isDigit) = true := by decide +kernel
  rw [integerConstant?, hRadix]
  dsimp only
  refine if_neg fun hConstant => h ?_
  have hSuffix := List.contains_iff_mem.mp (Bool.and_eq_true_iff.mp hConstant).2
  -- a suffix has no digits in it, so the octal digits are all there is
  have hRest : s.drop (s.takeWhile (isDigitIn 8)).length = [] := by
    refine List.eq_nil_iff_forall_not_mem.mpr fun c hc => ?_
    have hNot := List.all_eq_true.mp (hSuffixes _ hSuffix) c hc
    simp [hDigits c (List.drop_subset _ _ hc)] at hNot
  have hLength := List.drop_eq_nil_iff.mp hRest
  have hAll : s.takeWhile (isDigitIn 8) = s := (List.takeWhile_prefix _).eq_of_length_le hLength
  intro c hc
  rw [← hAll] at hc
  exact List.all_eq_true.mp List.all_takeWhile c hc

/-- Decimal digits as a constant. -/
theorem integerConstant?_digits_iff {s : List Char} (h : IsDigits s) :
    integerConstant? s = some (positional 10 s) ↔ s.head? ≠ some '0' ∨ positional 10 s < 8 := by
  obtain ⟨hSome, hDigits⟩ := h
  have hWhole : ∀ {base : Nat}, radix s = (base, s) → (∀ c ∈ s, isDigitIn base c = true) →
      integerConstant? s = some (positional base s) := by
    intro base hRadix hIn
    exact integerConstant?_of_radix (by rw [hRadix, List.append_nil]) hSome hIn (by decide) (notAhead_nil _)
  by_cases hZero : s.head? = some '0'
  · have hRadix := radix_of_isDigits hDigits hZero
    rw [or_iff_right (not_not.mpr hZero)]
    by_cases hOctal : ∀ c ∈ s, isDigitIn 8 c = true
    · rw [hWhole hRadix hOctal, Option.some.injEq, positional_eight_eq_iff hOctal]
    · rw [integerConstant?_eq_none hRadix hDigits hOctal]
      refine iff_of_false (by simp) fun hSmall => hOctal fun c hc => ?_
      have hLe := digitValue_le_positional (show 0 < 10 by decide) hc
      simpa [isDigitIn] using Nat.lt_of_le_of_lt hLe hSmall
  · exact iff_of_true (hWhole (radix_of_head_ne hZero) fun c hc => isDigitIn_ten (hDigits c hc)) (Or.inl hZero)

/-- Hexadecimal digits as a constant, with the prefix and the mark that they are written with. -/
theorem integerConstant?_hex {s : List Char} (hSome : s ≠ []) (h : ∀ c ∈ s, isHexDigit c = true) :
    integerConstant? ('0' :: 'x' :: (s ++ ['u'])) = some (positional 16 s) :=
  integerConstant?_of_radix rfl hSome (fun c hc => isDigitIn_sixteen (h c hc)) (by decide) (notAhead_cons.mpr (by decide))

end C

-- ---------------------------------------------------------------------------
-- Literals
-- ---------------------------------------------------------------------------

open C

/-- The number that the digits of a whole literal stand for. -/
inductive NumberForm.Denotes : NumberForm → Nat → Prop where
  | integer {digits : String} : IsDigits digits.toList → Denotes (.integer digits) (positional 10 digits.toList)
  | hex {digits : String} : digits ≠ "" → (∀ c ∈ digits.toList, isHexDigit c = true) →
      Denotes (.hex digits) (positional 16 digits.toList)

/-- The literal starts with a zero, and no prefix is written before it. -/
def NumberForm.HasLeadingZero : NumberForm → Prop
  | .integer digits => digits.toList.head? = some '0'
  | _ => False

/-- **Whole numbers.** A literal of decimal or hexadecimal digits is written as a text that C reads as an integer constant
with the value of the literal, exactly if it does not start with a zero or its value is below eight. -/
theorem integer_literal_keeps_value_iff {form : NumberForm} {value : Nat} (h : form.Denotes value) :
    ∃ x, form.spelling = .ok x ∧ (integerConstant? x.toList = some value ↔ (form.HasLeadingZero → value < 8)) := by
  cases h with
  | @integer digits hDigits =>
    refine ⟨digits, rfl, ?_⟩
    rw [integerConstant?_digits_iff hDigits, NumberForm.HasLeadingZero]
    tauto
  | @hex digits hSome hDigits =>
    have hChars : digits.toList ≠ [] := fun hNil => hSome (String.toList_eq_nil_iff.mp hNil)
    have hText : ("0x" ++ digits ++ "u").toList = '0' :: 'x' :: (digits.toList ++ ['u']) := by
      simp [String.toList_append]
    refine ⟨_, rfl, ?_⟩
    rw [hText, integerConstant?_hex hChars hDigits]
    exact iff_of_true rfl False.elim

/-- A literal with zeros that do not matter, and a hexadecimal one. -/
theorem integer_literal_keeps_value_iff_seven :
    ((NumberForm.integer "007").Denotes 7 ∧ ∃ x, (NumberForm.integer "007").spelling = .ok x ∧
      integerConstant? x.toList = some 7) ∧
    (NumberForm.hex "0B1eE").Denotes 45550 ∧ ∃ x, (NumberForm.hex "0B1eE").spelling = .ok x ∧
      integerConstant? x.toList = some 45550 := by
  have hInteger : (NumberForm.integer "007").Denotes 7 := .integer ⟨by decide, List.all_eq_true.mp (by decide)⟩
  have hHex : (NumberForm.hex "0B1eE").Denotes 45550 := .hex (by decide) (List.all_eq_true.mp (by decide))
  obtain ⟨x, hSpelling, hIff⟩ := integer_literal_keeps_value_iff hInteger
  obtain ⟨y, hSpelling', hIff'⟩ := integer_literal_keeps_value_iff hHex
  exact ⟨⟨hInteger, x, hSpelling, hIff.mpr fun _ => by decide⟩, hHex, y, hSpelling', hIff'.mpr False.elim⟩

/-- Ten with a leading zero is eight in C, and nine with a leading zero is no constant. -/
theorem generate_octal_literal :
    (generate ⟨4, .standard⟩ (.block [.number (.integer "010") none ⟨0, 3⟩, .number (.integer "09") none ⟨4, 6⟩]
      ⟨0, 6⟩)).result = .ok "#include <stdint.h>\n\nint main() \x7b\n    010;\n    09;\n    return 0;\n\x7d\n" ∧
    (NumberForm.integer "010").Denotes 10 ∧ integerConstant? "010".toList = some 8 ∧
    (NumberForm.integer "09").Denotes 9 ∧ integerConstant? "09".toList = none :=
  ⟨by rfl, .integer ⟨by decide, List.all_eq_true.mp (by decide)⟩, by decide +kernel,
    .integer ⟨by decide, List.all_eq_true.mp (by decide)⟩, by decide +kernel⟩

end Lowering
