import Lowering.Emit.Literal
import Lowering.Proofs.C.Grammar
import Lowering.Proofs.Decimal
import Lowering.Proofs.Tree.Lowerable

/-!
# Names and constants in C

What the generator writes for names, types and number literals, seen as C tokens: an escaped name is an identifier that
means nothing else, the type of a suffix is one word, and the literal is one number.

* `isName_escapeName`, `isName_recordName` — names of the program and of string records stand for values.
* `isNumeral_spelling` — the spelling of a literal whose digits fit its form is a C number.
-/

namespace Lowering

open C

-- ---------------------------------------------------------------------------
-- Names
-- ---------------------------------------------------------------------------

theorem C.IsIdentifier.append {w s : List Char} (h : IsIdentifier w) (hs : ∀ c ∈ s, isWordChar c = true) :
    IsIdentifier (w ++ s) := by
  cases w with
  | nil => exact h.elim
  | cons c w => exact ⟨h.1, List.forall_mem_append.mpr ⟨h.2, hs⟩⟩

theorem isWordChar_of_mem_decimal (n : Nat) : ∀ c ∈ (toString n).toList, isWordChar c = true := by
  intro c hc
  rw [toList_decimal] at hc
  simp [isWordChar, Char.isAlphanum, isDigit_toDigits hc]

/-- A word with a number at its end. -/
theorem isIdentifier_numbered {stem : String} (h : IsIdentifier stem.toList) (n : Nat) :
    IsIdentifier (stem ++ toString n).toList := by
  rw [String.toList_append]
  exact h.append (isWordChar_of_mem_decimal n)

namespace Target

theorem isIdentifier_escapeName {name : String} (h : IsIdentifier name.toList) :
    IsIdentifier (escapeName name).toList := by
  unfold escapeName
  split
  · rw [String.toList_append]
    exact h.append (List.all_eq_true.mp (by decide))
  · exact h

/-- A word that is in neither list stands for a value. -/
theorem isName_of_not_mem {word : String} (h : word ∉ keywords ++ typeWords) : isName word.toList = true := by
  rw [List.mem_append, not_or] at h
  simp [isName, String.ofList_toList, h.1, h.2]

/-- No escaped name means anything else. -/
theorem isName_escapeName (name : String) : isName (escapeName name).toList = true := by
  refine isName_of_not_mem ?_
  unfold escapeName
  split
  · -- No reserved word ends in an underscore.
    intro hMem
    have hLast : ∀ word ∈ keywords ++ typeWords, word.toList.getLast? ≠ some '_' := by decide +kernel
    exact hLast _ hMem (by simp [String.toList_append])
  · rename_i hFree
    simp only [isReserved, isKeyword, Bool.or_eq_true, List.contains_iff_mem, not_or] at hFree
    rw [List.mem_append]
    tauto

end Target

namespace Literal

theorem toList_recordName (span : Span) :
    (recordName span).toList = "__strlit_".toList ++ Nat.toDigits 10 span.start := by
  rw [recordName, String.toList_append, toList_decimal]

theorem isIdentifier_recordName (span : Span) : IsIdentifier (recordName span).toList :=
  isIdentifier_numbered (by decide) span.start

theorem isName_recordName (span : Span) : isName (recordName span).toList = true := by
  refine Target.isName_of_not_mem ?_
  intro hMem
  have hStart : ∀ word ∈ Target.keywords ++ Target.typeWords, word.toList.take 2 ≠ ['_', '_'] := by decide +kernel
  exact hStart _ hMem (by rw [toList_recordName]; rfl)

end Literal

-- ---------------------------------------------------------------------------
-- Types
-- ---------------------------------------------------------------------------

/-- Every numeric type has a C type, spelled as one word. -/
theorem exists_numericType (type : Numeric) :
    ∃ t, Target.primitiveTypes.find? type.name = some t ∧ IsIdentifier t.spelling.toList ∧
      isTypeName t.spelling.toList = true := by
  rcases type with (_ | _ | _ | _ | _) | (_ | _ | _ | _ | _) | (_ | _ | _)
  all_goals exact ⟨_, rfl, by decide, by decide⟩

-- ---------------------------------------------------------------------------
-- Numbers
-- ---------------------------------------------------------------------------

/-- One or more decimal digits. -/
def IsDigits (s : List Char) : Prop :=
  s ≠ [] ∧ ∀ c ∈ s, c.isDigit = true

/-- Decimal digits with at most one point among them. -/
inductive IsDecimal : List Char → Prop where
  | whole {s : List Char} : IsDigits s → IsDecimal s
  | point {s t : List Char} : IsDigits (s ++ t) → IsDecimal (s ++ '.' :: t)

/-- Decimal digits after at most one sign. -/
inductive IsExponent : List Char → Prop where
  | plain {s : List Char} : IsDigits s → IsExponent s
  | signed {sign : Char} {s : List Char} : isSign sign = true → IsDigits s → IsExponent (sign :: s)

def isHexDigit (c : Char) : Bool :=
  c.isDigit || "abcdefABCDEF".toList.contains c

/-- The digits of a literal are those of its form. -/
def NumberForm.WellFormed : NumberForm → Prop
  | .integer digits => IsDigits digits.toList
  | .decimal digits => IsDecimal digits.toList
  | .scientific mantissa exponent => IsDecimal mantissa.toList ∧ IsExponent exponent.toList
  | .hex digits => digits ≠ "" ∧ ∀ c ∈ digits.toList, isHexDigit c = true
  | .binary digits => (NumberForm.binary digits).Spellable

theorem isNumberChar_of_isDigit {c : Char} (h : c.isDigit = true) : isNumberChar c = true := by
  simp [isNumberChar, isWordChar, Char.isAlphanum, h]

theorem isNumberChar_of_isHexDigit {c : Char} (h : isHexDigit c = true) : isNumberChar c = true := by
  have hAll : "abcdefABCDEF".toList.all isNumberChar = true := by decide
  rcases Bool.or_eq_true_iff.mp h with h | h
  · exact isNumberChar_of_isDigit h
  · exact List.all_eq_true.mp hAll c (List.contains_iff_mem.mp h)

theorem isDigits_toDigits (n : Nat) : IsDigits (Nat.toDigits 10 n) :=
  ⟨Nat.toDigits_ne_nil, fun _ hc => isDigit_toDigits hc⟩

theorem IsDigits.startsNumber {s : List Char} (h : IsDigits s) : startsNumber s = true := by
  cases s with
  | nil => exact absurd rfl h.1
  | cons c s => simp [C.startsNumber, h.2 c (List.mem_cons_self ..)]

theorem IsDigits.isNumberChar {s : List Char} (h : IsDigits s) : ∀ c ∈ s, isNumberChar c = true :=
  fun c hc => isNumberChar_of_isDigit (h.2 c hc)

theorem IsDecimal.startsNumber {s : List Char} (h : IsDecimal s) : startsNumber s = true := by
  cases h with
  | whole h => exact h.startsNumber
  | @point s t h =>
    cases s with
    | nil =>
      cases t with
      | nil => exact absurd rfl h.1
      | cons c t => simp [C.startsNumber, h.2 c (List.mem_cons_self ..)]
    | cons c s => simp [C.startsNumber, h.2 c (List.mem_cons_self ..)]

theorem IsDecimal.isNumberChar {s : List Char} (h : IsDecimal s) : ∀ c ∈ s, isNumberChar c = true := by
  cases h with
  | whole h => exact h.isNumberChar
  | @point s t h =>
    intro c hc
    rw [List.mem_append, List.mem_cons] at hc
    rcases hc with hc | rfl | hc
    · exact h.isNumberChar c (List.mem_append_left t hc)
    · decide
    · exact h.isNumberChar c (List.mem_append_right s hc)

/-- Digits of another kind between a decimal digit and the mark for unsigned constants. -/
theorem isNumeral_unsigned {s : List Char} (hStart : startsNumber s = true) (h : ∀ c ∈ s, isNumberChar c = true) :
    IsNumeral (s ++ ['u']) := by
  refine .plain (startsNumber_append hStart _) (fun c hc => ?_)
  rcases List.mem_append.mp hc with hc | hc
  · exact h c hc
  · rw [List.mem_singleton.mp hc]
    decide

theorem isNumeral_scientific {m x : List Char} (hm : IsDecimal m) (hx : IsExponent x) : IsNumeral (m ++ 'e' :: x) := by
  cases hx with
  | plain hx =>
    refine .plain (startsNumber_append hm.startsNumber _) (fun c hc => ?_)
    rw [List.mem_append, List.mem_cons] at hc
    rcases hc with hc | rfl | hc
    · exact hm.isNumberChar c hc
    · decide
    · exact hx.isNumberChar c hc
  | signed hSign hx => exact .signed hm.startsNumber hm.isNumberChar hSign hx.isNumberChar

/-- A literal whose digits fit its form has a spelling, and the spelling is a C number. -/
theorem isNumeral_spelling {form : NumberForm} (h : form.WellFormed) :
    ∃ x, form.spelling = .ok x ∧ IsNumeral x.toList := by
  cases form with
  | integer digits => exact ⟨digits, rfl, .plain (IsDigits.startsNumber h) (IsDigits.isNumberChar h)⟩
  | decimal digits => exact ⟨digits, rfl, .plain (IsDecimal.startsNumber h) (IsDecimal.isNumberChar h)⟩
  | scientific mantissa exponent =>
    refine ⟨_, rfl, ?_⟩
    simpa [String.toList_append] using isNumeral_scientific h.1 h.2
  | hex digits =>
    refine ⟨_, rfl, ?_⟩
    have hChars : ∀ c ∈ '0' :: 'x' :: digits.toList, isNumberChar c = true := by
      simp only [List.forall_mem_cons]
      exact ⟨by decide, by decide, fun c hc => isNumberChar_of_isHexDigit (h.2 c hc)⟩
    simpa [String.toList_append] using isNumeral_unsigned rfl hChars
  | binary digits =>
    obtain ⟨x, hx⟩ := (NumberForm.spelling_ok_iff (.binary digits)).mpr h
    refine ⟨x, hx, ?_⟩
    rw [NumberForm.spelling] at hx
    cases hValue : Target.binaryValue? digits.toList with
    | none => simp [hValue] at hx
    | some value =>
      rw [hValue, Except.ok.injEq] at hx
      have hDigits := isDigits_toDigits value
      have hText : x.toList = Nat.toDigits 10 value ++ ['u'] := by
        rw [← hx, String.toList_append, toList_decimal]
        rfl
      rw [hText]
      exact isNumeral_unsigned hDigits.startsNumber hDigits.isNumberChar

end Lowering
