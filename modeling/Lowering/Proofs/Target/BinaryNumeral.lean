import Mathlib.Tactic.Common
import Lowering.Target.NumberText

/-!
# Binary numerals

Which rows of characters are binary numerals, said through the number they stand for. The reader gives up at the first
digit at which its value leaves the 64 bits; the numeral is judged by its value as a whole. The two agree because the
value only grows from digit to digit.

* `binaryValue?_eq_some_iff` — the reader gives the value of exactly the numerals whose value has 64 bits.
-/

namespace Lowering.Target

/-- The number that bits stand for when they are read on from a number. -/
def bitsValueFrom (start : Nat) (bits : List Char) : Nat :=
  bits.foldl (fun value c => 2 * value + if c = '1' then 1 else 0) start

/-- The number that bits stand for. -/
def bitsValue (bits : List Char) : Nat :=
  bitsValueFrom 0 bits

/-- Bits after at most one plus sign. -/
structure IsBinaryNumeral (digits bits : List Char) : Prop where
  sign : digits = bits ∨ digits = '+' :: bits
  nonempty : bits ≠ []
  bits : ∀ c ∈ bits, c = '0' ∨ c = '1'

theorem bitsValueFrom_cons (start : Nat) (c : Char) (bits : List Char) :
    bitsValueFrom start (c :: bits) = bitsValueFrom (2 * start + if c = '1' then 1 else 0) bits := rfl

/-- Reading on never makes the value smaller. -/
theorem le_bitsValueFrom (start : Nat) (bits : List Char) : start ≤ bitsValueFrom start bits := by
  induction bits generalizing start with
  | nil => exact Nat.le_refl start
  | cons c rest ih =>
    rw [bitsValueFrom_cons]
    have hRest := ih (2 * start + if c = '1' then 1 else 0)
    omega

theorem binaryDigit?_eq_some_iff {c : Char} {d : Nat} :
    binaryDigit? c = some d ↔ (c = '0' ∨ c = '1') ∧ d = if c = '1' then 1 else 0 := by
  unfold binaryDigit?
  split
  · simp [eq_comm]
  · simp [eq_comm]
  · rename_i hZero hOne
    constructor
    · intro h
      exact absurd h (by simp)
    · rintro ⟨hBit | hBit, -⟩
      · exact absurd hBit hZero
      · exact absurd hBit hOne

/-- The reader, from any value on: all characters are bits, and a value that was changed at all has 64 bits. -/
theorem binaryValueFrom_eq_some_iff {start v : Nat} {cs : List Char} :
    binaryValueFrom start cs = some v ↔
      (∀ c ∈ cs, c = '0' ∨ c = '1') ∧ bitsValueFrom start cs = v ∧ (cs = [] ∨ v < UInt64.size) := by
  induction cs generalizing start with
  | nil => simp [binaryValueFrom, bitsValueFrom]
  | cons c rest ih =>
    rw [binaryValueFrom, bitsValueFrom_cons]
    cases hDigit : binaryDigit? c with
    | none =>
      have hNot : ¬ (c = '0' ∨ c = '1') := by
        intro hBit
        have hSome := binaryDigit?_eq_some_iff.mpr ⟨hBit, rfl⟩
        rw [hDigit] at hSome
        exact absurd hSome (by simp)
      simp [hNot]
    | some d =>
      obtain ⟨hBit, rfl⟩ := binaryDigit?_eq_some_iff.mp hDigit
      have hGrows := le_bitsValueFrom (2 * start + if c = '1' then 1 else 0) rest
      by_cases hFits : (2 * start + if c = '1' then 1 else 0) < UInt64.size
      · simp only [hFits, if_true, ih, List.forall_mem_cons, hBit, true_and, reduceCtorEq, false_or]
        constructor
        · rintro ⟨hBits, hValue, hEnd⟩
          refine ⟨hBits, hValue, ?_⟩
          rcases hEnd with rfl | hLt
          · rw [← hValue]
            exact hFits
          · exact hLt
        · rintro ⟨hBits, hValue, hLt⟩
          exact ⟨hBits, hValue, Or.inr hLt⟩
      · simp only [hFits, if_false, reduceCtorEq, false_or, false_iff]
        rintro ⟨-, hValue, hLt⟩
        omega

/-- The reader gives the value of exactly the numerals whose value has 64 bits. -/
theorem binaryValue?_eq_some_iff {digits : List Char} {v : Nat} :
    binaryValue? digits = some v ↔ ∃ bits, IsBinaryNumeral digits bits ∧ bitsValue bits = v ∧ v < UInt64.size := by
  have hRead : ∀ {bits : List Char}, bits ≠ [] →
      (binaryValueFrom 0 bits = some v ↔ (∀ c ∈ bits, c = '0' ∨ c = '1') ∧ bitsValue bits = v ∧ v < UInt64.size) := by
    intro bits hNonempty
    rw [binaryValueFrom_eq_some_iff, bitsValue, or_iff_right hNonempty]
  constructor
  · intro h
    unfold binaryValue? at h
    split at h
    · exact absurd h (by simp)
    · exact absurd h (by simp)
    · rename_i bits hNotAlone
      have hNonempty : bits ≠ [] := fun hNil => hNotAlone (by rw [hNil])
      obtain ⟨hBits, hValue, hLt⟩ := (hRead hNonempty).mp h
      exact ⟨bits, ⟨Or.inr rfl, hNonempty, hBits⟩, hValue, hLt⟩
    · rename_i hNonempty _ _
      obtain ⟨hBits, hValue, hLt⟩ := (hRead hNonempty).mp h
      exact ⟨digits, ⟨Or.inl rfl, hNonempty, hBits⟩, hValue, hLt⟩
  · rintro ⟨bits, ⟨hSign, hNonempty, hBits⟩, hValue, hLt⟩
    have hGo := (hRead hNonempty).mpr ⟨hBits, hValue, hLt⟩
    rcases hSign with rfl | rfl
    · -- a numeral without a sign does not start with a plus, so the reader takes it as it is
      unfold binaryValue?
      split
      · exact absurd rfl hNonempty
      · simp at hBits
      · rename_i rest _
        have hPlus := hBits '+' (List.mem_cons_self ..)
        simp at hPlus
      · exact hGo
    · unfold binaryValue?
      split
      · rename_i hEq
        exact absurd hEq (by simp)
      · rename_i hEq
        simp only [List.cons.injEq, true_and] at hEq
        exact absurd hEq hNonempty
      · rename_i rest _ hEq
        simp only [List.cons.injEq, true_and] at hEq
        rw [← hEq]
        exact hGo
      · rename_i hNotPlus
        exact absurd rfl (hNotPlus bits)

end Lowering.Target
