import Mathlib.Algebra.Order.Ring.Nat
import Lowering.Proofs.Constants

/-!
# Binary literals

The C that is written has no binary constants, so a binary literal is converted: its digits are read in base two, and the
number is written in decimal, with the mark of an unsigned constant. There may be any number of digits, after at most one
plus sign, as long as the number they stand for has 64 bits. Everything else is refused, and the fault is at the literal.

* `isDecimalNumeral_toDigits`, `positional_toDigits` — the decimal numeral of a number, and what it is read back as.
* `NumberForm.spelling_binary` — the spelling of binary digits.
* `binary_literal_converted` — which binary literals are written, and how.
-/

namespace Lowering

open C Target

-- ---------------------------------------------------------------------------
-- Decimal numerals
-- ---------------------------------------------------------------------------

/-- One or more decimal digits, with no zero in front of others. -/
structure IsDecimalNumeral (s : List Char) : Prop where
  digits : IsDigits s
  lead : s.head? = some '0' → s = ['0']

theorem digitValue_of_isDigit {c : Char} (h : c.isDigit = true) : digitValue c = c.toNat - '0'.toNat := by
  have hAll : "0123456789".toList.all (fun c => digitValue c == c.toNat - '0'.toNat) = true := by decide
  exact beq_iff_eq.mp (List.all_eq_true.mp hAll c (mem_digits_of_isDigit h))

/-- The numeral of a number is read back as the number. -/
theorem positional_toDigits (n : Nat) : positional 10 (Nat.toDigits 10 n) = n := by
  have hDigits : positional 10 (Nat.toDigits 10 n) = Nat.ofDigitChars 10 (Nat.toDigits 10 n) 0 := by
    refine List.foldl_ext _ _ _ fun v c hc => ?_
    rw [digitValue_of_isDigit (isDigit_toDigits hc)]
  rw [hDigits, Nat.ofDigitChars_ten_toDigits]

theorem isDecimalNumeral_toDigits (n : Nat) : IsDecimalNumeral (Nat.toDigits 10 n) where
  digits := isDigits_toDigits n
  lead h := by
    rcases Nat.eq_zero_or_pos n with rfl | hPos
    · rfl
    · exact absurd h (head?_toDigits hPos)

/-- A numeral with the mark of an unsigned constant is one, of the value of the numeral. -/
theorem IsDecimalNumeral.integerConstant?_unsigned {s : List Char} (h : IsDecimalNumeral s) :
    integerConstant? (s ++ ['u']) = some (positional 10 s) := by
  by_cases hZero : s.head? = some '0'
  · rw [h.lead hZero]
    decide +kernel
  · have hHead : (s ++ ['u']).head? ≠ some '0' := by rwa [List.head?_append_of_ne_nil _ h.digits.1]
    exact integerConstant?_of_radix (radix_of_head_ne hHead) h.digits.1 (fun c hc => isDigitIn_ten (h.digits.2 c hc))
      (by decide) (notAhead_cons.mpr (by decide))

-- ---------------------------------------------------------------------------
-- Binary digits
-- ---------------------------------------------------------------------------

/-- The digits are a binary numeral whose number has 64 bits. -/
def IsWordNumeral (digits bits : List Char) : Prop :=
  IsBinaryNumeral digits bits ∧ positional 2 bits < 2 ^ 64

theorem Target.IsBinaryNumeral.bitsValue_eq {digits bits : List Char} (h : IsBinaryNumeral digits bits) :
    bitsValue bits = positional 2 bits := by
  refine List.foldl_ext _ _ _ fun v c hc => ?_
  rcases h.bits c hc with rfl | rfl <;> rfl

/-- What the reader of binary digits gives. -/
theorem binaryValue?_eq_some_iff_positional {digits : List Char} {v : Nat} :
    binaryValue? digits = some v ↔ ∃ bits, IsWordNumeral digits bits ∧ positional 2 bits = v := by
  have hSize : UInt64.size = 2 ^ 64 := by norm_num [UInt64.size]
  rw [binaryValue?_eq_some_iff, hSize]
  refine exists_congr fun bits => ⟨?_, ?_⟩
  · rintro ⟨hNumeral, rfl, hLt⟩
    rw [hNumeral.bitsValue_eq] at hLt ⊢
    exact ⟨⟨hNumeral, hLt⟩, rfl⟩
  · rintro ⟨⟨hNumeral, hLt⟩, rfl⟩
    exact ⟨hNumeral, hNumeral.bitsValue_eq, hLt⟩

namespace NumberForm

/-- The spelling of a number of 64 bits. -/
theorem spelling_binary {digits : String} {bits : List Char} (h : IsWordNumeral digits.toList bits) :
    (NumberForm.binary digits).spelling = .ok (toString (positional 2 bits) ++ "u") := by
  rw [spelling, binaryValue?_eq_some_iff_positional.mpr ⟨bits, h, rfl⟩]

/-- All other digits are refused. -/
theorem spelling_binary_of_not {digits : String} (h : ¬ ∃ bits, IsWordNumeral digits.toList bits) :
    (NumberForm.binary digits).spelling = .error (.invalidBinary digits) := by
  have hNone : binaryValue? digits.toList = none := by
    refine Option.eq_none_iff_forall_ne_some.mpr fun v hValue => h ?_
    obtain ⟨bits, hNumeral, -⟩ := binaryValue?_eq_some_iff_positional.mp hValue
    exact ⟨bits, hNumeral⟩
  rw [spelling, hNone]

end NumberForm

-- ---------------------------------------------------------------------------
-- Literals
-- ---------------------------------------------------------------------------

/-- Digits that have no spelling are reported at the literal, whatever its suffix is. -/
theorem resolve_of_spelling_error {form : NumberForm} {cause : Cause} (h : form.spelling = .error cause)
    (suffix : Option String) (span : Span) (d : Draft) :
    Literal.resolve form suffix span d = .error ⟨span, cause⟩ d := by
  have hResolve : resolveNumber form suffix = .error cause := by
    rw [resolveNumber, h]
    rfl
  rw [Literal.resolve, hResolve]
  rfl

/-- A literal that cannot be resolved is not written. -/
theorem visit_number_of_spelling_error {form : NumberForm} {cause : Cause} (h : form.spelling = .error cause)
    (suffix : Option String) (span : Span) (d : Draft) :
    ∃ e, visit .standard (.number form suffix span) d = .error ⟨span, cause⟩ e := by
  have hNumber : ∀ d, Literal.number form suffix span d = .error ⟨span, cause⟩ d := by
    intro d
    show EStateM.bind (Literal.resolve form suffix span) _ d = _
    rw [EStateM.bind, resolve_of_spelling_error h]
  have hVisit : visit .standard (.number form suffix span) d =
      Gen.below .number (Literal.number form suffix span)
        (d.note (.dispatch (.number form suffix span) (d.site.descend .number))) := rfl
  rw [hVisit, Gen.below, Gen.between, hNumber]
  exact ⟨_, rfl⟩

/-- **Binary literals.** A binary literal is written exactly if its digits are bits, after at most one plus sign, that stand
for a number of 64 bits. What is written is the decimal numeral of that number with the mark `u`, and C reads it as that
number. Otherwise the literal is an unknown construct, wherever it stands. -/
theorem binary_literal_converted (digits : String) :
    ((∃ x, (NumberForm.binary digits).spelling = .ok x) ↔ ∃ bits, IsWordNumeral digits.toList bits) ∧
    (∀ bits, IsWordNumeral digits.toList bits → ∃ numeral : String,
      (NumberForm.binary digits).spelling = .ok (numeral ++ "u") ∧ IsDecimalNumeral numeral.toList ∧
      positional 10 numeral.toList = positional 2 bits ∧
      integerConstant? (numeral ++ "u").toList = some (positional 2 bits)) ∧
    ((¬ ∃ bits, IsWordNumeral digits.toList bits) → ∃ cause, cause.kind = .unknownConstruct ∧
      (NumberForm.binary digits).spelling = .error cause ∧ ∀ suffix span d,
        Literal.resolve (.binary digits) suffix span d = .error ⟨span, cause⟩ d ∧
        ∃ e, visit .standard (.number (.binary digits) suffix span) d = .error ⟨span, cause⟩ e) := by
  refine ⟨⟨?_, ?_⟩, ?_, ?_⟩
  · rintro ⟨x, hSpelling⟩
    by_contra hNot
    rw [NumberForm.spelling_binary_of_not hNot] at hSpelling
    cases hSpelling
  · rintro ⟨bits, hNumeral⟩
    exact ⟨_, NumberForm.spelling_binary hNumeral⟩
  · intro bits hNumeral
    have hText := toList_decimal (positional 2 bits)
    have hDecimal := isDecimalNumeral_toDigits (positional 2 bits)
    refine ⟨toString (positional 2 bits), NumberForm.spelling_binary hNumeral, ?_, ?_, ?_⟩
    · rwa [hText]
    · rw [hText, positional_toDigits]
    · have hConstant := hDecimal.integerConstant?_unsigned
      rw [positional_toDigits, ← hText] at hConstant
      rw [String.toList_append]
      exact hConstant
  · intro hNot
    have hSpelling := NumberForm.spelling_binary_of_not hNot
    exact ⟨.invalidBinary digits, rfl, hSpelling, fun suffix span d =>
      ⟨resolve_of_spelling_error hSpelling suffix span d, visit_number_of_spelling_error hSpelling suffix span d⟩⟩

/-- The largest number of 64 bits after zeros and a sign, and the number after it. -/
theorem binary_literal_converted_largest :
    let largest := "+000" ++ String.ofList (List.replicate 64 '1')
    let next := "1" ++ String.ofList (List.replicate 64 '0')
    (∃ numeral : String, (NumberForm.binary largest).spelling = .ok (numeral ++ "u") ∧
      positional 10 numeral.toList = 2 ^ 64 - 1) ∧
    ∀ d, ∃ fault e, visit .standard (.number (.binary next) none ⟨3, 70⟩) d = .error fault e ∧ fault.span = ⟨3, 70⟩ ∧
      fault.cause.kind = .unknownConstruct := by
  intro largest next
  have hLargest : IsWordNumeral largest.toList ("000".toList ++ List.replicate 64 '1') := by
    refine ⟨⟨Or.inr ?_, by simp, List.forall_mem_append.mpr ⟨?_, fun c hc => Or.inr (List.eq_of_mem_replicate hc)⟩⟩, ?_⟩
    · rw [String.toList_append, String.toList_ofList]
      rfl
    · exact List.forall_iff_forall_mem.mp (by decide)
    · decide +kernel
  have hNext : ¬ ∃ bits, IsWordNumeral next.toList bits := by
    have hNone : binaryValue? next.toList = none := by
      rw [String.toList_append, String.toList_ofList]
      decide +kernel
    rw [← (binary_literal_converted next).1, NumberForm.spelling, hNone]
    simp
  obtain ⟨numeral, hSpelling, -, hValue, -⟩ := (binary_literal_converted largest).2.1 _ hLargest
  obtain ⟨cause, hKind, -, hFault⟩ := (binary_literal_converted next).2.2 hNext
  refine ⟨⟨numeral, hSpelling, hValue.trans (by decide +kernel)⟩, fun d => ?_⟩
  obtain ⟨e, hVisit⟩ := (hFault none ⟨3, 70⟩ d).2
  exact ⟨_, e, hVisit, rfl, hKind⟩

end Lowering
