import Lowering.Proofs.C.Layout
import Lowering.Proofs.Emit.Words

/-!
# Texts within a line

Names, types and numerals have no part in the layout, and the text of an expression closes every bracket that it opens.

One thing can go wrong: a number without digits has no text at all. Where a line starts with such a number and a blank
comes next, the blank looks like indentation. What is said about the front of a line is therefore said under a condition
`strict`, which excludes such numbers in the places where they do harm. That the brackets match does not depend on it.

* `Phrase` — a text that may stand at the front of a line.
* `Written` — the text of an expression, which may be empty.
-/

namespace Lowering

open C Addition

variable {strict : Prop}

-- ---------------------------------------------------------------------------
-- Words, types and numerals
-- ---------------------------------------------------------------------------

/-- A text within a line that leaves no bracket open, and that may stand at the front of the line. -/
structure Phrase (strict : Prop) (s : String) : Prop where
  flows : Flows [] s []
  front : strict → isFront s = true

theorem Phrase.append {s t : String} (hs : Phrase strict s) (ht : Flows [] t []) : Phrase strict (s ++ t) :=
  ⟨hs.flows.append ht, fun h => isFront_append (hs.front h) t⟩

theorem phrase_fixed (s : String) (h : Flows [] s [] ∧ isFront s = true) : Phrase strict s :=
  ⟨h.1, fun _ => h.2⟩

theorem isPlain_of_isWordChar {c : Char} (h : isWordChar c = true) : isPlain c = true := by
  have hLayout : layoutChars.all (fun d => !isWordChar d) = true := by decide
  refine decide_eq_true fun hMem => ?_
  have hOther := List.all_eq_true.mp hLayout c hMem
  rw [h] at hOther
  exact absurd hOther (by decide)

theorem isPlain_of_mem_word {s : String} (h : IsIdentifier s.toList) : ∀ c ∈ s.toList, isPlain c = true :=
  fun c hc => isPlain_of_isWordChar (isWordChar_of_mem h c hc)

theorem flows_word {s : String} (h : IsIdentifier s.toList) : Flows [] s [] :=
  flows_of_isPlain (isPlain_of_mem_word h)

theorem phrase_word {s : String} (h : IsIdentifier s.toList) : Phrase strict s := by
  refine ⟨flows_word h, fun _ => isFront_of_isPlain (isPlain_of_mem_word h) ?_⟩
  rintro rfl
  exact h

theorem isPlain_of_mem_decimal (n : Nat) : ∀ c ∈ (toString n).toList, isPlain c = true :=
  fun c hc => isPlain_of_isWordChar (isWordChar_of_mem_decimal n c hc)

theorem flows_temporary {name role : String} (h : IsIdentifier name.toList) (hRole : Flows [] role []) :
    Flows [] (Loop.temporary name role) [] := by
  have hStart : Flows [] "__" [] := by decide
  have hMiddle : Flows [] "_" [] := by decide
  exact ((hStart.append (flows_word h)).append hMiddle).append hRole

theorem phrase_typeSpelling {type : String} (h : KnownType type) : Phrase strict (typeSpelling type) := by
  obtain ⟨found, hFind⟩ := Option.isSome_iff_exists.mp h
  have hTable : ∀ e ∈ Target.primitiveTypes, Flows [] e.2.spelling [] ∧ isFront e.2.spelling = true := by decide +kernel
  rw [typeSpelling, hFind]
  exact phrase_fixed _ (hTable _ (mem_of_find? hFind))

theorem flows_typeSpelling (type : String) : Flows [] (typeSpelling type) [] := by
  cases hFind : Target.primitiveTypes.find? type with
  | none =>
    rw [typeSpelling, hFind]
    exact .empty
  | some found =>
    have hPhrase : Phrase True (typeSpelling type) := phrase_typeSpelling (by rw [KnownType, hFind]; rfl)
    exact hPhrase.flows

namespace NumberForm

/-- The digits have no part in the layout. Letters, digits, points and signs have none. -/
def Plain : NumberForm → Prop
  | .integer digits | .decimal digits | .hex digits | .binary digits => digits.toList.all isPlain = true
  | .scientific mantissa exponent => (mantissa.toList ++ exponent.toList).all isPlain = true

instance : (form : NumberForm) → Decidable form.Plain
  | .integer _ | .decimal _ | .hex _ | .binary _ => inferInstanceAs (Decidable (_ = true))
  | .scientific _ _ => inferInstanceAs (Decidable (_ = true))

example : (NumberForm.scientific "1.5" "-10").Plain ∧ (NumberForm.hex "0aF").Plain := by decide

/-- There are no digits, and nothing else would be written for the number. -/
def isEmpty : NumberForm → Bool
  | .integer digits | .decimal digits => digits = ""
  | _ => false

variable {form : NumberForm} {spelling : String}

theorem isPlain_spelling (h : form.Plain) (hSpelling : form.spelling = .ok spelling) :
    ∀ c ∈ spelling.toList, isPlain c = true := by
  have hPower : "e".toList.all isPlain = true := by decide
  have hHex : "0x".toList.all isPlain = true := by decide
  have hUnsigned : "u".toList.all isPlain = true := by decide
  cases form with
  | integer digits | decimal digits =>
    obtain rfl := Except.ok.inj hSpelling
    exact List.all_eq_true.mp h
  | scientific mantissa exponent =>
    obtain rfl := Except.ok.inj hSpelling
    obtain ⟨hMantissa, hExponent⟩ := List.forall_mem_append.mp (List.all_eq_true.mp h)
    simp only [String.toList_append, List.forall_mem_append]
    exact ⟨⟨hMantissa, List.all_eq_true.mp hPower⟩, hExponent⟩
  | hex digits =>
    obtain rfl := Except.ok.inj hSpelling
    simp only [String.toList_append, List.forall_mem_append]
    exact ⟨⟨List.all_eq_true.mp hHex, List.all_eq_true.mp h⟩, List.all_eq_true.mp hUnsigned⟩
  | binary digits =>
    rw [NumberForm.spelling] at hSpelling
    split at hSpelling
    · rename_i value _
      obtain rfl := Except.ok.inj hSpelling
      rw [String.toList_append, List.forall_mem_append]
      exact ⟨isPlain_of_mem_decimal value, List.all_eq_true.mp hUnsigned⟩
    · simp at hSpelling

theorem spelling_eq_empty_iff (hSpelling : form.spelling = .ok spelling) : spelling = "" ↔ form.isEmpty = true := by
  cases form with
  | integer digits | decimal digits =>
    obtain rfl := Except.ok.inj hSpelling
    exact decide_eq_true_iff.symm
  | scientific mantissa exponent | hex digits =>
    obtain rfl := Except.ok.inj hSpelling
    simp [isEmpty]
  | binary digits =>
    rw [NumberForm.spelling] at hSpelling
    split at hSpelling
    · obtain rfl := Except.ok.inj hSpelling
      simp [isEmpty]
    · simp at hSpelling

end NumberForm

-- ---------------------------------------------------------------------------
-- Expressions
-- ---------------------------------------------------------------------------

/-- The node is a number that leaves no text. -/
def Node.isBlank : Node → Bool
  | .number form none _ => form.isEmpty
  | _ => false

/-- The text of an expression: it leaves no bracket open, and it may stand at the front of a line unless it is empty. -/
structure Written (strict : Prop) (n : Node) (s : String) : Prop where
  flows : Flows [] s []
  front : strict → isFront s = true ∨ n.isBlank = true ∧ s = ""

namespace Written

variable {n : Node} {s t : String}

/-- A text that is not empty may follow. -/
theorem append (h : Written strict n s) (ht : Phrase strict t) : Phrase strict (s ++ t) where
  flows := h.flows.append ht.flows
  front hStrict := by
    rcases h.front hStrict with hFront | ⟨-, rfl⟩
    · exact isFront_append hFront t
    · rw [String.empty_append]
      exact ht.front hStrict

theorem phrase (h : Written strict n s) (hBlank : strict → n.isBlank = false) : Phrase strict s where
  flows := h.flows
  front hStrict := by
    rcases h.front hStrict with hFront | ⟨hEmpty, -⟩
    · exact hFront
    · rw [hBlank hStrict] at hEmpty
      exact absurd hEmpty (by decide)

end Written

theorem Phrase.written {n : Node} {s : String} (h : Phrase strict s) : Written strict n s :=
  ⟨h.flows, fun hStrict => Or.inl (h.front hStrict)⟩

theorem written_number {form : NumberForm} (h : form.Plain) {suffix : Option String} {n : ResolvedNumber}
    (hResolve : resolveNumber form suffix = .ok n) (span : Span) :
    Written strict (.number form suffix span) (pageText (numberAdditions form suffix)) := by
  obtain ⟨hSpelling, hExplicit⟩ := parts_of_resolveNumber hResolve
  have hPlain := NumberForm.isPlain_spelling h hSpelling
  rw [pageText_numberAdditions hResolve, ResolvedNumber.text, hExplicit]
  cases suffix with
  | some suffix =>
    have hCast : Flows [] "((" ['(', '('] := by decide
    have hClose : Flows ['(', '('] ")" ['('] := by decide
    have hEnd : Flows ['('] ")" [] := by decide
    have hText := hCast.around (flows_typeSpelling n.type.name) (hClose.around (flows_of_isPlain hPlain) hEnd)
    rw [if_pos Option.isSome_some]
    simp only [String.append_assoc]
    exact ⟨hText, fun _ => Or.inl (isFront_append (by decide) _)⟩
  | none =>
    rw [if_neg (by simp)]
    refine ⟨flows_of_isPlain hPlain, fun _ => ?_⟩
    by_cases hEmpty : n.spelling = ""
    · exact Or.inr ⟨(NumberForm.spelling_eq_empty_iff hSpelling).mp hEmpty, hEmpty⟩
    · exact Or.inl (isFront_of_isPlain hPlain hEmpty)

theorem phrase_recordText (span : Span) : Phrase strict (recordText span) := by
  have hStart : Flows [] "((nlstring*)&" ['('] := by decide
  have hEnd : Flows ['('] ")" [] := by decide
  unfold recordText
  rw [String.append_assoc]
  exact ⟨hStart.around (flows_word (Literal.isIdentifier_recordName span)) hEnd,
    fun _ => isFront_append (by decide) _⟩

theorem flows_commaSeparated {parts : List (List Addition)} (h : ∀ as ∈ parts, Flows [] (pageText as) []) :
    Flows [] (pageText (commaSeparated parts)) [] := by
  fun_induction commaSeparated parts with
  | case1 => exact .empty
  | case2 as => exact h as (by simp)
  | case3 as rest _ ih =>
    obtain ⟨hFirst, hRest⟩ := List.forall_mem_cons.mp h
    have hComma : Flows [] ", " [] := by decide
    rw [pageText_append, pageText_append, pageText_text]
    exact (hFirst.append hComma).append (ih hRest)

theorem phrase_parens {s : String} (h : Flows [] s []) : Phrase strict ("(" ++ (s ++ ")")) := by
  have hOpen : Flows [] "(" ['('] := by decide
  have hClose : Flows ['('] ")" [] := by decide
  exact ⟨hOpen.around h hClose, fun _ => isFront_append (by decide) _⟩

theorem phrase_wrapped {p : Place} {as : List Addition} (h : Phrase strict (pageText as)) :
    Phrase strict (pageText (p.wrapped as)) := by
  unfold Place.wrapped
  split
  · rw [pageText_append, pageText_append, pageText_text, pageText_text, String.append_assoc]
    exact phrase_parens h.flows
  · exact h

theorem phrase_unaryMark {op : String} (h : WritableUnary op) : Phrase strict (unaryMark op) := by
  obtain ⟨known, hName, hSpelling⟩ := h
  rw [unaryMark, hName]
  refine phrase_fixed _ ?_
  cases known <;> first | decide | simp [UnaryOp.spelling?] at hSpelling

theorem flows_binaryMark (op : String) : Flows [] (binaryMark op) [] := by
  unfold binaryMark
  cases BinaryOp.ofName? op with
  | none => exact .empty
  | some o => cases o <;> decide

theorem flows_ternaryMarks (op : String) : Flows [] (ternaryMarks op).1 [] ∧ Flows [] (ternaryMarks op).2 [] := by
  unfold ternaryMarks
  cases TernaryOp.ofName? op with
  | none => exact ⟨.empty, .empty⟩
  | some o =>
    cases o
    decide

end Lowering
