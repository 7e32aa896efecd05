import Mathlib.Data.List.Infix
import Lowering.Proofs.C.Token

/-!
# Whole words of a C text

A whole word is a longest row of letters, digits and underscores. The identifiers of a text are whole words, and other
whole words are parts of numbers, quoted texts and comments, so what holds of all whole words holds of all identifiers
(`word_of_mem_scan`).

Where a text is put together from pieces, its words are those of the pieces, unless the end of one piece and the start of
the next make one word (`words_append`).
-/

namespace Lowering.C

/-- Between `before` and `after` stands the whole word `w`. -/
structure WordAt (before w after : List Char) : Prop where
  nonempty : w ≠ []
  chars : ∀ c ∈ w, isWordChar c = true
  left : NotAhead isWordChar before.reverse
  right : NotAhead isWordChar after

/-- All whole words of the text have the property. -/
def Words (P : List Char → Prop) (s : List Char) : Prop :=
  ∀ before w after, s = before ++ w ++ after → WordAt before w after → P w

variable {P : List Char → Prop} {s t : List Char}

-- ---------------------------------------------------------------------------
-- Pieces
-- ---------------------------------------------------------------------------

theorem NotAhead.of_append {p : Char → Bool} {r r' : List Char} (h : NotAhead p (r ++ r')) : NotAhead p r := by
  cases r with
  | nil => exact notAhead_nil p
  | cons c r => exact notAhead_cons.mpr (notAhead_cons.mp h)

theorem NotAhead.append {p : Char → Bool} {r : List Char} (h : NotAhead p r) (hNe : r ≠ []) (r' : List Char) :
    NotAhead p (r ++ r') := by
  obtain ⟨c, rest, rfl⟩ := List.exists_cons_of_ne_nil hNe
  exact notAhead_cons.mpr (notAhead_cons.mp h)

/-- The words of two pieces, and those that both have a part in. -/
theorem words_append (hs : Words P s) (ht : Words P t)
    (hBoth : ∀ before u v after, s = before ++ u → t = v ++ after → u ≠ [] → v ≠ [] →
      WordAt before (u ++ v) after → P (u ++ v)) : Words P (s ++ t) := by
  intro before w after hText hWord
  rw [List.append_assoc] at hText
  rcases List.append_eq_append_iff.mp hText with ⟨front, rfl, hRest⟩ | ⟨back, rfl, hRest⟩
  · -- The word lies in `t`.
    refine ht front w after (by rw [hRest, List.append_assoc]) { hWord with left := ?_ }
    have hLeft := hWord.left
    rw [List.reverse_append] at hLeft
    exact hLeft.of_append
  · rcases List.append_eq_append_iff.mp hRest with ⟨rest, rfl, rfl⟩ | ⟨v, rfl, hAfter⟩
    · -- The word lies in `s`.
      exact hs before w rest (by rw [List.append_assoc]) { hWord with right := hWord.right.of_append }
    · by_cases hBack : back = []
      · subst hBack
        exact ht [] v after hAfter { hWord with left := notAhead_nil _ }
      · by_cases hFront : v = []
        · subst hFront
          rw [List.append_nil] at hWord ⊢
          exact hs before back [] (by simp) { hWord with right := notAhead_nil _ }
        · exact hBoth before back v after rfl hAfter hBack hFront hWord

/-- No word goes from one piece to the next if the second starts with something else. -/
theorem words_append_of_notAhead (hs : Words P s) (ht : Words P t) (h : NotAhead isWordChar t) : Words P (s ++ t) := by
  refine words_append hs ht fun before u v after _ hText _ hv hWord => ?_
  obtain ⟨c, rest, rfl⟩ := List.exists_cons_of_ne_nil hv
  rw [hText] at h
  have hChar := hWord.chars c (by simp)
  rw [notAhead_cons.mp h] at hChar
  exact absurd hChar (by decide)

/-- No word goes from one piece to the next if the first ends with something else. -/
theorem words_append_of_notBehind (hs : Words P s) (ht : Words P t) (h : NotAhead isWordChar s.reverse) :
    Words P (s ++ t) := by
  refine words_append hs ht fun before u v after hText _ hu _ hWord => ?_
  rw [hText, List.reverse_append] at h
  obtain ⟨c, rest, hRest⟩ := List.exists_cons_of_ne_nil (List.reverse_ne_nil_iff.mpr hu)
  rw [hRest] at h
  have hMem : c ∈ u := List.mem_reverse.mp (by simp [hRest])
  have hChar := hWord.chars c (List.mem_append_left _ hMem)
  rw [notAhead_cons.mp h] at hChar
  exact absurd hChar (by decide)

/-- A word that stands after the first part of a text is a word of the rest. -/
theorem WordAt.of_append {s t before w after : List Char} (hText : s ++ t = before ++ w ++ after)
    (hLength : s.length ≤ before.length) (hWord : WordAt before w after) :
    ∃ before', before = s ++ before' ∧ t = before' ++ w ++ after ∧ WordAt before' w after := by
  have hStart : s <+: before := by
    refine List.prefix_of_prefix_length_le (List.prefix_append s t) ?_ hLength
    rw [hText, List.append_assoc]
    exact List.prefix_append before (w ++ after)
  obtain ⟨before', rfl⟩ := hStart
  refine ⟨before', rfl, ?_, { hWord with left := ?_ }⟩
  · rw [List.append_assoc, List.append_assoc] at hText
    rw [List.append_assoc]
    exact List.append_cancel_left hText
  · have hLeft := hWord.left
    rw [List.reverse_append] at hLeft
    exact hLeft.of_append

/-- A text that is one word. -/
theorem words_of_chars (hs : ∀ c ∈ s, isWordChar c = true) (h : P s) : Words P s := by
  intro before w after hText hWord
  have hBefore : before = [] := by
    by_contra hNe
    obtain ⟨c, rest, hRest⟩ := List.exists_cons_of_ne_nil (List.reverse_ne_nil_iff.mpr hNe)
    have hMem : c ∈ before := List.mem_reverse.mp (by simp [hRest])
    have hLeft := hWord.left
    rw [hRest] at hLeft
    have hChar := hs c (by rw [hText]; simp [hMem])
    rw [notAhead_cons.mp hLeft] at hChar
    exact absurd hChar (by decide)
  have hAfter : after = [] := by
    by_contra hNe
    obtain ⟨c, rest, hRest⟩ := List.exists_cons_of_ne_nil hNe
    have hRight := hWord.right
    rw [hRest] at hRight
    have hChar := hs c (by rw [hText]; simp [hRest])
    rw [notAhead_cons.mp hRight] at hChar
    exact absurd hChar (by decide)
  rw [hText, hBefore, hAfter] at h
  simpa using h

-- ---------------------------------------------------------------------------
-- Identifiers
-- ---------------------------------------------------------------------------

/-- The first and the last character of a row are its ends, if it has any. -/
theorem notAhead_reverse_of_getLast? {p : Char → Bool} {r : List Char} (h : ∀ c ∈ r.getLast?, p c = false) :
    NotAhead p r.reverse := by
  intro c hc
  rw [List.head?_reverse] at hc
  exact h c hc

theorem notAhead_drop_takeWhile (p : Char → Bool) (r : List Char) :
    NotAhead p (r.drop (r.takeWhile p).length) := by
  induction r with
  | nil => exact notAhead_nil p
  | cons c r ih =>
    cases hc : p c with
    | false =>
      rw [List.takeWhile_cons_of_neg (by simp [hc]), List.length_nil, List.drop_zero]
      exact notAhead_cons.mpr hc
    | true =>
      rw [List.takeWhile_cons_of_pos hc, List.length_cons, List.drop_succ_cons]
      exact ih

/-- A number goes on as long as there are word characters. -/
theorem notAhead_drop_numberTail (r : List Char) : NotAhead isWordChar (r.drop (numberTail r)) := by
  fun_induction numberTail r with
  | case1 c d r _ ih => exact ih
  | case2 c d r _ _ ih => exact ih
  | case3 c d r _ hChar =>
    simp only [Bool.or_eq_true, not_or, Bool.not_eq_true] at hChar
    exact notAhead_cons.mpr hChar.1
  | case4 c hChar => exact notAhead_nil _
  | case5 c hChar =>
    simp only [Bool.or_eq_true, not_or, Bool.not_eq_true] at hChar
    exact notAhead_cons.mpr hChar.1
  | case6 => exact notAhead_nil _

theorem getLast?_cons_of_some {c d : Char} {r : List Char} (h : r.getLast? = some d) : (c :: r).getLast? = some d := by
  simp [List.getLast?_cons, h]

/-- The closing quote ends a quoted text. -/
theorem getLast?_take_quotedTail {quote : Char} {r : List Char} {n : Nat} (h : quotedTail quote r = some n) :
    (r.take n).getLast? = some quote := by
  fun_induction quotedTail quote r generalizing n with
  | case1 => simp at h
  | case2 c hQuote =>
    obtain rfl := Option.some.inj h
    simpa using hQuote
  | case3 => simp at h
  | case4 c d r hEscape ih =>
    obtain ⟨m, hTail, rfl⟩ := Option.map_eq_some_iff.mp h
    exact getLast?_cons_of_some (getLast?_cons_of_some (ih hTail))
  | case5 c d r _ hQuote =>
    obtain rfl := Option.some.inj h
    simpa using hQuote
  | case6 => simp at h
  | case7 c d r _ _ _ ih =>
    obtain ⟨m, hTail, rfl⟩ := Option.map_eq_some_iff.mp h
    exact getLast?_cons_of_some (ih hTail)

theorem getLast?_take_commentTail {r : List Char} {n : Nat} (h : commentTail r = some n) :
    (r.take n).getLast? = some '/' := by
  fun_induction commentTail r generalizing n with
  | case1 c d r hEnd =>
    obtain rfl := Option.some.inj h
    simp only [Bool.and_eq_true, beq_iff_eq] at hEnd
    simp [hEnd.2]
  | case2 c d r _ ih =>
    obtain ⟨m, hTail, rfl⟩ := Option.map_eq_some_iff.mp h
    exact getLast?_cons_of_some (ih hTail)
  | case3 => simp at h

/-- After each element, no word that started in it goes on. -/
theorem apart_lexeme {c : Char} {r : List Char} {kind : Kind} {n : Nat} (h : lexeme (c :: r) = some (kind, n)) :
    NotAhead isWordChar (r.drop n) ∨ NotAhead isWordChar (c :: r.take n).reverse := by
  have hLast : ∀ {d : Char}, (r.take n).getLast? = some d → isWordChar d = false →
      NotAhead isWordChar (c :: r.take n).reverse := by
    intro d hd hChar
    refine notAhead_reverse_of_getLast? ?_
    rw [getLast?_cons_of_some hd]
    simpa using hChar
  rw [lexeme] at h
  split at h
  · -- A blank.
    rename_i hBlank
    obtain ⟨rfl, rfl⟩ := Prod.mk.inj (Option.some.inj h)
    right
    rw [List.take_zero]
    refine notAhead_cons.mpr ?_
    rw [← Bool.not_eq_true]
    intro hChar
    rw [isBlank_eq_false hChar] at hBlank
    exact absurd hBlank (by decide)
  split at h
  · -- A word.
    obtain ⟨rfl, rfl⟩ := Prod.mk.inj (Option.some.inj h)
    exact Or.inl (notAhead_drop_takeWhile isWordChar r)
  split at h
  · -- A number.
    obtain ⟨rfl, rfl⟩ := Prod.mk.inj (Option.some.inj h)
    exact Or.inl (notAhead_drop_numberTail r)
  split at h
  · -- A quoted text.
    rename_i hQuote
    obtain ⟨m, hTail, hEq⟩ := Option.map_eq_some_iff.mp h
    obtain ⟨rfl, rfl⟩ := Prod.mk.inj hEq
    refine Or.inr (hLast (getLast?_take_quotedTail hTail) ?_)
    simp only [Bool.or_eq_true, beq_iff_eq] at hQuote
    rcases hQuote with rfl | rfl <;> decide
  split at h
  · -- A comment up to the end of the line.
    obtain ⟨rfl, rfl⟩ := Prod.mk.inj (Option.some.inj h)
    refine Or.inl fun d hd => ?_
    have hEnd := notAhead_drop_takeWhile (· ≠ '\n') r d hd
    simp only [ne_eq, decide_not, Bool.not_eq_false', decide_eq_true_eq] at hEnd
    rw [hEnd]
    decide
  split at h
  · -- A comment between marks.
    obtain ⟨m, hTail, hEq⟩ := Option.map_eq_some_iff.mp h
    obtain ⟨rfl, rfl⟩ := Prod.mk.inj hEq
    refine Or.inr (hLast ?_ (by decide : isWordChar '/' = false))
    cases r with
    | nil => simp [commentTail] at hTail
    | cons d r => exact getLast?_cons_of_some (getLast?_take_commentTail hTail)
  · -- Punctuation.
    split at h
    · simp at h
    · rename_i m hLength
      obtain ⟨rfl, rfl⟩ := Prod.mk.inj (Option.some.inj h)
      have hMark := take_markLength_mem (r := c :: r) (by rw [hLength]; exact Nat.succ_ne_zero _)
      rw [hLength, List.take_succ_cons] at hMark
      have hMarks : marks.all (fun mark => !mark.getLast?.any isWordChar) = true := by decide +kernel
      have hEnd := List.all_eq_true.mp hMarks _ hMark
      refine Or.inr (notAhead_reverse_of_getLast? fun d hd => ?_)
      rw [Option.mem_def.mp hd] at hEnd
      simpa using hEnd

theorem lexeme_word {c : Char} {r : List Char} {n : Nat} (h : lexeme (c :: r) = some (.word, n)) :
    isWordStart c = true ∧ n = (r.takeWhile isWordChar).length := by
  rw [lexeme] at h
  by_cases hStart : isWordStart c = true
  · rw [if_neg (by simp [isBlank_eq_false (isWordChar_of_isWordStart hStart)]), if_pos hStart] at h
    exact ⟨hStart, by simpa using h.symm⟩
  · rw [if_neg hStart] at h
    exfalso
    split_ifs at h <;> (try split at h) <;> simp at h

/-- The identifiers of a text are whole words of it, also if something stands before it that makes no word with it. -/
theorem word_of_mem_scan_append (front : List Char) {s : List Char} {ts : List Token} {w : List Char}
    (hApart : NotAhead isWordChar s ∨ NotAhead isWordChar front.reverse) (h : scan s = some ts) (hw : .word w ∈ ts) :
    ∃ before after, front ++ s = before ++ w ++ after ∧ WordAt before w after := by
  fun_induction scan s generalizing front ts with
  | case1 =>
    obtain rfl := Option.some.inj h
    simp at hw
  | case2 c r hNone => simp at h
  | case3 c r kind n hFirst ih =>
    obtain ⟨rest, hScan, rfl⟩ := Option.map_eq_some_iff.mp h
    rw [List.take_succ_cons, List.drop_succ_cons] at *
    rcases List.mem_append.mp hw with hw | hw
    · obtain rfl : kind = .word := by cases kind <;> simp [Kind.tokens] at hw ⊢
      obtain rfl : w = c :: r.take n := by simpa [Kind.tokens] using hw
      obtain ⟨hStart, hLength⟩ := lexeme_word hFirst
      refine ⟨front, r.drop n, by simp, by simp, ?_, ?_, ?_⟩
      · rintro d (_ | ⟨_, hd⟩)
        · exact isWordChar_of_isWordStart hStart
        · rw [hLength, ← List.prefix_iff_eq_take.mp (List.takeWhile_prefix isWordChar)] at hd
          exact List.all_eq_true.mp List.all_takeWhile d hd
      · refine hApart.resolve_left fun hStarts => ?_
        have hChar := isWordChar_of_isWordStart hStart
        rw [notAhead_cons.mp hStarts] at hChar
        exact absurd hChar (by decide)
      · rw [hLength]
        exact notAhead_drop_takeWhile isWordChar r
    · have hNext : NotAhead isWordChar (r.drop n) ∨ NotAhead isWordChar (front ++ c :: r.take n).reverse := by
        refine (apart_lexeme hFirst).imp_right fun hEnds => ?_
        rw [List.reverse_append]
        exact hEnds.append (by simp) _
      obtain ⟨before, after, hText, hWord⟩ := ih _ hNext hScan hw
      exact ⟨before, after, by rw [← hText]; simp, hWord⟩

/-- The identifiers of a text are whole words of it. -/
theorem word_of_mem_scan {s : List Char} {ts : List Token} {w : List Char} (h : scan s = some ts) (hw : .word w ∈ ts) :
    ∃ before after, s = before ++ w ++ after ∧ WordAt before w after :=
  word_of_mem_scan_append [] (Or.inr (notAhead_nil _)) h hw

end Lowering.C
