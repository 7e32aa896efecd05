import Lowering.Proofs.Json.RoundTrip

/-!
# Lexemes of JSON texts

A JSON text is a row of lexemes: strings, words and numbers, and single characters of punctuation. Blanks stand between
them wherever they like, and have to only between words and numbers. What the tokens of a text are depends on its lexemes
alone.

* `Lexeme`, `Lexemes` — the lexemes of a text.
* `scan_of_lexemes` — the tokens of a text are those of its lexemes, one lexeme after the other.
-/

namespace Lowering.JsonToken

-- ---------------------------------------------------------------------------
-- Lexemes
-- ---------------------------------------------------------------------------

/-- Whether a character belongs in a word or a number: it is no blank, no punctuation and no quote. -/
def isInner (c : Char) : Bool :=
  !isBlank c && (ofChar? c).isNone && c ≠ '"'

/-- What stands between the quotes of a string: a quote only after a backslash. -/
inductive Quoted : List Char → Prop where
  | nil : Quoted []
  | plain {c : Char} {cs : List Char} (hQuote : c ≠ '"') (hBackslash : c ≠ '\\') (h : Quoted cs) : Quoted (c :: cs)
  | escaped (c : Char) {cs : List Char} (h : Quoted cs) : Quoted ('\\' :: c :: cs)

/-- A piece of text that blanks do not cut: punctuation, a string, or a word or number. -/
inductive Lexeme : List Char → Prop where
  | mark {c : Char} {t : JsonToken} (hc : ofChar? c = some t) : Lexeme [c]
  | string {body : List Char} (h : Quoted body) : Lexeme ('"' :: body ++ ['"'])
  | word {w : List Char} (hNe : w ≠ []) (hw : ∀ c ∈ w, isInner c = true) : Lexeme w

/-- Whether there is no quote but after a backslash, and no backslash at the end. -/
def isQuoted : List Char → Bool
  | [] => true
  | [c] => c ≠ '"' && c ≠ '\\'
  | c :: d :: cs => if c = '\\' then isQuoted cs else c ≠ '"' && isQuoted (d :: cs)

theorem quoted_iff {body : List Char} : Quoted body ↔ isQuoted body = true := by
  constructor
  · intro h
    induction h with
    | nil => rfl
    | @plain c cs hQuote hBackslash _ ih => cases cs <;> simp_all [isQuoted]
    | escaped c _ ih => simpa [isQuoted] using ih
  · intro h
    fun_induction isQuoted body with
    | case1 => exact .nil
    | case2 c =>
      obtain ⟨hQuote, hBackslash⟩ := by simpa using h
      exact .plain hQuote hBackslash .nil
    | case3 d cs ih => exact .escaped d (ih h)
    | case4 c d cs hBackslash ih =>
      obtain ⟨hQuote, hRest⟩ := by simpa using h
      exact .plain hQuote hBackslash (ih hRest)

/-- Whether a piece of text is a lexeme. -/
def isLexeme : List Char → Bool
  | [] => false
  | [c] => (ofChar? c).isSome || isInner c
  | c :: d :: cs =>
    if c = '"' then (d :: cs).getLast? = some '"' && isQuoted (d :: cs).dropLast else (c :: d :: cs).all isInner

theorem isLexeme_of_lexeme {l : List Char} (h : Lexeme l) : isLexeme l = true := by
  cases h with
  | mark hc => simp [isLexeme, hc]
  | @string body h =>
    obtain ⟨d, cs, hRest⟩ := List.exists_cons_of_ne_nil (List.append_ne_nil_of_right_ne_nil body (List.cons_ne_nil '"' []))
    rw [List.cons_append, hRest, isLexeme, if_pos rfl, ← hRest]
    simpa using quoted_iff.mp h
  | word hNe hw =>
    rcases l with _ | ⟨c, _ | ⟨d, cs⟩⟩
    · exact absurd rfl hNe
    · simp [isLexeme, hw c (List.mem_cons_self ..)]
    · have hQuote : c ≠ '"' := by
        rintro rfl
        exact absurd (hw '"' (List.mem_cons_self ..)) (by decide)
      rw [isLexeme, if_neg hQuote]
      exact List.all_eq_true.mpr hw

theorem lexeme_of_isLexeme {l : List Char} (h : isLexeme l = true) : Lexeme l := by
  rcases l with _ | ⟨c, _ | ⟨d, cs⟩⟩
  · cases h
  · rw [isLexeme, Bool.or_eq_true] at h
    rcases h with hMark | hInner
    · obtain ⟨t, hc⟩ := Option.isSome_iff_exists.mp hMark
      exact .mark hc
    · exact .word (by simp) (by simpa using hInner)
  · rw [isLexeme] at h
    split at h
    · rename_i hQuote
      obtain ⟨hLast, hBody⟩ := by simpa only [Bool.and_eq_true, decide_eq_true_eq] using h
      obtain ⟨body, hRest⟩ := List.getLast?_eq_some_iff.mp hLast
      rw [hRest, List.dropLast_concat] at hBody
      rw [hQuote, hRest]
      exact .string (quoted_iff.mpr hBody)
    · exact .word (by simp) (List.all_eq_true.mp h)

instance : DecidablePred Lexeme := fun _ =>
  decidable_of_iff _ ⟨lexeme_of_isLexeme, isLexeme_of_lexeme⟩

/-- The first piece of text and the second do not run together, as two words do. -/
def Apart (l cs : List Char) : Prop :=
  (l.getLast?.any isInner && cs.head?.any isInner) = false

instance (l cs : List Char) : Decidable (Apart l cs) :=
  inferInstanceAs (Decidable (_ = false))

/-- A text and its lexemes. Blanks are part of no lexeme. -/
inductive Lexemes : List Char → List (List Char) → Prop where
  | nil : Lexemes [] []
  | blank {c : Char} {cs : List Char} {ls : List (List Char)} (hc : isBlank c = true) (h : Lexemes cs ls) :
      Lexemes (c :: cs) ls
  | cons {l cs : List Char} {ls : List (List Char)} (hl : Lexeme l) (hApart : Apart l cs) (h : Lexemes cs ls) :
      Lexemes (l ++ cs) (l :: ls)

/-- Lexemes with a blank after each of them are a text. -/
theorem lexemes_spaced {ls : List (List Char)} (h : ∀ l ∈ ls, Lexeme l) : Lexemes (ls.flatMap (· ++ [' '])) ls := by
  induction ls with
  | nil => exact .nil
  | cons l ls ih =>
    obtain ⟨hFirst, hRest⟩ := List.forall_mem_cons.mp h
    rw [List.flatMap_cons, List.append_assoc, List.singleton_append]
    refine .cons hFirst ?_ (.blank rfl (ih hRest))
    unfold Apart
    rw [List.head?_cons, Option.any_some, show isInner ' ' = false from rfl, Bool.and_false]

theorem Lexeme.ne_nil {l : List Char} (h : Lexeme l) : l ≠ [] := by
  cases h with
  | mark => simp
  | string => simp
  | word hNe => exact hNe

/-- Lexemes are a text as they stand if no words run together. -/
theorem lexemes_flatten {ls : List (List Char)} (h : ∀ l ∈ ls, Lexeme l) (hApart : ls.IsChain Apart) :
    Lexemes ls.flatten ls := by
  induction ls with
  | nil => exact .nil
  | cons l ls ih =>
    obtain ⟨hFirst, hRest⟩ := List.forall_mem_cons.mp h
    cases ls with
    | nil => exact .cons hFirst (by simp [Apart]) .nil
    | cons m ls =>
      obtain ⟨hNext, hApart⟩ := List.isChain_cons_cons.mp hApart
      obtain ⟨c, m, rfl⟩ := List.exists_cons_of_ne_nil (hRest m (List.mem_cons_self ..)).ne_nil
      exact .cons hFirst hNext (ih hRest hApart)

-- ---------------------------------------------------------------------------
-- Tokens up to the end
-- ---------------------------------------------------------------------------

/-- The tokens from a state of the scanner on to the end of the text. -/
def tokensFrom (s : Scan) (cs : List Char) : Option (List JsonToken) :=
  (run s cs).bind fun r => (finish r.1).map (r.2 ++ ·)

theorem tokensFrom_nil (s : Scan) : tokensFrom s [] = finish s := by
  simp [tokensFrom, run]

theorem tokensFrom_cons (s : Scan) (c : Char) (cs : List Char) :
    tokensFrom s (c :: cs) = (step s c).bind fun r => (tokensFrom r.1 cs).map (r.2 ++ ·) := by
  unfold tokensFrom
  rw [run]
  cases step s c with
  | none => rfl
  | some r =>
    rw [Option.bind_some, Option.bind_some]
    cases run r.1 cs with
    | none => rfl
    | some r' => cases hFinish : finish r'.1 <;> simp [hFinish]

theorem tokensFrom_append (s : Scan) (cs cs' : List Char) :
    tokensFrom s (cs ++ cs') = (run s cs).bind fun r => (tokensFrom r.1 cs').map (r.2 ++ ·) := by
  induction cs generalizing s with
  | nil => simp [run]
  | cons c cs ih =>
    rw [List.cons_append, tokensFrom_cons, run]
    cases step s c with
    | none => rfl
    | some r =>
      rw [Option.bind_some, Option.bind_some, ih]
      cases run r.1 cs with
      | none => rfl
      | some r' => cases hRest : tokensFrom r'.1 cs' <;> simp [hRest]

theorem scan_eq (text : String) : scan text = tokensFrom .idle text.toList := by
  rw [tokensFrom, ← scan_ofList, String.ofList_toList]

-- ---------------------------------------------------------------------------
-- One lexeme
-- ---------------------------------------------------------------------------

/-- From between tokens, a piece of text followed by others gives its own tokens, and the others give theirs. -/
def Separate (l cs : List Char) : Prop :=
  tokensFrom .idle (l ++ cs) = (tokensFrom .idle l).bind fun ts => (tokensFrom .idle cs).map (ts ++ ·)

/-- The characters lead to a place between tokens, if they have tokens at all. -/
def Closes (s : Scan) (cs : List Char) : Prop :=
  run s cs = none ∨ ∃ ts, run s cs = some (.idle, ts)

theorem separate_of_closes {l : List Char} (h : Closes .idle l) (cs : List Char) : Separate l cs := by
  unfold Separate
  rw [tokensFrom_append, tokensFrom]
  rcases h with hNone | ⟨ts, hSome⟩
  · simp [hNone]
  · simp [hSome, finish]

theorem ofChar?_of_isBlank {c : Char} (h : isBlank c = true) : ofChar? c = none := by
  simp only [isBlank, Bool.or_eq_true, decide_eq_true_eq] at h
  rcases h with ((rfl | rfl) | rfl) | rfl <;> rfl

theorem start_blank {c : Char} (h : isBlank c = true) : start c = some (.idle, []) := by
  simp [start, ofChar?_of_isBlank h, h]

theorem start_mark {c : Char} {t : JsonToken} (h : ofChar? c = some t) : start c = some (.idle, [t]) := by
  simp [start, h]

/-- In a string, or in an escape by number. -/
inductive InString : Scan → Prop where
  | string (pieces : List Piece) : InString (.string pieces)
  | hex (pieces : List Piece) (missing code : Nat) : InString (.hex pieces missing code)

theorem run_cons (s : Scan) (c : Char) (cs : List Char) :
    run s (c :: cs) = (step s c).bind fun r => (run r.1 cs).map fun r' => (r'.1, r.2 ++ r'.2) := by
  rw [run]

theorem closes_of_step {s : Scan} {c : Char} {cs : List Char} (h : ∀ r, step s c = some r → Closes r.1 cs) :
    Closes s (c :: cs) := by
  unfold Closes
  rw [run_cons]
  cases hStep : step s c with
  | none => exact .inl rfl
  | some r =>
    rcases h r hStep with hNone | ⟨ts, hSome⟩
    · exact .inl (by simp [hNone])
    · exact .inr ⟨r.2 ++ ts, by simp [hSome]⟩

theorem closes_nil : Closes .idle [] :=
  .inr ⟨[], rfl⟩

/-- One more digit of an escape by number. -/
theorem inString_of_step_hex {pieces : List Piece} {missing code : Nat} {c : Char} {r : Scan × List JsonToken}
    (h : step (.hex pieces missing code) c = some r) : InString r.1 ∧ c ≠ '"' ∧ c ≠ '\\' := by
  obtain ⟨d, hDigit, hRest⟩ := Option.bind_eq_some_iff.mp h
  refine ⟨?_, ?_, ?_⟩
  · cases missing with
    | zero =>
      obtain rfl := Option.some.inj hRest
      exact .string _
    | succ m =>
      obtain rfl := Option.some.inj hRest
      exact .hex _ _ _
  · rintro rfl
    simp [hexDigit?] at hDigit
  · rintro rfl
    simp [hexDigit?] at hDigit

/-- The rest of a string up to its quote. -/
theorem closes_quoted {body : List Char} (h : Quoted body) {s : Scan} (hs : InString s) : Closes s (body ++ ['"']) := by
  induction h generalizing s with
  | nil =>
    refine closes_of_step fun r hStep => ?_
    cases hs with
    | string pieces =>
      obtain rfl := Option.some.inj hStep
      exact closes_nil
    | hex pieces missing code => exact absurd rfl (inString_of_step_hex hStep).2.1
  | @plain c cs hQuote hBackslash _ ih =>
    refine closes_of_step fun r hStep => ih ?_
    cases hs with
    | string pieces =>
      rw [step, if_neg hQuote, if_neg hBackslash] at hStep
      split at hStep
      · simp at hStep
      · obtain rfl := Option.some.inj hStep
        exact .string _
    | hex pieces missing code => exact (inString_of_step_hex hStep).1
  | @escaped c cs _ ih =>
    refine closes_of_step fun r hStep => ?_
    cases hs with
    | string pieces =>
      obtain rfl := Option.some.inj hStep
      refine closes_of_step fun r hStep => ih ?_
      rw [step] at hStep
      split at hStep
      · obtain rfl := Option.some.inj hStep
        exact .hex _ _ _
      · obtain ⟨e, -, rfl⟩ := Option.map_eq_some_iff.mp hStep
        exact .string _
    | hex pieces missing code => exact absurd rfl (inString_of_step_hex hStep).2.2

theorem separate_string {body : List Char} (h : Quoted body) (cs : List Char) : Separate ('"' :: body ++ ['"']) cs := by
  refine separate_of_closes (closes_of_step fun r hStep => ?_) cs
  obtain rfl := Option.some.inj hStep
  exact closes_quoted h (.string [])

/-- In a word or a number. -/
inductive Open : Scan → Prop where
  | word (letters : List Char) : Open (.word letters)
  | number (n : PartialNumber) : Open (.number n)

theorem open_of_start {c : Char} {r : Scan × List JsonToken} (hc : isInner c = true) (h : start c = some r) :
    Open r.1 := by
  simp only [isInner, Bool.and_eq_true, Bool.not_eq_true', Option.isNone_iff_eq_none, decide_eq_true_eq] at hc
  obtain ⟨⟨hBlank, hMark⟩, hQuote⟩ := hc
  rw [start, hMark] at h
  simp only [hBlank, hQuote, if_false, Bool.false_eq_true] at h
  split at h
  · obtain rfl := Option.some.inj h
    exact .number _
  · split at h
    · obtain ⟨n, -, rfl⟩ := Option.map_eq_some_iff.mp h
      exact .number n
    · split at h
      · obtain rfl := Option.some.inj h
        exact .word _
      · simp at h

/-- A word or a number goes on, or another one starts. -/
theorem open_of_step {s : Scan} {c : Char} {r : Scan × List JsonToken} (hs : s = .idle ∨ Open s) (hc : isInner c = true)
    (h : step s c = some r) : Open r.1 := by
  rcases hs with rfl | ⟨letters⟩ | ⟨n⟩
  · exact open_of_start hc h
  · rw [step] at h
    split at h
    · obtain rfl := Option.some.inj h
      exact .word _
    · obtain ⟨t, -, h⟩ := Option.bind_eq_some_iff.mp h
      obtain ⟨r', hStart, h⟩ := Option.bind_eq_some_iff.mp h
      obtain rfl := Option.some.inj h
      have hOpen := open_of_start hc hStart
      exact hOpen
  · rw [step] at h
    split at h
    · obtain rfl := Option.some.inj h
      exact .number _
    · obtain ⟨v, -, h⟩ := Option.bind_eq_some_iff.mp h
      obtain ⟨r', hStart, h⟩ := Option.bind_eq_some_iff.mp h
      obtain rfl := Option.some.inj h
      have hOpen := open_of_start hc hStart
      exact hOpen

/-- What ends a word or a number is no part of one. -/
theorem not_inner {c : Char} (h : isInner c = false) :
    c.isLower = false ∧ c.isDigit = false ∧ c ≠ '.' ∧ c ≠ 'e' ∧ c ≠ 'E' ∧ c ≠ '+' ∧ c ≠ '-' := by
  simp only [isInner, isBlank, Bool.and_eq_false_iff, Bool.not_eq_false', Bool.or_eq_true, decide_eq_true_eq,
    decide_eq_false_iff_not, not_not] at h
  rcases h with ((((rfl | rfl) | rfl) | rfl) | hMark) | rfl
  · decide
  · decide
  · decide
  · decide
  · unfold ofChar? at hMark
    split at hMark <;> first | decide | simp at hMark
  · decide

theorem push?_eq_none {c : Char} (h : isInner c = false) (n : PartialNumber) : n.push? c = none := by
  obtain ⟨-, hDigit, hPoint, he, hE, hPlus, hMinus⟩ := not_inner h
  have hZero : c ≠ '0' := by
    rintro rfl
    exact absurd hDigit (by decide)
  unfold PartialNumber.push? PartialNumber.afterDigits PartialNumber.afterMark
  split <;> simp [hDigit, hPoint, he, hE, hPlus, hMinus, hZero]

/-- Something else ends it. -/
theorem step_of_open {s : Scan} {c : Char} (hs : Open s) (hc : isInner c = false) :
    step s c = (finish s).bind fun last => (start c).map fun r => (r.1, last ++ r.2) := by
  obtain ⟨hLower, -⟩ := not_inner hc
  cases hs with
  | word letters =>
    rw [step, if_neg (by simp [hLower]), finish]
    cases ofWord? letters.reverse with
    | none => rfl
    | some t => cases start c <;> rfl
  | number n =>
    rw [step, push?_eq_none hc, finish]
    cases n.finish? with
    | none => rfl
    | some v => cases start c <;> rfl

/-- A word or a number and what ends it. -/
theorem tokensFrom_of_open {s : Scan} (hs : Open s) {cs : List Char} (hEnd : ∀ c ∈ cs.head?, isInner c = false) :
    tokensFrom s cs = (finish s).bind fun last => (tokensFrom .idle cs).map (last ++ ·) := by
  cases cs with
  | nil =>
    have hIdle : tokensFrom .idle [] = some [] := rfl
    cases hFinish : finish s <;> simp [tokensFrom_nil, hIdle, hFinish]
  | cons c cs =>
    rw [tokensFrom_cons, tokensFrom_cons, step_of_open hs (hEnd c rfl), step]
    cases finish s with
    | none => rfl
    | some last =>
      cases start c with
      | none => rfl
      | some r => cases hRest : tokensFrom r.1 cs <;> simp [hRest]

theorem open_of_run {w : List Char} (hw : ∀ c ∈ w, isInner c = true) {s : Scan} {r : Scan × List JsonToken}
    (hs : Open s) (h : run s w = some r) : Open r.1 := by
  induction w generalizing s r with
  | nil =>
    obtain rfl := Option.some.inj h
    exact hs
  | cons c w ih =>
    obtain ⟨hFirst, hRest⟩ := List.forall_mem_cons.mp hw
    obtain ⟨r₁, hStep, h⟩ := Option.bind_eq_some_iff.mp h
    obtain ⟨r₂, hRun, rfl⟩ := Option.map_eq_some_iff.mp h
    have hOpen := ih hRest (open_of_step (.inr hs) hFirst hStep) hRun
    exact hOpen

theorem separate_word {w : List Char} (hNe : w ≠ []) (hw : ∀ c ∈ w, isInner c = true) {cs : List Char}
    (hEnd : ∀ c ∈ cs.head?, isInner c = false) : Separate w cs := by
  obtain ⟨c, w, rfl⟩ := List.exists_cons_of_ne_nil hNe
  obtain ⟨hFirst, hRest⟩ := List.forall_mem_cons.mp hw
  unfold Separate
  rw [tokensFrom_append, tokensFrom]
  cases hRun : run .idle (c :: w) with
  | none => rfl
  | some r =>
    have hOpen : Open r.1 := by
      obtain ⟨r₁, hStep, hMore⟩ := Option.bind_eq_some_iff.mp hRun
      obtain ⟨r₂, hRun₂, rfl⟩ := Option.map_eq_some_iff.mp hMore
      have hLast := open_of_run hRest (open_of_step (.inl rfl) hFirst hStep) hRun₂
      exact hLast
    rw [Option.bind_some, Option.bind_some, tokensFrom_of_open hOpen hEnd]
    cases finish r.1 with
    | none => rfl
    | some last => cases tokensFrom .idle cs <;> simp

theorem separate_of_lexeme {l cs : List Char} (hl : Lexeme l) (hApart : Apart l cs) : Separate l cs := by
  cases hl with
  | @mark c t hc =>
    have hRun : run .idle [c] = some (.idle, [t]) := by
      simp [run, step, start_mark hc]
    exact separate_of_closes (.inr ⟨_, hRun⟩) cs
  | string hBody => exact separate_string hBody cs
  | word hNe hw =>
    refine separate_word hNe hw fun c hc => ?_
    have hLast : l.getLast?.any isInner = true := by
      rw [List.getLast?_eq_some_getLast hNe, Option.any_some]
      exact hw _ (List.getLast_mem hNe)
    unfold Apart at hApart
    rw [hLast, Bool.true_and, Option.mem_def.mp hc, Option.any_some] at hApart
    exact hApart

-- ---------------------------------------------------------------------------
-- Whole texts
-- ---------------------------------------------------------------------------

theorem tokensFrom_of_lexemes {cs : List Char} {ls : List (List Char)} (h : Lexemes cs ls) :
    tokensFrom .idle cs = (ls.mapM (tokensFrom .idle)).map List.flatten := by
  have hCons : ∀ {l : List Char} {cs : List Char} {ls : List (List Char)}, Separate l cs →
      tokensFrom .idle cs = (ls.mapM (tokensFrom .idle)).map List.flatten →
      tokensFrom .idle (l ++ cs) = ((l :: ls).mapM (tokensFrom .idle)).map List.flatten := by
    intro l cs ls hSeparate hRest
    rw [hSeparate, hRest, List.mapM_cons]
    cases tokensFrom .idle l with
    | none => rfl
    | some ts => cases ls.mapM (tokensFrom .idle) <;> simp
  induction h with
  | nil => rfl
  | blank hc h ih =>
    rw [tokensFrom_cons, step, start_blank hc, ← ih]
    simp
  | @cons l cs ls hl hApart h ih => exact hCons (separate_of_lexeme hl hApart) ih

/-- The tokens of a text are those of its lexemes. -/
theorem scan_of_lexemes {text : String} {ls : List (List Char)} (h : Lexemes text.toList ls) :
    scan text = (ls.mapM fun l => scan (String.ofList l)).map List.flatten := by
  have hScan : (fun l => scan (String.ofList l)) = tokensFrom .idle := by
    funext l
    rw [scan_eq, String.toList_ofList]
  rw [scan_eq, hScan, tokensFrom_of_lexemes h]

end Lowering.JsonToken
