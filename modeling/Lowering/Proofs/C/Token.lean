import Mathlib.Tactic.Common
import Mathlib.Data.List.Basic

/-!
# C tokens

The lexical elements of C: words, numbers (any *preprocessing number*), quoted texts and punctuation, with blanks and
comments between them. A text is split from left to right, and each element is as long as it can be.

Where a text is put together from pieces, it is split piece by piece as long as no piece can be continued by what follows
it. `Lexes s ts r` says this of the piece `s` in front of `r`; the pieces of a text can then be looked at one at a time.

* `Lexes.append` — one piece after another.
* `lexes_word`, `lexes_number`, `lexes_mark` — single tokens.
-/

namespace Lowering.C

-- ---------------------------------------------------------------------------
-- Lexical elements
-- ---------------------------------------------------------------------------

/-- The kinds of lexical elements. Comments are blanks. -/
inductive Kind where
  | blank
  | word
  | number
  | quoted
  | mark
deriving DecidableEq, Repr

/-- A token. -/
inductive Token where
  | word (s : List Char)
  | number (s : List Char)
  | quoted (s : List Char)
  | mark (s : List Char)
deriving DecidableEq, Repr

/-- The token for an element, if it is one. -/
def Kind.tokens (s : List Char) : Kind → List Token
  | .blank => []
  | .word => [.word s]
  | .number => [.number s]
  | .quoted => [.quoted s]
  | .mark => [.mark s]

def isBlank (c : Char) : Bool :=
  [' ', '\n', '\t', '\r', Char.ofNat 11, Char.ofNat 12].contains c

def isWordStart (c : Char) : Bool :=
  c.isAlpha || c == '_'

def isWordChar (c : Char) : Bool :=
  c.isAlphanum || c == '_'

/-- The punctuation of C. -/
def marks : List (List Char) :=
  ["[", "]", "(", ")", "\x7b", "\x7d", ".", "->", "++", "--", "&", "*", "+", "-", "~", "!", "/", "%", "<<", ">>", "<", ">",
   "<=", ">=", "==", "!=", "^", "|", "&&", "||", "?", ":", ";", "...", "=", "*=", "/=", "%=", "+=", "-=", "<<=", ">>=",
   "&=", "^=", "|=", ",", "#", "##", "<:", ":>", "<%", "%>", "%:", "%:%:"].map String.toList

/-- Whether a number starts here: a digit, or a point and a digit. -/
def startsNumber : List Char → Bool
  | [] => false
  | c :: r => c.isDigit || c == '.' && r.head?.any Char.isDigit

/-- The number of characters by which a number goes on: word characters and points, and a sign after the letter of an
exponent. -/
def numberTail : List Char → Nat
  | c :: d :: r =>
    if ['e', 'E', 'p', 'P'].contains c && ['+', '-'].contains d then numberTail r + 2
    else if isWordChar c || c == '.' then numberTail (d :: r) + 1
    else 0
  | [c] => if isWordChar c || c == '.' then 1 else 0
  | [] => 0

/-- The number of characters up to and including the closing quote. -/
def quotedTail (quote : Char) : List Char → Option Nat
  | [] => none
  | [c] => if c == quote then some 1 else none
  | c :: d :: r =>
    if c == '\\' then (quotedTail quote r).map (· + 2)
    else if c == quote then some 1
    else if c == '\n' then none
    else (quotedTail quote (d :: r)).map (· + 1)

/-- The number of characters up to and including the end of a comment between `/*` and `*/`. -/
def commentTail : List Char → Option Nat
  | c :: d :: r => if c == '*' && d == '/' then some 2 else (commentTail (d :: r)).map (· + 1)
  | _ => none

/-- The length of the longest punctuation that a text starts with. -/
def markLength (s : List Char) : Nat :=
  ((marks.filter (fun m => m.isPrefixOf s)).map List.length).foldr max 0

/-- The first element of a text: its kind, and the number of its characters after the first. -/
def lexeme : List Char → Option (Kind × Nat)
  | [] => none
  | c :: r =>
    if isBlank c then some (.blank, 0)
    else if isWordStart c then some (.word, (r.takeWhile isWordChar).length)
    else if startsNumber (c :: r) then some (.number, numberTail r)
    else if c == '"' || c == Char.ofNat 39 then (quotedTail c r).map (fun n => (.quoted, n))
    else if c == '/' && r.head? == some '/' then some (.blank, (r.takeWhile (· ≠ '\n')).length)
    else if c == '/' && r.head? == some '*' then (commentTail r.tail).map (fun n => (.blank, n + 1))
    else
      match markLength (c :: r) with
      | 0 => none
      | n + 1 => some (.mark, n)

/-- The tokens of a text, unless it has none: an open quote or comment, or a character that starts nothing. -/
def scan (s : List Char) : Option (List Token) :=
  match s with
  | [] => some []
  | c :: r =>
    match lexeme (c :: r) with
    | none => none
    | some (kind, n) => (scan ((c :: r).drop (n + 1))).map (kind.tokens ((c :: r).take (n + 1)) ++ ·)
termination_by s.length

-- ---------------------------------------------------------------------------
-- Pieces
-- ---------------------------------------------------------------------------

/-- In front of `r`, the text `s` is split into `ts`. -/
def Lexes (s : List Char) (ts : List Token) (r : List Char) : Prop :=
  scan (s ++ r) = (scan r).map (ts ++ ·)

theorem scan_of_lexes {s : List Char} {ts : List Token} (h : Lexes s ts []) : scan s = some ts := by
  unfold Lexes at h
  rw [List.append_nil] at h
  rw [h, scan]
  simp

theorem Lexes.nil (r : List Char) : Lexes [] [] r := by
  unfold Lexes
  rw [List.nil_append]
  cases scan r <;> rfl

/-- One piece after another. -/
theorem Lexes.append {s t r : List Char} {ts us : List Token} (h : Lexes s ts (t ++ r)) (h' : Lexes t us r) :
    Lexes (s ++ t) (ts ++ us) r := by
  unfold Lexes at *
  rw [List.append_assoc, h, h', Option.map_map]
  simp [Function.comp_def, List.append_assoc]

/-- A single element. -/
theorem lexes_of_lexeme (kind : Kind) {c : Char} {s r : List Char}
    (h : lexeme (c :: s ++ r) = some (kind, s.length)) : Lexes (c :: s) (kind.tokens (c :: s)) r := by
  unfold Lexes
  rw [List.cons_append] at h ⊢
  rw [scan, h]
  simp

/-- Elements of a text, each as long as it can be in front of the next. -/
inductive Splits : List (Kind × List Char) → List Char → Prop where
  | nil (r : List Char) : Splits [] r
  | cons {kind : Kind} {c : Char} {s r : List Char} {ps : List (Kind × List Char)}
      (h : lexeme (c :: s ++ (ps.flatMap Prod.snd ++ r)) = some (kind, s.length)) (hRest : Splits ps r) :
      Splits ((kind, c :: s) :: ps) r

theorem Splits.lexes (ps : List (Kind × List Char)) {r : List Char} (h : Splits ps r) :
    Lexes (ps.flatMap Prod.snd) (ps.flatMap (fun p => p.1.tokens p.2)) r := by
  induction h with
  | nil r => exact .nil r
  | cons h _ ih => exact (lexes_of_lexeme _ h).append ih

/-- What follows does not start with a character of the given sort. -/
def NotAhead (p : Char → Bool) (r : List Char) : Prop :=
  ∀ c ∈ r.head?, p c = false

theorem notAhead_nil (p : Char → Bool) : NotAhead p [] := by
  simp [NotAhead]

theorem notAhead_cons {p : Char → Bool} {c : Char} {r : List Char} : NotAhead p (c :: r) ↔ p c = false := by
  simp [NotAhead]

theorem lexes_space (r : List Char) : Lexes [' '] [] r :=
  lexes_of_lexeme .blank (by rw [List.cons_append, lexeme]; rfl)

-- ---------------------------------------------------------------------------
-- Words
-- ---------------------------------------------------------------------------

/-- A letter or underscore, and then letters, digits and underscores. -/
def IsIdentifier : List Char → Prop
  | [] => False
  | c :: s => isWordStart c = true ∧ ∀ d ∈ s, isWordChar d = true

instance : (w : List Char) → Decidable (IsIdentifier w)
  | [] => isFalse id
  | c :: s => decidable_of_iff (isWordStart c = true ∧ s.all isWordChar = true) (by simp [IsIdentifier])

theorem isWordChar_of_isWordStart {c : Char} (h : isWordStart c = true) : isWordChar c = true := by
  simp only [isWordStart, isWordChar, Char.isAlphanum, Bool.or_eq_true] at h ⊢
  tauto

theorem isWordChar_of_mem {w : List Char} (h : IsIdentifier w) : ∀ c ∈ w, isWordChar c = true := by
  cases w with
  | nil => simp
  | cons c r => exact List.forall_mem_cons.mpr ⟨isWordChar_of_isWordStart h.1, h.2⟩

theorem isBlank_eq_false {c : Char} (h : isWordChar c = true) : isBlank c = false := by
  rw [← Bool.not_eq_true]
  intro hBlank
  simp only [isBlank, List.contains_eq_mem, List.mem_cons, List.not_mem_nil, or_false, decide_eq_true_eq] at hBlank
  rcases hBlank with rfl | rfl | rfl | rfl | rfl | rfl <;> exact absurd h (by decide)

theorem takeWhile_append_of_notAhead {p : Char → Bool} {s r : List Char} (hs : ∀ c ∈ s, p c = true)
    (hr : NotAhead p r) : (s ++ r).takeWhile p = s := by
  rw [List.takeWhile_append_of_pos hs]
  cases r with
  | nil => simp
  | cons c r => simp [notAhead_cons.mp hr]

theorem lexes_word {w r : List Char} (hw : IsIdentifier w) (hr : NotAhead isWordChar r) : Lexes w [.word w] r := by
  cases w with
  | nil => exact hw.elim
  | cons c s =>
    obtain ⟨hStart, hRest⟩ := hw
    refine lexes_of_lexeme .word ?_
    have hBlank := isBlank_eq_false (isWordChar_of_isWordStart hStart)
    rw [List.cons_append, lexeme, if_neg (by simp [hBlank]), if_pos hStart, takeWhile_append_of_notAhead hRest hr]

-- ---------------------------------------------------------------------------
-- Numbers
-- ---------------------------------------------------------------------------

/-- What a number goes on with, exponent signs apart. -/
def isNumberChar (c : Char) : Bool :=
  isWordChar c || c == '.'

def isSign (c : Char) : Bool :=
  ['+', '-'].contains c

theorem isSign_eq_false {c : Char} (h : isNumberChar c = true) : isSign c = false := by
  rw [← Bool.not_eq_true]
  intro hSign
  simp only [isSign, List.contains_eq_mem, List.mem_cons, List.not_mem_nil, or_false, decide_eq_true_eq] at hSign
  rcases hSign with rfl | rfl <;> exact absurd h (by decide)

/-- Number characters are taken one by one as long as no sign follows the last of them. -/
theorem numberTail_append {s t : List Char} (hs : ∀ c ∈ s, isNumberChar c = true) (ht : NotAhead isSign t) :
    numberTail (s ++ t) = s.length + numberTail t := by
  induction s with
  | nil => simp
  | cons c s ih =>
    have hc : (isWordChar c || c == '.') = true := hs c (List.mem_cons_self ..)
    have hRest := ih (fun d hd => hs d (List.mem_cons_of_mem _ hd))
    rw [List.cons_append]
    cases hNext : s ++ t with
    | nil =>
      obtain ⟨rfl, rfl⟩ := List.append_eq_nil_iff.mp hNext
      simp [numberTail, hc]
    | cons d r =>
      have hSign : isSign d = false := by
        cases s with
        | nil =>
          rw [List.nil_append] at hNext
          rw [hNext] at ht
          exact notAhead_cons.mp ht
        | cons e s =>
          obtain ⟨rfl, -⟩ := List.cons.inj hNext
          exact isSign_eq_false (hs e (by simp))
      have hNoExponent : ¬ (['e', 'E', 'p', 'P'].contains c && ['+', '-'].contains d) = true := by
        rw [show ['+', '-'].contains d = false from hSign, Bool.and_false]
        simp
      rw [numberTail, if_neg hNoExponent, if_pos hc, ← hNext, hRest, List.length_cons]
      omega

theorem numberTail_eq_zero {r : List Char} (h : NotAhead isNumberChar r) : numberTail r = 0 := by
  match r with
  | [] => rfl
  | [c] => simp [numberTail, show (isWordChar c || c == '.') = false from notAhead_cons.mp h]
  | c :: d :: r =>
    have hc : (isWordChar c || c == '.') = false := notAhead_cons.mp h
    have hNoExponent : ['e', 'E', 'p', 'P'].contains c = false := by
      rw [← Bool.not_eq_true]
      intro hLetter
      simp only [List.contains_eq_mem, List.mem_cons, List.not_mem_nil, or_false, decide_eq_true_eq] at hLetter
      rcases hLetter with rfl | rfl | rfl | rfl <;> exact absurd hc (by decide)
    rw [numberTail, hNoExponent, Bool.false_and, if_neg (by simp), if_neg (by simp [hc])]

/-- Number characters from the start of a number on, possibly with one signed exponent. -/
inductive IsNumeral : List Char → Prop where
  | plain {x : List Char} : startsNumber x = true → (∀ c ∈ x, isNumberChar c = true) → IsNumeral x
  | signed {m n : List Char} {sign : Char} : startsNumber m = true → (∀ c ∈ m, isNumberChar c = true) →
      isSign sign = true → (∀ c ∈ n, isNumberChar c = true) → IsNumeral (m ++ 'e' :: sign :: n)

/-- What could continue a number or be taken for the sign of its exponent. -/
def continuesNumber (c : Char) : Bool :=
  isNumberChar c || isSign c

theorem startsNumber_append {s : List Char} (h : startsNumber s = true) (r : List Char) :
    startsNumber (s ++ r) = true := by
  match s with
  | [] => simp [startsNumber] at h
  | [c] =>
    simp only [startsNumber, List.head?_nil, Option.any_none, Bool.and_false, Bool.or_false] at h
    simp [startsNumber, h]
  | c :: d :: s => exact h

theorem isWordStart_eq_false_of_isDigit {c : Char} (h : c.isDigit = true) : isWordStart c = false := by
  rw [← Bool.not_eq_true]
  intro hStart
  have hCodes : isWordStart c =
      (decide (c.val ≥ 'A'.val ∧ c.val ≤ 'Z'.val) || (c.val ≥ 'a'.val && c.val ≤ 'z'.val) || c == '_') := rfl
  simp only [hCodes, Char.isDigit, Bool.or_eq_true, Bool.and_eq_true, decide_eq_true_eq, beq_iff_eq,
    UInt32.le_iff_toNat_le, ge_iff_le] at h hStart
  rcases hStart with (hUpper | hLower) | rfl
  · have hLow : 'A'.val.toNat = 65 := rfl
    have hHigh : '9'.val.toNat = 57 := rfl
    omega
  · have hLow : 'a'.val.toNat = 97 := rfl
    have hHigh : '9'.val.toNat = 57 := rfl
    omega
  · exact absurd h (by decide)

theorem lexes_of_startsNumber {c : Char} {s r : List Char} (hStart : startsNumber (c :: s) = true)
    (hTail : numberTail (s ++ r) = s.length) : Lexes (c :: s) [.number (c :: s)] r := by
  refine lexes_of_lexeme .number ?_
  have hFirst : c.isDigit = true ∨ c = '.' := by
    simp only [startsNumber, Bool.or_eq_true, Bool.and_eq_true, beq_iff_eq] at hStart
    tauto
  have hBlank : isBlank c = false := by
    rcases hFirst with hDigit | rfl
    · exact isBlank_eq_false (by simp [isWordChar, Char.isAlphanum, hDigit])
    · decide
  have hWord : isWordStart c = false := by
    rcases hFirst with hDigit | rfl
    · exact isWordStart_eq_false_of_isDigit hDigit
    · decide
  have hStarts : startsNumber (c :: (s ++ r)) = true := startsNumber_append hStart r
  rw [List.cons_append, lexeme, if_neg (by simp [hBlank]), if_neg (by simp [hWord]), if_pos hStarts, hTail]

theorem lexes_number {x r : List Char} (hx : IsNumeral x) (hr : NotAhead continuesNumber r) : Lexes x [.number x] r := by
  have hNumber : NotAhead isNumberChar r := fun c hc => (Bool.or_eq_false_iff.mp (hr c hc)).1
  have hSign : NotAhead isSign r := fun c hc => (Bool.or_eq_false_iff.mp (hr c hc)).2
  cases hx with
  | plain hStart hAll =>
    cases x with
    | nil => simp [startsNumber] at hStart
    | cons c s =>
      refine lexes_of_startsNumber hStart ?_
      rw [numberTail_append (fun d hd => hAll d (List.mem_cons_of_mem _ hd)) hSign, numberTail_eq_zero hNumber]
      rfl
  | @signed m n sign hStart hAll hIsSign hRest =>
    cases m with
    | nil => simp [startsNumber] at hStart
    | cons c s =>
      refine lexes_of_startsNumber (startsNumber_append hStart ('e' :: sign :: n)) ?_
      have hSigned : ['+', '-'].contains sign = true := hIsSign
      have hLetter : NotAhead isSign ('e' :: sign :: (n ++ r)) := notAhead_cons.mpr (by decide)
      rw [List.append_eq, List.append_assoc, List.cons_append, List.cons_append,
        numberTail_append (fun d hd => hAll d (List.mem_cons_of_mem _ hd)) hLetter, numberTail, hSigned,
        if_pos (by decide), numberTail_append hRest hSign, numberTail_eq_zero hNumber]
      simp

-- ---------------------------------------------------------------------------
-- Punctuation
-- ---------------------------------------------------------------------------

/-- Whether a longer punctuation starts with `m` and this character. -/
def continuesMark (m : List Char) (c : Char) : Bool :=
  marks.any (fun q => (m ++ [c]).isPrefixOf q)

theorem foldr_max_eq {l : List Nat} {n : Nat} (hMem : n ∈ l) (hMax : ∀ k ∈ l, k ≤ n) : l.foldr max 0 = n := by
  have hUpper : ∀ l : List Nat, (∀ k ∈ l, k ≤ n) → l.foldr max 0 ≤ n := by
    intro l
    induction l with
    | nil => simp
    | cons k l ih =>
      intro h
      exact Nat.max_le.mpr ⟨h k (List.mem_cons_self ..), ih fun j hj => h j (List.mem_cons_of_mem _ hj)⟩
  have hLower : ∀ l : List Nat, n ∈ l → n ≤ l.foldr max 0 := by
    intro l
    induction l with
    | nil => simp
    | cons k l ih =>
      intro h
      rcases List.mem_cons.mp h with rfl | h
      · exact Nat.le_max_left _ _
      · exact Nat.le_trans (ih h) (Nat.le_max_right _ _)
  exact Nat.le_antisymm (hUpper l hMax) (hLower l hMem)

/-- The longest punctuation that a text starts with is one. -/
theorem take_markLength_mem {r : List Char} (h : markLength r ≠ 0) : r.take (markLength r) ∈ marks := by
  have hMax : ∀ ns : List Nat, ns.foldr max 0 ≠ 0 → ns.foldr max 0 ∈ ns := by
    intro ns
    induction ns with
    | nil => simp
    | cons n ns ih =>
      intro hNe
      rw [List.foldr_cons] at hNe ⊢
      rcases Nat.le_total n (ns.foldr max 0) with hLe | hLe
      · rw [Nat.max_eq_right hLe] at hNe ⊢
        exact List.mem_cons_of_mem _ (ih hNe)
      · rw [Nat.max_eq_left hLe]
        exact List.mem_cons_self ..
  obtain ⟨m, hMark, hLength⟩ := List.mem_map.mp (hMax _ h)
  obtain ⟨hMem, hStart⟩ := List.mem_filter.mp hMark
  have hTake : m = r.take m.length := (List.prefix_iff_eq_take.mp (List.isPrefixOf_iff_prefix.mp hStart))
  rw [show markLength r = m.length from hLength.symm, ← hTake]
  exact hMem

/-- The longest punctuation is `m` if `m` is one and is not continued. -/
theorem markLength_append {m r : List Char} (hm : m ∈ marks) (hr : NotAhead (continuesMark m) r) :
    markLength (m ++ r) = m.length := by
  refine foldr_max_eq ?_ ?_
  · refine List.mem_map_of_mem (List.mem_filter.mpr ⟨hm, ?_⟩)
    exact List.isPrefixOf_iff_prefix.mpr (List.prefix_append m r)
  · intro k hk
    obtain ⟨q, hq, rfl⟩ := List.mem_map.mp hk
    obtain ⟨hMark, hPrefix⟩ := List.mem_filter.mp hq
    by_contra hLong
    have hqr := List.isPrefixOf_iff_prefix.mp hPrefix
    -- Longer than `m`, so it goes on with the first character of what follows.
    cases r with
    | nil =>
      have := hqr.length_le
      simp at this
      omega
    | cons c r =>
      have hShort : m ++ [c] <+: q := by
        refine List.prefix_of_prefix_length_le ?_ hqr (by simp; omega)
        exact ⟨r, by simp⟩
      have hContinues : continuesMark m c = true :=
        List.any_eq_true.mpr ⟨q, hMark, List.isPrefixOf_iff_prefix.mpr hShort⟩
      rw [notAhead_cons.mp hr] at hContinues
      exact absurd hContinues (by simp)

/-- Punctuation starts like no other token. -/
theorem mark_head {m : List Char} (hm : m ∈ marks) :
    ∃ c s, m = c :: s ∧ isBlank c = false ∧ isWordStart c = false ∧ (c == '"' || c == Char.ofNat 39) = false := by
  have hAll : ∀ m ∈ marks, m.head?.any (fun c => !isBlank c && !isWordStart c && !(c == '"' || c == Char.ofNat 39)) = true
      := by decide +kernel
  have h := hAll m hm
  cases m with
  | nil => simp at h
  | cons c s =>
    rw [List.head?_cons, Option.any_some, Bool.and_eq_true, Bool.and_eq_true] at h
    exact ⟨c, s, rfl, by simpa using h.1.1, by simpa using h.1.2, by simpa using h.2⟩

/-- Whether the character makes a comment of a slash before it. -/
def startsComment (c : Char) : Bool :=
  c == '/' || c == '*'

theorem lexes_mark {m r : List Char} (hm : m ∈ marks) (hNumber : startsNumber (m ++ r) = false)
    (hComment : m = ['/'] → NotAhead startsComment r) (hr : NotAhead (continuesMark m) r) : Lexes m [.mark m] r := by
  obtain ⟨c, s, rfl, hBlank, hWord, hQuote⟩ := mark_head hm
  refine lexes_of_lexeme .mark ?_
  have hLength := markLength_append hm hr
  rw [List.cons_append] at hLength hNumber ⊢
  have hSlash : c = '/' → s = [] ∨ s = ['='] := by
    rintro rfl
    have hAll : ∀ m ∈ marks, m.head? = some '/' → m.tail = [] ∨ m.tail = ['='] := by decide +kernel
    exact hAll _ hm rfl
  have hNoComment : ∀ d, startsComment d = true → (c == '/' && (s ++ r).head? == some d) = false := by
    intro d hd
    rw [← Bool.not_eq_true, Bool.and_eq_true, beq_iff_eq, beq_iff_eq]
    rintro ⟨hc, hHead⟩
    rcases hSlash hc with rfl | rfl
    · rw [List.nil_append] at hHead
      rw [hComment (by rw [hc]) d hHead] at hd
      exact absurd hd (by simp)
    · obtain rfl := Option.some.inj hHead
      exact absurd hd (by decide)
  rw [lexeme, if_neg (by simp [hBlank]), if_neg (by simp [hWord]), if_neg (by simp [hNumber]),
    if_neg (by simpa using hQuote), if_neg (by simpa using hNoComment '/' rfl),
    if_neg (by simpa using hNoComment '*' rfl), hLength]
  rfl

theorem continuesMark_eq_false {m : List Char} (h : ∀ q ∈ marks, m.isPrefixOf q = true → q.length ≤ m.length)
    (c : Char) : continuesMark m c = false := by
  rw [← Bool.not_eq_true]
  intro hContinues
  obtain ⟨q, hMark, hPrefix⟩ := List.any_eq_true.mp hContinues
  have hq := List.isPrefixOf_iff_prefix.mp hPrefix
  have hShort : m <+: q := (List.prefix_append m [c]).trans hq
  have hLong := hq.length_le
  have hBound := h q hMark (List.isPrefixOf_iff_prefix.mpr hShort)
  simp at hLong
  omega

/-- Brackets and commas stand for themselves, whatever follows. -/
theorem lexes_solo {m : List Char} (hm : m ∈ [['('], [')'], ['['], [']'], [',']]) (r : List Char) :
    Lexes m [.mark m] r := by
  have hMarks : ∀ m ∈ [['('], [')'], ['['], [']'], [',']], m ∈ marks ∧ m ≠ ['/'] ∧
      ∀ q ∈ marks, m.isPrefixOf q = true → q.length ≤ m.length := by decide +kernel
  obtain ⟨hMark, hSlash, hLongest⟩ := hMarks m hm
  refine lexes_mark hMark ?_ (fun h => absurd h hSlash) (fun c _ => continuesMark_eq_false hLongest c)
  simp only [List.mem_cons, List.not_mem_nil, or_false] at hm
  rcases hm with rfl | rfl | rfl | rfl | rfl <;> simp [startsNumber]

/-- Any punctuation ends before a blank. -/
theorem lexes_spaced {m : List Char} (hm : m ∈ marks) (r : List Char) : Lexes m [.mark m] (' ' :: r) := by
  have hAll : ∀ m ∈ marks, startsNumber (m ++ [' ']) = false ∧ continuesMark m ' ' = false := by decide +kernel
  obtain ⟨hNumber, hContinues⟩ := hAll m hm
  refine lexes_mark hm ?_ (fun _ => notAhead_cons.mpr (by decide)) (notAhead_cons.mpr hContinues)
  match m with
  | [] | [c] => exact hNumber
  | c :: d :: m => exact hNumber

/-- The punctuation that is written before an operand. -/
def prefixMarks : List (List Char) :=
  [['!'], ['-'], ['~'], ['&'], ['*'], ['+']]

/-- A prefix operator ends before a name, a number or a parenthesis. -/
theorem lexes_unary {m : List Char} (hm : m ∈ prefixMarks) {c : Char} (hc : isNumberChar c = true ∨ c = '(')
    (r : List Char) : Lexes m [.mark m] (c :: r) := by
  have hMarks : ∀ m ∈ prefixMarks, m ∈ marks ∧ m ≠ ['/'] ∧
      ∀ q ∈ marks, m.isPrefixOf q = true → (q.drop m.length).head?.all (fun c => !isNumberChar c && c != '(') = true := by
    decide +kernel
  obtain ⟨hMark, hSlash, hNext⟩ := hMarks m hm
  refine lexes_mark hMark ?_ (fun h => absurd h hSlash) (notAhead_cons.mpr ?_)
  · simp only [prefixMarks, List.mem_cons, List.not_mem_nil, or_false] at hm
    rcases hm with rfl | rfl | rfl | rfl | rfl | rfl <;> simp [startsNumber]
  · rw [← Bool.not_eq_true]
    intro hContinues
    obtain ⟨q, hq, hPrefix⟩ := List.any_eq_true.mp hContinues
    obtain ⟨rest, rfl⟩ := List.isPrefixOf_iff_prefix.mp hPrefix
    have hShort : m <+: m ++ [c] ++ rest := ⟨[c] ++ rest, by simp⟩
    have hOther := hNext _ hq (List.isPrefixOf_iff_prefix.mpr hShort)
    rcases hc with h | h <;> simp [h] at hOther

/-- A point ends before a name. -/
theorem lexes_point {c : Char} (hc : isWordStart c = true) (r : List Char) : Lexes ['.'] [.mark ['.']] (c :: r) := by
  have hDigit : c.isDigit = false := by
    rw [← Bool.not_eq_true]
    intro h
    rw [isWordStart_eq_false_of_isDigit h] at hc
    exact absurd hc (by simp)
  have hNext : ∀ q ∈ marks, ['.'].isPrefixOf q = true → (q.drop 1).head?.all (fun c => !isWordStart c) = true := by
    decide +kernel
  refine lexes_mark (by decide) (by simp [startsNumber, hDigit]) (fun h => absurd h (by decide))
    (notAhead_cons.mpr ?_)
  rw [← Bool.not_eq_true]
  intro hContinues
  obtain ⟨q, hq, hPrefix⟩ := List.any_eq_true.mp hContinues
  obtain ⟨rest, rfl⟩ := List.isPrefixOf_iff_prefix.mp hPrefix
  have hOther := hNext _ hq rfl
  simp [hc] at hOther

end Lowering.C
