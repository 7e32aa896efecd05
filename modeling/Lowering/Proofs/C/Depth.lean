import Lowering.Proofs.C.Grammar

/-!
# Depth of parentheses

How many parentheses are open around each character of a text. The depth of an operator tells what is grouped in a text and
what is not, without reading the text: two texts that have the same characters apart from parentheses and blanks, and each
character at the same depth, are grouped alike.

The tokens of a text have the depths of the text, as long as nothing is lost in comments, and so does the expression that is
read from them.

* `depths`, `Closing` — depths, piece by piece.
* `depths_of_scan`, `Derives.chars` — the tokens of a text, and an expression from its tokens.
* `Derives.proper` — what a postfix form follows is no operator.
-/

namespace Lowering.C

-- ---------------------------------------------------------------------------
-- Depths
-- ---------------------------------------------------------------------------

/-- The characters of a text, each with the number of parentheses that are open around it, of which `k` are open before the
text. Parentheses themselves and blanks are left out. -/
def depths : Nat → List Char → List (Char × Nat)
  | _, [] => []
  | k, c :: s =>
    if c = '(' then depths (k + 1) s
    else if c = ')' then depths (k - 1) s
    else if isBlank c then depths k s
    else (c, k) :: depths k s

/-- The text closes what it opens: what follows it is as deep as the text itself. -/
def Closing (s : List Char) : Prop :=
  ∀ k t, depths k (s ++ t) = depths k s ++ depths k t

theorem closing_nil : Closing [] :=
  fun _ _ => rfl

theorem Closing.append {s t : List Char} (hs : Closing s) (ht : Closing t) : Closing (s ++ t) := by
  intro k u
  rw [List.append_assoc, hs, ht, hs, List.append_assoc]

theorem Closing.parens {s : List Char} (h : Closing s) : Closing ('(' :: (s ++ [')'])) := by
  intro k t
  show depths (k + 1) (s ++ [')'] ++ t) = depths (k + 1) (s ++ [')']) ++ depths k t
  rw [List.append_assoc, h, h, List.append_assoc]
  rfl

/-- What is in parentheses is one deeper. -/
theorem Closing.depths_parens {s : List Char} (h : Closing s) (k : Nat) :
    depths k ('(' :: (s ++ [')'])) = depths (k + 1) s := by
  show depths (k + 1) (s ++ [')']) = _
  rw [h]
  exact List.append_nil _

theorem closing_of_forall {s : List Char} (h : ∀ c ∈ s, c ≠ '(' ∧ c ≠ ')') : Closing s := by
  induction s with
  | nil => exact closing_nil
  | cons c s ih =>
    obtain ⟨⟨hOpen, hClose⟩, hRest⟩ := List.forall_mem_cons.mp h
    intro k t
    simp only [List.cons_append, depths, hOpen, hClose, if_false, ih hRest k t]
    split <;> rfl

/-- The characters that have a depth. -/
def content (s : List Char) : List Char :=
  s.filter fun c => !(c == '(' || c == ')' || isBlank c)

theorem content_append (s t : List Char) : content (s ++ t) = content s ++ content t :=
  List.filter_append ..

theorem map_fst_depths (k : Nat) (s : List Char) : (depths k s).map Prod.fst = content s := by
  induction s generalizing k with
  | nil => rfl
  | cons c s ih =>
    unfold depths content
    rw [List.filter_cons]
    split
    · simp_all [content]
    · split
      · simp_all [content]
      · split <;> simp_all [content]

/-- Blanks make no difference. -/
theorem depths_filter (k : Nat) (s : List Char) : depths k (s.filter fun c => !isBlank c) = depths k s := by
  have hParens : isBlank '(' = false ∧ isBlank ')' = false := by decide
  induction s generalizing k with
  | nil => rfl
  | cons c s ih =>
    cases hBlank : isBlank c with
    | false =>
      rw [List.filter_cons_of_pos (by simp [hBlank])]
      simp only [depths, ih]
    | true =>
      have hOpen : c ≠ '(' := by
        rintro rfl
        rw [hParens.1] at hBlank
        cases hBlank
      have hClose : c ≠ ')' := by
        rintro rfl
        rw [hParens.2] at hBlank
        cases hBlank
      rw [List.filter_cons_of_neg (by simp [hBlank]), ih, depths, if_neg hOpen, if_neg hClose, if_pos hBlank]

-- ---------------------------------------------------------------------------
-- Tokens
-- ---------------------------------------------------------------------------

/-- The characters of a token. -/
def Token.chars : Token → List Char
  | .word s | .number s | .quoted s | .mark s => s

/-- A text without quotes in which every slash has a blank after it, so that there is no comment in it. -/
def commentless : List Char → Bool
  | [] => true
  | c :: s => c != '"' && c != Char.ofNat 39 && (c != '/' || s.head? == some ' ') && commentless s

theorem commentless_cons {c : Char} {s : List Char} :
    commentless (c :: s) = true ↔
      (c ≠ '"' ∧ c ≠ Char.ofNat 39) ∧ (c = '/' → s.head? = some ' ') ∧ commentless s = true := by
  simp only [commentless, Bool.and_eq_true, bne_iff_ne, Bool.or_eq_true, beq_iff_eq, ne_eq, and_assoc, ← imp_iff_not_or]

theorem commentless_append {s t : List Char} (hs : commentless s = true) (ht : commentless t = true) :
    commentless (s ++ t) = true := by
  induction s with
  | nil => exact ht
  | cons c s ih =>
    obtain ⟨hQuote, hSlash, hRest⟩ := commentless_cons.mp hs
    refine commentless_cons.mpr ⟨hQuote, fun hc => ?_, ih hRest⟩
    rw [List.append_eq, List.head?_append, hSlash hc]
    rfl

theorem commentless_drop {s : List Char} (h : commentless s = true) (n : Nat) : commentless (s.drop n) = true := by
  induction n generalizing s with
  | zero => exact h
  | succ n ih =>
    cases s with
    | nil => rfl
    | cons c s => exact ih (commentless_cons.mp h).2.2

theorem not_isBlank_of_mem_numberTail {s : List Char} : ∀ c ∈ s.take (numberTail s), isBlank c = false := by
  fun_induction numberTail s with
  | case1 c d r h ih =>
    have hLetters : ['e', 'E', 'p', 'P'].all (fun c => !isBlank c) = true ∧
        ['+', '-'].all (fun c => !isBlank c) = true := by decide
    rw [Bool.and_eq_true, List.contains_iff_mem, List.contains_iff_mem] at h
    have hLetter := List.all_eq_true.mp hLetters.1 c h.1
    have hSign := List.all_eq_true.mp hLetters.2 d h.2
    simp only [List.take_succ_cons, List.forall_mem_cons]
    exact ⟨by simpa using hLetter, by simpa using hSign, ih⟩
  | case2 c d r _ h ih =>
    simp only [List.take_succ_cons, List.forall_mem_cons]
    refine ⟨?_, ih⟩
    rcases Bool.or_eq_true_iff.mp h with h | h
    · exact isBlank_eq_false h
    · obtain rfl := beq_iff_eq.mp h
      decide
  | case3 => simp
  | case4 c h =>
    simp only [List.take_succ_cons, List.take_zero, List.forall_mem_singleton]
    rcases Bool.or_eq_true_iff.mp h with h | h
    · exact isBlank_eq_false h
    · obtain rfl := beq_iff_eq.mp h
      decide
  | case5 => simp
  | case6 => simp

/-- The first element of a text without comments: its characters are there, unless it is a blank. -/
theorem chars_of_lexeme {c : Char} {r : List Char} {kind : Kind} {n : Nat} (hText : commentless (c :: r) = true)
    (h : lexeme (c :: r) = some (kind, n)) :
    (kind.tokens ((c :: r).take (n + 1))).flatMap Token.chars = ((c :: r).take (n + 1)).filter fun c => !isBlank c := by
  have hKeep : ∀ s : List Char, (∀ c ∈ s, isBlank c = false) → s.filter (fun c => !isBlank c) = s := by
    intro s hs
    exact List.filter_eq_self.mpr fun c hc => by simp [hs c hc]
  obtain ⟨hQuote, hSlash, -⟩ := commentless_cons.mp hText
  rw [lexeme] at h
  split at h
  · -- A blank.
    rename_i hBlank
    obtain ⟨rfl, rfl⟩ := Prod.mk.inj (Option.some.inj h)
    simp [Kind.tokens, hBlank]
  rename_i hBlank
  rw [Bool.not_eq_true] at hBlank
  split at h
  · -- A word.
    rename_i hStart
    obtain ⟨rfl, rfl⟩ := Prod.mk.inj (Option.some.inj h)
    have hWord : r.take (r.takeWhile isWordChar).length = r.takeWhile isWordChar :=
      (List.prefix_iff_eq_take.mp (List.takeWhile_prefix isWordChar)).symm
    rw [List.take_succ_cons, hWord, hKeep]
    · simp [Kind.tokens, Token.chars]
    · refine List.forall_mem_cons.mpr ⟨hBlank, fun d hd => isBlank_eq_false ?_⟩
      exact List.all_eq_true.mp List.all_takeWhile d hd
  split at h
  · -- A number.
    obtain ⟨rfl, rfl⟩ := Prod.mk.inj (Option.some.inj h)
    rw [List.take_succ_cons, hKeep]
    · simp [Kind.tokens, Token.chars]
    · exact List.forall_mem_cons.mpr ⟨hBlank, not_isBlank_of_mem_numberTail⟩
  rw [if_neg (by simp [hQuote]), if_neg, if_neg] at h
  · -- Punctuation.
    split at h
    · cases h
    · rename_i length hLength
      obtain ⟨rfl, rfl⟩ := Prod.mk.inj (Option.some.inj h)
      have hMark := take_markLength_mem (r := c :: r) (by omega)
      have hAll : ∀ m ∈ marks, m.all (fun c => !isBlank c) = true := by decide +kernel
      rw [hLength] at hMark
      rw [hKeep]
      · simp [Kind.tokens, Token.chars]
      · intro d hd
        simpa using List.all_eq_true.mp (hAll _ hMark) d hd
  · simp only [Bool.and_eq_true, beq_iff_eq, not_and]
    intro hc hHead
    rw [hSlash hc] at hHead
    exact absurd hHead (by decide)
  · simp only [Bool.and_eq_true, beq_iff_eq, not_and]
    intro hc hHead
    rw [hSlash hc] at hHead
    exact absurd hHead (by decide)

/-- The tokens of a text without comments have all of its characters but the blanks. -/
theorem chars_of_scan {s : List Char} {ts : List Token} (hText : commentless s = true) (h : scan s = some ts) :
    ts.flatMap Token.chars = s.filter fun c => !isBlank c := by
  fun_induction scan s generalizing ts with
  | case1 => rw [← Option.some.inj h]; rfl
  | case2 => cases h
  | case3 c r kind n hLexeme ih =>
    obtain ⟨us, hRest, rfl⟩ := Option.map_eq_some_iff.mp h
    rw [List.flatMap_append, chars_of_lexeme hText hLexeme, ih (commentless_drop hText (n + 1)) hRest, ← List.filter_append,
      List.take_append_drop]

/-- The tokens of a text without comments are as deep as the text. -/
theorem depths_of_scan {s : List Char} {ts : List Token} (hText : commentless s = true) (h : scan s = some ts) (k : Nat) :
    depths k (ts.flatMap Token.chars) = depths k s := by
  rw [chars_of_scan hText h, depths_filter]

-- ---------------------------------------------------------------------------
-- Two texts
-- ---------------------------------------------------------------------------

/-- A character that opens and closes nothing: no parenthesis, no quote, no slash. -/
def isNeutral (c : Char) : Bool :=
  !(['(', ')', '"', Char.ofNat 39, '/'].contains c)

theorem ne_of_isNeutral {c : Char} (h : isNeutral c = true) :
    (c ≠ '(' ∧ c ≠ ')') ∧ (c ≠ '"' ∧ c ≠ Char.ofNat 39) ∧ c ≠ '/' := by
  simpa [isNeutral, and_assoc] using h

theorem isNeutral_of_continuesNumber {c : Char} (h : continuesNumber c = true) : isNeutral c = true := by
  have hAll : ['(', ')', '"', Char.ofNat 39, '/'].all (fun c => !continuesNumber c) = true := by decide
  rw [isNeutral, Bool.not_eq_true', ← Bool.not_eq_true, List.contains_iff_mem]
  intro hMem
  have hNot := List.all_eq_true.mp hAll c hMem
  rw [h] at hNot
  cases hNot

theorem isNeutral_of_isNumberChar {c : Char} (h : isNumberChar c = true) : isNeutral c = true :=
  isNeutral_of_continuesNumber (by rw [continuesNumber, h, Bool.true_or])

theorem isNeutral_of_isIdentifier {w : List Char} (h : IsIdentifier w) : ∀ c ∈ w, isNeutral c = true := by
  have hWord : ∀ c, isWordChar c = true → isNeutral c = true := fun c hc =>
    isNeutral_of_isNumberChar (by rw [isNumberChar, hc, Bool.true_or])
  cases w with
  | nil => exact h.elim
  | cons c r =>
    exact List.forall_mem_cons.mpr ⟨hWord c (isWordChar_of_isWordStart h.1), fun d hd => hWord d (h.2 d hd)⟩

theorem isNeutral_of_isNumeral {x : List Char} (h : IsNumeral x) : ∀ c ∈ x, isNeutral c = true := by
  cases h with
  | plain _ hChars => exact fun c hc => isNeutral_of_isNumberChar (hChars c hc)
  | signed _ hChars hSign hExponent =>
    refine List.forall_mem_append.mpr ⟨fun c hc => isNeutral_of_isNumberChar (hChars c hc), ?_⟩
    refine List.forall_mem_cons.mpr ⟨by decide, List.forall_mem_cons.mpr ⟨?_, fun c hc => ?_⟩⟩
    · exact isNeutral_of_continuesNumber (by rw [continuesNumber, hSign, Bool.or_true])
    · exact isNeutral_of_isNumberChar (hExponent c hc)

theorem commentless_of_forall {s : List Char} (h : ∀ c ∈ s, isNeutral c = true) : commentless s = true := by
  induction s with
  | nil => rfl
  | cons c s ih =>
    obtain ⟨hFirst, hRest⟩ := List.forall_mem_cons.mp h
    obtain ⟨-, hQuote, hSlash⟩ := ne_of_isNeutral hFirst
    exact commentless_cons.mpr ⟨hQuote, fun hc => absurd hc hSlash, ih hRest⟩

/-- The characters of an expression and a text: both close what they open, they are the same apart from parentheses and
blanks, and there is no comment in the text. -/
structure Corresponds (s t : List Char) : Prop where
  left : Closing s
  right : Closing t
  same : content s = content t
  commentless : commentless t = true

namespace Corresponds

variable {s s' t t' : List Char}

theorem of_forall (h : ∀ c ∈ s, isNeutral c = true) : Corresponds s s :=
  have hClosing : Closing s := closing_of_forall fun c hc => (ne_of_isNeutral (h c hc)).1
  ⟨hClosing, hClosing, rfl, commentless_of_forall h⟩

theorem append (h : Corresponds s t) (h' : Corresponds s' t') : Corresponds (s ++ s') (t ++ t') where
  left := h.left.append h'.left
  right := h.right.append h'.right
  same := by rw [content_append, content_append, h.same, h'.same]
  commentless := commentless_append h.commentless h'.commentless

/-- Parentheses around a text have no content. -/
theorem content_parens (s : List Char) : content ('(' :: (s ++ [')'])) = content s := by
  show content (s ++ [')']) = content s
  rw [content_append]
  exact List.append_nil _

theorem commentless_parens (h : C.commentless t = true) : C.commentless ('(' :: (t ++ [')'])) = true :=
  commentless_append (s := ['(']) (by decide) (commentless_append h (by decide))

/-- More parentheses in the expression. -/
theorem group (h : Corresponds s t) : Corresponds ('(' :: (s ++ [')'])) t :=
  ⟨h.left.parens, h.right, (content_parens s).trans h.same, h.commentless⟩

/-- More parentheses in the text. -/
theorem wrap (h : Corresponds s t) : Corresponds s ('(' :: (t ++ [')'])) :=
  ⟨h.left, h.right.parens, h.same.trans (content_parens t).symm, commentless_parens h.commentless⟩

/-- Parentheses that are only in the text. -/
theorem wrapped (h : Corresponds s t) (b : Bool) : Corresponds s (if b then '(' :: (t ++ [')']) else t) := by
  cases b with
  | false => exact h
  | true => exact h.wrap

theorem depths_of_parens (h : Corresponds s t) {k : Nat}
    (hDepths : depths k ('(' :: (s ++ [')'])) = depths k ('(' :: (t ++ [')']))) : depths (k + 1) s = depths (k + 1) t := by
  rwa [h.left.depths_parens, h.right.depths_parens] at hDepths

/-- Where texts with the same content are as deep as each other, so are their first parts and what follows these. -/
theorem split (h : Corresponds s t) {j k : Nat} (hDepths : depths j (s ++ s') = depths k (t ++ t')) :
    depths j s = depths k t ∧ depths j s' = depths k t' := by
  rw [h.left, h.right] at hDepths
  refine List.append_inj hDepths ?_
  rw [← List.length_map (f := Prod.fst), map_fst_depths, h.same, ← map_fst_depths k, List.length_map]

end Corresponds

/-- No parentheses are opened or closed in the text. -/
def isFlat (s : List Char) : Bool :=
  s.all fun c => c != '(' && c != ')'

theorem closing_of_isFlat {s : List Char} (h : isFlat s = true) : Closing s := by
  refine closing_of_forall fun c hc => ?_
  simpa using List.all_eq_true.mp h c hc

theorem depths_of_isFlat {s : List Char} (h : isFlat s = true) (k : Nat) : ∀ x ∈ depths k s, x.2 = k := by
  induction s with
  | nil => simp [depths]
  | cons c s ih =>
    simp only [isFlat, List.all_cons, Bool.and_eq_true, bne_iff_ne] at h
    rw [depths, if_neg h.1.1, if_neg h.1.2]
    split
    · exact ih h.2
    · exact List.forall_mem_cons.mpr ⟨rfl, ih h.2⟩

/-- Punctuation of an expression and how it is written: the same apart from blanks, and without parentheses. -/
def isPunctuation (s t : List Char) : Bool :=
  isFlat s && isFlat t && content s == content t && content s != [] && commentless t

namespace Corresponds

variable {s s' t t' : List Char}

theorem of_isPunctuation (h : isPunctuation s t = true) : Corresponds s t := by
  simp only [isPunctuation, Bool.and_eq_true, beq_iff_eq] at h
  obtain ⟨⟨⟨⟨hs, ht⟩, hSame⟩, -⟩, hText⟩ := h
  exact ⟨closing_of_isFlat hs, closing_of_isFlat ht, hSame, hText⟩

/-- Texts that start with the same punctuation, equally deep, start equally deep. -/
theorem split_punctuation (h : isPunctuation s t = true) {j k : Nat} (hDepths : depths j (s ++ s') = depths k (t ++ t')) :
    j = k ∧ depths j s' = depths k t' := by
  obtain ⟨hFirst, hRest⟩ := (of_isPunctuation h).split hDepths
  simp only [isPunctuation, Bool.and_eq_true, bne_iff_ne] at h
  obtain ⟨⟨⟨⟨hs, ht⟩, -⟩, hSome⟩, -⟩ := h
  refine ⟨?_, hRest⟩
  cases hList : depths j s with
  | nil =>
    rw [← map_fst_depths j, hList] at hSome
    exact absurd rfl hSome
  | cons x rest =>
    have hj : x.2 = j := depths_of_isFlat hs j x (by simp [hList])
    have hk : x.2 = k := depths_of_isFlat ht k x (by simp [← hFirst, hList])
    exact hj.symm.trans hk

end Corresponds

-- ---------------------------------------------------------------------------
-- Expressions
-- ---------------------------------------------------------------------------

namespace Expr

mutual

/-- The characters of an expression. -/
def chars : Expr → List Char
  | .name w => w
  | .constant x => x
  | .text x => x
  | .group e => '(' :: (chars e ++ [')'])
  | .member mark e w => chars e ++ (mark ++ w)
  | .index e i => chars e ++ ('[' :: (chars i ++ [']']))
  | .call f args => chars f ++ ('(' :: (charsOfAll args ++ [')']))
  | .unary mark e => mark ++ chars e
  | .cast type stars e => '(' :: (type ++ (List.replicate stars '*' ++ (')' :: chars e)))
  | .binary mark a b => chars a ++ (mark ++ chars b)
  | .choose c a b => chars c ++ ('?' :: (chars a ++ (':' :: chars b)))

/-- The characters of arguments. -/
def charsOfAll : List Expr → List Char
  | [] => []
  | [e] => chars e
  | e :: e' :: es => chars e ++ (',' :: charsOfAll (e' :: es))

end

/-- The expression is an operator with its operands, not in parentheses. -/
def isOperator : Expr → Bool
  | .unary .. | .cast .. | .binary .. | .choose .. => true
  | _ => false

mutual

/-- What a postfix form follows is no operator. -/
def Proper : Expr → Prop
  | .name _ | .constant _ | .text _ => True
  | .group e | .unary _ e | .cast _ _ e => Proper e
  | .member _ e _ => e.isOperator = false ∧ Proper e
  | .index e i => e.isOperator = false ∧ Proper e ∧ Proper i
  | .call f args => f.isOperator = false ∧ Proper f ∧ AllProper args
  | .binary _ a b => Proper a ∧ Proper b
  | .choose c a b => Proper c ∧ Proper a ∧ Proper b

def AllProper : List Expr → Prop
  | [] => True
  | e :: es => Proper e ∧ AllProper es

end

/-- An expression in a number of parentheses. -/
def groups : Nat → Expr → Expr
  | 0, e => e
  | n + 1, e => .group (groups n e)

theorem proper_groups {n : Nat} {e : Expr} : (groups n e).Proper ↔ e.Proper := by
  induction n with
  | zero => rfl
  | succ n ih => exact ih

theorem closing_groups {e : Expr} (h : Closing e.chars) (n : Nat) : Closing (groups n e).chars := by
  induction n with
  | zero => exact h
  | succ n ih => exact ih.parens

/-- What is in parentheses is deeper by their number. -/
theorem depths_groups {e : Expr} (h : Closing e.chars) (n k : Nat) :
    depths k (groups n e).chars = depths (k + n) e.chars := by
  induction n generalizing k with
  | zero => rfl
  | succ n ih =>
    rw [groups, chars, (closing_groups h n).depths_parens, ih, Nat.add_assoc, Nat.add_comm 1]

/-- An operator in a number of parentheses, and its text with or without parentheses. -/
theorem depths_operator {e : Expr} {t : List Char} {n k : Nat} {b : Bool}
    (hDepths : depths k (groups n e).chars = depths k (if b then '(' :: (t ++ [')']) else t))
    (h : Corresponds e.chars t) : depths (k + n) e.chars = depths (k + b.toNat) t := by
  rw [← depths_groups h.left, hDepths]
  cases b with
  | false => rfl
  | true => exact h.right.depths_parens k

theorem corresponds_groups {e : Expr} {t : List Char} (h : Corresponds e.chars t) (n : Nat) :
    Corresponds (groups n e).chars t := by
  induction n with
  | zero => exact h
  | succ n ih => exact ih.group

end Expr

mutual

/-- An expression has the characters of its tokens. -/
theorem Derives.chars : ∀ {k : Nat} {s : List Token} {e : Expr}, Derives k s e → s.flatMap Token.chars = e.chars
  | _, _, _, .name _ | _, _, _, .constant | _, _, _, .text => by simp [Token.chars, Expr.chars]
  | _, _, _, .group h => by simp [Token.chars, Expr.chars, h.chars]
  | _, _, _, .member _ _ h => by simp [Token.chars, Expr.chars, h.chars]
  | _, _, _, .index h hi => by simp [Token.chars, Expr.chars, h.chars, hi.chars]
  | _, _, _, .callNone h => by simp [Token.chars, Expr.chars, Expr.charsOfAll, h.chars]
  | _, _, _, .call h hArgs => by simp [Token.chars, Expr.chars, h.chars, hArgs.chars]
  | _, _, _, .unary _ h => by simp [Token.chars, Expr.chars, h.chars]
  | _, _, _, .cast _ h => by simp [Token.chars, Expr.chars, h.chars, List.flatMap_replicate]
  | _, _, _, .binary _ ha hb => by simp [Token.chars, Expr.chars, ha.chars, hb.chars]
  | _, _, _, .choose hc ha hb => by simp [Token.chars, Expr.chars, hc.chars, ha.chars, hb.chars]
  | _, _, _, .up _ h => h.chars

theorem Arguments.chars : ∀ {s : List Token} {args : List Expr}, Arguments s args →
    s.flatMap Token.chars = Expr.charsOfAll args
  | _, _, .last h => h.chars
  | _, _, .more h hArgs => by
    have hRest := hArgs.chars
    cases hArgs <;> simp [Token.chars, Expr.charsOfAll, h.chars, hRest]

end

mutual

/-- What a postfix form follows is of the level of postfix forms, so it is no operator. -/
theorem Derives.proper : ∀ {k : Nat} {s : List Token} {e : Expr}, Derives k s e →
    e.Proper ∧ (12 ≤ k → e.isOperator = false)
  | _, _, _, .name _ | _, _, _, .constant | _, _, _, .text => ⟨trivial, fun _ => rfl⟩
  | _, _, _, .group h => ⟨h.proper.1, fun _ => rfl⟩
  | _, _, _, .member _ _ h => ⟨⟨h.proper.2 (Nat.le_refl _), h.proper.1⟩, fun _ => rfl⟩
  | _, _, _, .index h hi => ⟨⟨h.proper.2 (Nat.le_refl _), h.proper.1, hi.proper.1⟩, fun _ => rfl⟩
  | _, _, _, .callNone h => ⟨⟨h.proper.2 (Nat.le_refl _), h.proper.1, trivial⟩, fun _ => rfl⟩
  | _, _, _, .call h hArgs => ⟨⟨h.proper.2 (Nat.le_refl _), h.proper.1, hArgs.proper⟩, fun _ => rfl⟩
  | _, _, _, .unary _ h => ⟨h.proper.1, fun hk => absurd hk (by omega)⟩
  | _, _, _, .cast _ h => ⟨h.proper.1, fun hk => absurd hk (by omega)⟩
  | _, _, _, .binary hm ha hb => ⟨⟨ha.proper.1, hb.proper.1⟩, fun hk => by
      have hBounds := binaryLevel?_bounds hm
      omega⟩
  | _, _, _, .choose hc ha hb => ⟨⟨hc.proper.1, ha.proper.1, hb.proper.1⟩, fun hk => absurd hk (by omega)⟩
  | _, _, _, .up _ h => ⟨h.proper.1, fun hk => h.proper.2 (by omega)⟩

theorem Arguments.proper : ∀ {s : List Token} {args : List Expr}, Arguments s args → Expr.AllProper args
  | _, _, .last h => ⟨h.proper.1, trivial⟩
  | _, _, .more h hArgs => ⟨h.proper.1, hArgs.proper⟩

end

end Lowering.C
