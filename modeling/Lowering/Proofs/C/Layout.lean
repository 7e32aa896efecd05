import Mathlib.Data.List.Basic

/-!
# Brackets and lines of a C text

A text is read from left to right, with a stack of the brackets that are open. What stands inside a string or character
literal is passed over. A text is well laid out if every bracket is closed by its partner, in the right order, and if every
line is indented by its braces: so many blanks for each brace that is open at its start, where a closing brace at the front
of the line counts already.

Texts are put together from pieces. A piece within a line may open and close brackets (`Flows`), and rows of whole lines
lead from one number of open braces to another (`Lines`).

* `Cursor.read` — the reader.
* `Balanced`, `Aligned` — the layout of a text.
* `Lines.balanced`, `Lines.aligned` — whole lines that start and end outside of all braces are well laid out.
-/

namespace Lowering.C

-- ---------------------------------------------------------------------------
-- The reader
-- ---------------------------------------------------------------------------

/-- What a reader is inside of: plain code, a literal, or an escape in a literal that ends with the given quote. -/
inductive Mode where
  | code
  | quoted (quote : Char)
  | escaped (quote : Char)
deriving DecidableEq, Repr

/-- The brackets that are open, the innermost first, and what the reader is inside of. -/
structure Cursor where
  opened : List Char := []
  mode : Mode := .code
deriving DecidableEq, Repr

/-- The bracket that a closing bracket closes. -/
def opener? : Char → Option Char
  | ')' => some '('
  | ']' => some '['
  | '}' => some '{'
  | _ => none

/-- Whether a character opens a bracket. -/
def isOpener (c : Char) : Bool :=
  c = '(' || c = '[' || c = '{'

/-- Whether a character starts a literal. -/
def isQuote (c : Char) : Bool :=
  c = '"' || c = '\''

namespace Cursor

/-- Reads a character outside of literals. A closing bracket needs its partner. -/
def stepCode (opened : List Char) (c : Char) : Option Cursor :=
  if isQuote c then some ⟨opened, .quoted c⟩
  else if isOpener c then some ⟨c :: opened, .code⟩
  else
    match opener? c, opened with
    | none, _ => some ⟨opened, .code⟩
    | some o, top :: rest => if top = o then some ⟨rest, .code⟩ else none
    | some _, [] => none

/-- Reads a character. -/
def step (k : Cursor) (c : Char) : Option Cursor :=
  match k.mode with
  | .code => stepCode k.opened c
  | .quoted quote =>
    some ⟨k.opened, if c = '\\' then .escaped quote else if c = quote then .code else .quoted quote⟩
  | .escaped quote => some ⟨k.opened, .quoted quote⟩

/-- Reads a text. -/
def read (k : Cursor) (s : List Char) : Option Cursor :=
  s.foldlM step k

theorem read_append (k : Cursor) (s t : List Char) : k.read (s ++ t) = (k.read s).bind (·.read t) :=
  List.foldlM_append ..

theorem stepCode_frame {opened : List Char} {c : Char} {k : Cursor} (h : stepCode opened c = some k)
    (around : List Char) : stepCode (opened ++ around) c = some ⟨k.opened ++ around, k.mode⟩ := by
  unfold stepCode at h ⊢
  by_cases hQuote : isQuote c = true
  · rw [if_pos hQuote] at h ⊢
    cases h
    rfl
  · rw [if_neg hQuote] at h ⊢
    by_cases hOpener : isOpener c = true
    · rw [if_pos hOpener] at h ⊢
      cases h
      rfl
    · rw [if_neg hOpener] at h ⊢
      cases hClosed : opener? c with
      | none =>
        rw [hClosed] at h
        cases h
        rfl
      | some o =>
        rw [hClosed] at h
        cases opened with
        | nil => cases h
        | cons top rest =>
          dsimp only [List.cons_append] at h ⊢
          split at h
          · rename_i hTop
            cases h
            rw [if_pos hTop]
          · cases h

/-- What is open around a text makes no difference to it. -/
theorem step_frame {k k' : Cursor} {c : Char} (h : k.step c = some k') (around : List Char) :
    step ⟨k.opened ++ around, k.mode⟩ c = some ⟨k'.opened ++ around, k'.mode⟩ := by
  obtain ⟨opened, mode⟩ := k
  cases mode with
  | code => exact stepCode_frame h around
  | quoted quote =>
    cases h
    rfl
  | escaped quote =>
    cases h
    rfl

theorem read_frame {k k' : Cursor} {s : List Char} (h : k.read s = some k') (around : List Char) :
    read ⟨k.opened ++ around, k.mode⟩ s = some ⟨k'.opened ++ around, k'.mode⟩ := by
  induction s generalizing k with
  | nil =>
    cases h
    rfl
  | cons c s ih =>
    rw [read, List.foldlM_cons] at h ⊢
    cases hStep : k.step c with
    | none =>
      rw [hStep] at h
      cases h
    | some next =>
      rw [hStep] at h
      rw [step_frame hStep around]
      exact ih h

end Cursor

-- ---------------------------------------------------------------------------
-- Layout
-- ---------------------------------------------------------------------------

/-- The line between two parts of a text. -/
structure LineAt (before line after : List Char) : Prop where
  left : before = [] ∨ before.getLast? = some '\n'
  unbroken : '\n' ∉ line
  right : after = [] ∨ after.head? = some '\n'

/-- The depth of a line: the braces that are open at its start, less one if it starts with a closing brace. -/
def lineDepth (braces : Nat) (line : List Char) : Nat :=
  braces - (if (line.dropWhile (· = ' ')).head? = some '}' then 1 else 0)

/-- The line starts with `width` blanks for each level of its depth and no more, or it is empty and outside all braces. -/
def Indented (width braces : Nat) (line : List Char) : Prop :=
  (line = [] ∧ lineDepth braces line = 0) ∨
    ∃ c rest, c ≠ ' ' ∧ line = List.replicate (width * lineDepth braces line) ' ' ++ c :: rest

/-- Every bracket is closed by its partner, in the right order, and every literal ends. -/
def Balanced (text : List Char) : Prop :=
  Cursor.read {} text = some {}

/-- Every line is indented by the braces that are open at its start. -/
def Aligned (width : Nat) (text : List Char) : Prop :=
  ∀ before line after, text = before ++ line ++ after → LineAt before line after →
    ∃ k, Cursor.read {} before = some k ∧ Indented width (k.opened.count '{') line

-- ---------------------------------------------------------------------------
-- Pieces of a line
-- ---------------------------------------------------------------------------

/-- A text within a line, which finds the brackets `as` open and leaves the brackets `bs` open. -/
structure Flows (as : List Char) (s : String) (bs : List Char) : Prop where
  reads : Cursor.read ⟨as, .code⟩ s.toList = some ⟨bs, .code⟩
  unbroken : '\n' ∉ s.toList

instance (as : List Char) (s : String) (bs : List Char) : Decidable (Flows as s bs) :=
  decidable_of_iff (Cursor.read ⟨as, .code⟩ s.toList = some ⟨bs, .code⟩ ∧ '\n' ∉ s.toList)
    ⟨fun h => ⟨h.1, h.2⟩, fun h => ⟨h.reads, h.unbroken⟩⟩

namespace Flows

variable {as bs cs : List Char} {s t : String}

theorem empty : Flows as "" as :=
  ⟨rfl, by simp⟩

theorem append (hs : Flows as s bs) (ht : Flows bs t cs) : Flows as (s ++ t) cs where
  reads := by
    rw [String.toList_append, Cursor.read_append, hs.reads]
    exact ht.reads
  unbroken := by
    rw [String.toList_append, List.mem_append, not_or]
    exact ⟨hs.unbroken, ht.unbroken⟩

theorem frame (h : Flows as s bs) (around : List Char) : Flows (as ++ around) s (bs ++ around) :=
  ⟨Cursor.read_frame h.reads around, h.unbroken⟩

/-- A text that leaves nothing open and closes nothing, wherever it stands. -/
theorem anywhere (h : Flows [] s []) : Flows as s as :=
  h.frame as

/-- A text that leaves nothing open and closes nothing, before another. -/
theorem before (hs : Flows [] s []) (ht : Flows as t bs) : Flows as (s ++ t) bs :=
  hs.anywhere.append ht

/-- Three pieces, of which the middle one leaves nothing open and closes nothing. -/
theorem around {f g : String} (hf : Flows as f bs) (hs : Flows [] s []) (hg : Flows bs g cs) :
    Flows as (f ++ (s ++ g)) cs :=
  hf.append (hs.before hg)

/-- A fixed text, and then any other. -/
theorem lead (f : String) (hf : Flows [] f []) (ht : Flows as t bs) : Flows as (f ++ t) bs :=
  hf.before ht

end Flows

/-- The characters that have a part in the layout: quotes, brackets, blanks and line breaks. -/
def layoutChars : List Char :=
  ['"', '\'', '(', ')', '[', ']', '{', '}', ' ', '\n']

/-- The character has no part in the layout. -/
def isPlain (c : Char) : Bool :=
  c ∉ layoutChars

theorem stepCode_of_isPlain {c : Char} (h : isPlain c = true) (opened : List Char) :
    Cursor.stepCode opened c = some ⟨opened, .code⟩ := by
  have hOther : c ∉ layoutChars := of_decide_eq_true h
  have hQuote : isQuote c = false := by
    rw [Bool.eq_false_iff]
    intro hQuote
    rcases Bool.or_eq_true_iff.mp hQuote with hc | hc <;>
      exact hOther (of_decide_eq_true hc ▸ by decide)
  have hOpener : isOpener c = false := by
    rw [Bool.eq_false_iff]
    intro hOpener
    simp only [isOpener, Bool.or_eq_true, decide_eq_true_eq] at hOpener
    rcases hOpener with (hc | hc) | hc <;> exact hOther (hc ▸ by decide)
  have hClosed : opener? c = none := by
    unfold opener?
    split
    · exact absurd (by decide) hOther
    · exact absurd (by decide) hOther
    · exact absurd (by decide) hOther
    · rfl
  unfold Cursor.stepCode
  rw [if_neg (by simp [hQuote]), if_neg (by simp [hOpener]), hClosed]

theorem read_of_isPlain {s : List Char} (h : ∀ c ∈ s, isPlain c = true) (as : List Char) :
    Cursor.read ⟨as, .code⟩ s = some ⟨as, .code⟩ := by
  induction s with
  | nil => rfl
  | cons c s ih =>
    obtain ⟨hFirst, hRest⟩ := List.forall_mem_cons.mp h
    show (Cursor.stepCode as c).bind (Cursor.read · s) = _
    rw [stepCode_of_isPlain hFirst]
    exact ih hRest

theorem flows_of_isPlain {s : String} (h : ∀ c ∈ s.toList, isPlain c = true) {as : List Char} : Flows as s as :=
  ⟨read_of_isPlain h as, fun hMem => absurd (h _ hMem) (by decide)⟩

/-- A string literal. -/
theorem flows_quoted {s : String} (hRead : ∀ as, Cursor.read ⟨as, .quoted '"'⟩ s.toList = some ⟨as, .quoted '"'⟩)
    (hBreak : '\n' ∉ s.toList) {as : List Char} : Flows as ("\"" ++ (s ++ "\"")) as where
  reads := by
    have hText : ("\"" ++ (s ++ "\"")).toList = ['"'] ++ (s.toList ++ ['"']) := by simp
    have hOpen : Cursor.read ⟨as, .code⟩ ['"'] = some ⟨as, .quoted '"'⟩ := rfl
    rw [hText, Cursor.read_append, hOpen, Option.bind_some, Cursor.read_append, hRead]
    rfl
  unbroken := by simpa using hBreak

/-- The text starts with a character that is neither a blank nor a closing brace. -/
def isFront (s : String) : Bool :=
  s.toList.head?.any (fun c => c ≠ ' ' && c ≠ '}')

theorem isFront_append {s : String} (h : isFront s = true) (t : String) : isFront (s ++ t) = true := by
  unfold isFront at *
  rw [String.toList_append, List.head?_append]
  cases hHead : s.toList.head? with
  | none => simp [hHead] at h
  | some c =>
    rw [hHead] at h
    exact h

theorem isFront_of_isPlain {s : String} (h : ∀ c ∈ s.toList, isPlain c = true) (hNe : s ≠ "") : isFront s = true := by
  unfold isFront
  cases hText : s.toList with
  | nil => exact absurd (String.toList_eq_nil_iff.mp hText) hNe
  | cons c r =>
    have hFirst : c ∉ layoutChars := of_decide_eq_true (h c (by simp [hText]))
    have hBlank : c ≠ ' ' := fun hc => hFirst (hc ▸ by decide)
    have hBrace : c ≠ '}' := fun hc => hFirst (hc ▸ by decide)
    simp [hBlank, hBrace]

-- ---------------------------------------------------------------------------
-- Whole lines
-- ---------------------------------------------------------------------------

/-- So many open braces, and no other bracket. -/
abbrev braces (n : Nat) : List Char :=
  List.replicate n '{'

/-- Whole lines that lead from one number of open braces to another. Under the condition `strict`, each of them is indented
by its braces. -/
inductive Lines (strict : Prop) (width : Nat) : Nat → String → Nat → Prop where
  | nil (n : Nat) : Lines strict width n "" n
  | cons {l m n : Nat} {line rest : String} (hLine : Flows (braces l) line (braces m))
      (hIndent : strict → Indented width l line.toList) (h : Lines strict width m rest n) :
      Lines strict width l (line ++ "\n" ++ rest) n

/-- The end of a line changes nothing. -/
theorem Flows.read_line {m : Nat} {as : List Char} {line : String} (h : Flows as line (braces m)) (rest : List Char) :
    Cursor.read ⟨as, .code⟩ (line.toList ++ '\n' :: rest) = Cursor.read ⟨braces m, .code⟩ rest := by
  rw [Cursor.read_append, h.reads]
  rfl

/-- The first line of a text, and the lines after it. -/
theorem LineAt.first_or_later {first rest before line after : List Char} (hFirst : '\n' ∉ first)
    (hText : first ++ '\n' :: rest = before ++ (line ++ after)) (h : LineAt before line after) :
    (before = [] ∧ line = first) ∨
      ∃ before', before = first ++ '\n' :: before' ∧ rest = before' ++ line ++ after ∧ LineAt before' line after := by
  rcases List.append_eq_append_iff.mp hText with ⟨gap, rfl, hGap⟩ | ⟨gap, rfl, hGap⟩
  · cases gap with
    | nil =>
      -- a line that starts where the first one ends is the first one
      have hEmpty : first = [] := by
        rcases h.left with hNil | hLast
        · simpa using hNil
        · rw [List.append_nil] at hLast
          exact absurd (List.mem_of_getLast? hLast) hFirst
      subst hEmpty
      refine Or.inl ⟨rfl, ?_⟩
      cases line with
      | nil => rfl
      | cons c line =>
        obtain ⟨rfl, -⟩ := List.cons.inj hGap
        exact absurd List.mem_cons_self h.unbroken
    | cons c gap =>
      obtain ⟨rfl, hRest⟩ := List.cons.inj hGap
      refine Or.inr ⟨gap, rfl, hRest.trans (List.append_assoc ..).symm, ?_, h.unbroken, h.right⟩
      cases gap with
      | nil => exact Or.inl rfl
      | cons d gap =>
        refine Or.inr ?_
        simpa using h.left
  · have hBefore : before = [] := by
      rcases h.left with hNil | hLast
      · exact hNil
      · exact absurd (List.mem_append_left _ (List.mem_of_getLast? hLast)) hFirst
    subst hBefore
    refine Or.inl ⟨rfl, ?_⟩
    rcases List.append_eq_append_iff.mp hGap with ⟨more, rfl, hMore⟩ | ⟨more, rfl, hMore⟩
    · cases more with
      | nil => simp
      | cons c more =>
        rcases h.right with hNil | hHead
        · simp [hNil] at hMore
        · rw [hMore] at hHead
          obtain rfl := Option.some.inj hHead
          exact absurd (by simp) hFirst
    · cases more with
      | nil => simp
      | cons c more =>
        obtain ⟨rfl, -⟩ := List.cons.inj hMore
        exact absurd (by simp) h.unbroken

/-- The blanks at the start of a line change nothing. -/
theorem flows_blanks (n : Nat) {as : List Char} : Flows as (String.ofList (List.replicate n ' ')) as where
  reads := by
    rw [String.toList_ofList]
    induction n with
    | zero => rfl
    | succ n ih => exact ih
  unbroken := by simp

theorem lineDepth_blanks (braces k : Nat) (s : List Char) :
    lineDepth braces (List.replicate k ' ' ++ s) = lineDepth braces s := by
  have hSkip : ((List.replicate k ' ' ++ s).dropWhile (· = ' ')) = s.dropWhile (· = ' ') := by
    induction k with
    | zero => rfl
    | succ k ih =>
      rw [List.replicate_succ, List.cons_append, List.dropWhile_cons_of_pos (by simp)]
      exact ih
  rw [lineDepth, lineDepth, hSkip]

namespace Lines

variable {strict : Prop} {width l m n : Nat} {s t : String}

theorem append (hs : Lines strict width l s m) (ht : Lines strict width m t n) : Lines strict width l (s ++ t) n := by
  induction hs with
  | nil =>
    rw [String.empty_append]
    exact ht
  | cons hLine hIndent _ ih =>
    rw [String.append_assoc]
    exact .cons hLine hIndent (ih ht)

/-- A single line. -/
theorem line (h : Flows (braces l) s (braces m)) (hIndent : strict → Indented width l s.toList) :
    Lines strict width l (s ++ "\n") m := by
  have hLine := Lines.cons h hIndent (.nil m)
  rwa [String.append_empty] at hLine

theorem read (h : Lines strict width m s n) :
    Cursor.read ⟨braces m, .code⟩ s.toList = some ⟨braces n, .code⟩ := by
  induction h with
  | nil => rfl
  | @cons l m n line rest hLine _ _ ih =>
    have hText : (line ++ "\n" ++ rest).toList = line.toList ++ '\n' :: rest.toList := by simp
    rw [hText, hLine.read_line, ih]

/-- Every line is indented by the braces that are open at its start, and the end of the text stands outside of all. -/
theorem exists_indented (h : Lines strict width m s 0) (hStrict : strict) {before line after : List Char}
    (hText : s.toList = before ++ line ++ after) (hAt : LineAt before line after) :
    ∃ k, Cursor.read ⟨braces m, .code⟩ before = some ⟨braces k, .code⟩ ∧ Indented width k line := by
  generalize hEnd : 0 = n at h
  induction h generalizing before with
  | nil k =>
    subst hEnd
    obtain ⟨rfl, rfl, rfl⟩ : before = [] ∧ line = [] ∧ after = [] := by simpa using hText.symm
    exact ⟨0, rfl, Or.inl ⟨rfl, rfl⟩⟩
  | @cons l m n first rest hLine hIndent _ ih =>
    have hParts : first.toList ++ '\n' :: rest.toList = before ++ (line ++ after) := by simpa using hText
    rcases hAt.first_or_later hLine.unbroken hParts with ⟨rfl, rfl⟩ | ⟨before', rfl, hRest, hAt'⟩
    · exact ⟨_, rfl, hIndent hStrict⟩
    · obtain ⟨k, hRead, hIndented⟩ := ih hRest hAt' hEnd
      exact ⟨k, (hLine.read_line before').trans hRead, hIndented⟩

/-- A line that starts with neither a blank nor a closing brace, indented by the braces around it. -/
theorem indented (h : Flows [] s (braces m)) (hFront : strict → isFront s = true) :
    Lines strict width l (String.ofList (List.replicate (l * width) ' ') ++ s ++ "\n") (l + m) := by
  have hFlows : Flows (braces l) s (braces (l + m)) := by
    have hFrame := h.frame (braces l)
    rwa [List.nil_append, List.replicate_append_replicate, Nat.add_comm] at hFrame
  refine line ((flows_blanks _).append hFlows) fun hStrict => Or.inr ?_
  have hStart := hFront hStrict
  unfold isFront at hStart
  cases hText : s.toList with
  | nil => simp [hText] at hStart
  | cons c r =>
    obtain ⟨hBlank, hBrace⟩ : c ≠ ' ' ∧ c ≠ '}' := by simpa [hText] using hStart
    refine ⟨c, r, hBlank, ?_⟩
    rw [String.toList_append, String.toList_ofList, hText, lineDepth_blanks, lineDepth,
      List.dropWhile_cons_of_neg (by simpa using hBlank), if_neg (by simpa using hBrace), Nat.sub_zero, Nat.mul_comm]

/-- A line that starts with a closing brace, indented by the braces around it and what it closes. -/
theorem closing (h : Flows ['{'] s (braces m)) (hBrace : s.toList.head? = some '}') :
    Lines strict width (l + 1) (String.ofList (List.replicate (l * width) ' ') ++ s ++ "\n") (l + m) := by
  have hFlows : Flows (braces (l + 1)) s (braces (l + m)) := by
    have hFrame := h.frame (braces l)
    rwa [List.replicate_append_replicate, Nat.add_comm m] at hFrame
  obtain ⟨r, hText⟩ : ∃ r, s.toList = '}' :: r := ⟨_, (List.cons_head?_tail hBrace).symm⟩
  refine line ((flows_blanks _).append hFlows) fun _ => Or.inr ⟨'}', r, by decide, ?_⟩
  rw [String.toList_append, String.toList_ofList, hText, lineDepth_blanks, lineDepth,
    List.dropWhile_cons_of_neg (by decide), List.head?_cons, if_pos rfl, Nat.add_sub_cancel, Nat.mul_comm]

/-- A line outside of all braces. -/
theorem outer (h : Flows [] s (braces m)) (hFront : strict → isFront s = true) :
    Lines strict width 0 (s ++ "\n") m := by
  have hLine : Lines strict width 0 (String.ofList (List.replicate (0 * width) ' ') ++ s ++ "\n") (0 + m) :=
    indented h hFront
  rwa [Nat.zero_mul, Nat.zero_add, List.replicate_zero, String.ofList_nil, String.empty_append] at hLine

/-- A line that closes the outermost brace. -/
theorem last (h : Flows ['{'] s []) (hBrace : s.toList.head? = some '}') : Lines strict width 1 (s ++ "\n") 0 := by
  have hLine : Lines strict width 1 (String.ofList (List.replicate (0 * width) ' ') ++ s ++ "\n") 0 :=
    closing (m := 0) h hBrace
  rwa [Nat.zero_mul, List.replicate_zero, String.ofList_nil, String.empty_append] at hLine

/-- An empty line outside of all braces. -/
theorem emptyLine : Lines strict width 0 "\n" 0 :=
  line (s := "") .empty fun _ => Or.inl ⟨rfl, rfl⟩

theorem join {ss : List String} (h : ∀ s ∈ ss, Lines strict width n s n) : Lines strict width n (String.join ss) n := by
  induction ss with
  | nil => exact .nil n
  | cons s ss ih =>
    obtain ⟨hFirst, hRest⟩ := List.forall_mem_cons.mp h
    rw [String.join_cons]
    exact hFirst.append (ih hRest)

theorem balanced (h : Lines strict width 0 s 0) : Balanced s.toList :=
  h.read

theorem aligned (h : Lines strict width 0 s 0) (hStrict : strict) : Aligned width s.toList := by
  intro before line after hText hAt
  obtain ⟨k, hRead, hIndented⟩ := h.exists_indented hStrict hText hAt
  exact ⟨_, hRead, by simpa using hIndented⟩

end Lines

end Lowering.C
