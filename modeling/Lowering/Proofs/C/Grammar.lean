import Lowering.Proofs.C.Token
import Lowering.Target.Name

/-!
# C expressions

The grammar of C expressions over tokens: names and constants, parentheses, the postfix forms, the prefix operators and
casts, the binary operators by their precedence, and the conditional operator. What changes a variable (assignments,
`++`, `--`), `sizeof` and the comma operator are left out.

The levels of the grammar are numbered from the conditional expressions (0) over the ten levels of the binary operators
(1 to 10) and the prefix operators (11) to the postfix forms (12) and the primary expressions (13).

The grammar is left-recursive, as in the C standard. `parse` reads the same language by recursive descent; it is
deterministic, and it finds every expression that the grammar derives.

* `Derives.unique` — no row of tokens can be read in two ways.
-/

namespace Lowering.C

-- ---------------------------------------------------------------------------
-- Grammar
-- ---------------------------------------------------------------------------

/-- An expression, with its parentheses. -/
inductive Expr where
  | name (w : List Char)
  | constant (x : List Char)
  | text (x : List Char)
  | group (e : Expr)
  | member (mark : List Char) (e : Expr) (name : List Char)
  | index (e i : Expr)
  | call (f : Expr) (args : List Expr)
  | unary (mark : List Char) (e : Expr)
  | cast (type : List Char) (stars : Nat) (e : Expr)
  | binary (mark : List Char) (a b : Expr)
  | choose (c a b : Expr)

/-- The binary operators and their levels. -/
def binaryLevels : List (String × Nat) :=
  [("||", 1), ("&&", 2), ("|", 3), ("^", 4), ("&", 5), ("==", 6), ("!=", 6), ("<", 7), (">", 7), ("<=", 7), (">=", 7),
   ("<<", 8), (">>", 8), ("+", 9), ("-", 9), ("*", 10), ("/", 10), ("%", 10)]

/-- The level of a binary operator. -/
def binaryLevel? (mark : List Char) : Option Nat :=
  binaryLevels.lookup (String.ofList mark)

/-- What stands between a record and the name of its member. -/
def memberMarks : List (List Char) :=
  [['.'], ['-', '>']]

/-- Whether a word names a type. -/
def isTypeName (w : List Char) : Bool :=
  Target.typeWords.contains (String.ofList w)

/-- Whether a word stands for a value. The boolean constants and the null pointer are macros and count as names. -/
def isName (w : List Char) : Bool :=
  let word := String.ofList w
  !Target.keywords.contains word && !Target.typeWords.contains word || ["true", "false", "NULL"].contains word

mutual

/-- The tokens are an expression of the given level. -/
inductive Derives : Nat → List Token → Expr → Prop where
  | name {w : List Char} : isName w = true → Derives 13 [.word w] (.name w)
  | constant {x : List Char} : Derives 13 [.number x] (.constant x)
  | text {x : List Char} : Derives 13 [.quoted x] (.text x)
  | group {s : List Token} {e : Expr} : Derives 0 s e →
      Derives 13 (Token.mark ['('] :: (s ++ [Token.mark [')']])) (.group e)
  | member {m w : List Char} {s : List Token} {e : Expr} : m ∈ memberMarks → isName w = true → Derives 12 s e →
      Derives 12 (s ++ [Token.mark m, .word w]) (.member m e w)
  | index {s t : List Token} {e i : Expr} : Derives 12 s e → Derives 0 t i →
      Derives 12 (s ++ Token.mark ['['] :: (t ++ [Token.mark [']']])) (.index e i)
  | callNone {s : List Token} {f : Expr} : Derives 12 s f → Derives 12 (s ++ [Token.mark ['('], .mark [')']]) (.call f [])
  | call {s t : List Token} {f : Expr} {args : List Expr} : Derives 12 s f → Arguments t args →
      Derives 12 (s ++ Token.mark ['('] :: (t ++ [Token.mark [')']])) (.call f args)
  | unary {m : List Char} {s : List Token} {e : Expr} : m ∈ prefixMarks → Derives 11 s e →
      Derives 11 (.mark m :: s) (.unary m e)
  | cast {w : List Char} {stars : Nat} {s : List Token} {e : Expr} : isTypeName w = true → Derives 11 s e →
      Derives 11 (.mark ['('] :: .word w :: (List.replicate stars (Token.mark ['*']) ++ Token.mark [')'] :: s))
        (.cast w stars e)
  | binary {k : Nat} {m : List Char} {s t : List Token} {a b : Expr} : binaryLevel? m = some k → Derives k s a →
      Derives (k + 1) t b → Derives k (s ++ Token.mark m :: t) (.binary m a b)
  | choose {s t u : List Token} {c a b : Expr} : Derives 1 s c → Derives 0 t a → Derives 0 u b →
      Derives 0 (s ++ Token.mark ['?'] :: (t ++ Token.mark [':'] :: u)) (.choose c a b)
  | up {k : Nat} {s : List Token} {e : Expr} : k < 13 → Derives (k + 1) s e → Derives k s e

/-- The tokens are the arguments of a call. -/
inductive Arguments : List Token → List Expr → Prop where
  | last {s : List Token} {e : Expr} : Derives 0 s e → Arguments s [e]
  | more {s t : List Token} {e : Expr} {es : List Expr} : Derives 0 s e → Arguments t es →
      Arguments (s ++ Token.mark [','] :: t) (e :: es)

end

/-- An expression of one level is one of every lower level. -/
theorem Derives.lower {j k : Nat} {s : List Token} {e : Expr} (h : Derives k s e) (hLevel : j ≤ k) (hk : k ≤ 13) :
    Derives j s e := by
  induction hLevel with
  | refl => exact h
  | step _ ih => exact ih (h.up (by omega)) (by omega)

-- ---------------------------------------------------------------------------
-- Reading
-- ---------------------------------------------------------------------------

/-- What is being read. -/
inductive Goal where
  /-- An expression of a level. -/
  | level (k : Nat)
  /-- What may follow at a level after an expression. -/
  | more (k : Nat) (e : Expr)
  /-- The arguments of a call after some of them. -/
  | arguments (f : Expr) (args : List Expr)

/-- Whether tokens start with the given punctuation, and what follows it. -/
def expect (m : List Char) : List Token → Option (List Token)
  | t :: s => if t = .mark m then some s else none
  | [] => none

/-- The type of a cast and its stars, after the opening parenthesis. -/
def castType? : List Token → Option (List Char × Nat × List Token)
  | .word w :: s =>
    if isTypeName w then
      let stars := (s.takeWhile (· = .mark ['*'])).length
      (expect [')'] (s.drop stars)).map (fun r => (w, stars, r))
    else none
  | _ => none

/-- A reader: from what is to be read and a row of tokens to an expression and the tokens after it. -/
abbrev Reader := Goal → List Token → Option (Expr × List Token)

namespace Reader

variable (read : Reader)

def primary : List Token → Option (Expr × List Token)
  | .word w :: r => if isName w then some (.name w, r) else none
  | .number x :: r => some (.constant x, r)
  | .quoted x :: r => some (.text x, r)
  | .mark m :: r =>
    if m = ['('] then do
      let (e, r) ← read (.level 0) r
      let r ← expect [')'] r
      return (.group e, r)
    else none
  | [] => none

def prefixed (s : List Token) : Option (Expr × List Token) :=
  match (expect ['('] s).bind castType? with
  | some (w, stars, r) => (read (.level 11) r).map (fun p => (.cast w stars p.1, p.2))
  | none =>
    match s with
    | .mark m :: r =>
      if m ∈ prefixMarks then (read (.level 11) r).map (fun p => (.unary m p.1, p.2)) else read (.level 12) s
    | _ => read (.level 12) s

def choice (c : Expr) (s : List Token) : Option (Expr × List Token) :=
  match expect ['?'] s with
  | none => some (c, s)
  | some r => do
    let (a, r) ← read (.level 0) r
    let r ← expect [':'] r
    let (b, r) ← read (.level 0) r
    return (.choose c a b, r)

def operators (k : Nat) (e : Expr) : List Token → Option (Expr × List Token)
  | .mark m :: r =>
    if binaryLevel? m = some k then do
      let (b, r) ← read (.level (k + 1)) r
      read (.more k (.binary m e b)) r
    else some (e, .mark m :: r)
  | s => some (e, s)

def postfixes (e : Expr) : List Token → Option (Expr × List Token)
  | .mark m :: r =>
    if m = ['('] then
      match expect [')'] r with
      | some r => read (.more 12 (.call e [])) r
      | none => read (.arguments e []) r
    else if m = ['['] then do
      let (i, r) ← read (.level 0) r
      let r ← expect [']'] r
      read (.more 12 (.index e i)) r
    else if m ∈ memberMarks then
      match r with
      | .word w :: r => if isName w then read (.more 12 (.member m e w)) r else none
      | _ => none
    else some (e, .mark m :: r)
  | s => some (e, s)

def arguments (f : Expr) (args : List Expr) (s : List Token) : Option (Expr × List Token) := do
  let (a, r) ← read (.level 0) s
  match expect [','] r with
  | some r => read (.arguments f (args ++ [a])) r
  | none =>
    let r ← expect [')'] r
    read (.more 12 (.call f (args ++ [a]))) r

/-- Reads by means of a reader for the parts. -/
def step : Reader
  | .level k, s =>
    if k = 13 then primary read s
    else if k = 11 then prefixed read s
    else do
      let (e, r) ← read (.level (k + 1)) s
      read (.more k e) r
  | .more k e, s => if k = 0 then choice read e s else if k = 12 then postfixes read e s else operators read k e s
  | .arguments f args, s => arguments read f args s

end Reader

/-- Reads an expression from the start of a row of tokens, with bounded recursion. -/
def parse : Nat → Reader
  | 0 => fun _ _ => none
  | n + 1 => (parse n).step

/-- With enough recursion, an expression is read and these tokens are left. -/
def Yields (g : Goal) (s : List Token) (e : Expr) (r : List Token) : Prop :=
  ∃ n, ∀ m ≥ n, parse m g s = some (e, r)

theorem Yields.unique {g : Goal} {s r r' : List Token} {e e' : Expr} (h : Yields g s e r) (h' : Yields g s e' r') :
    e = e' := by
  obtain ⟨n, hn⟩ := h
  obtain ⟨n', hn'⟩ := h'
  have hEq := (hn (max n n') (Nat.le_max_left ..)).symm.trans (hn' (max n n') (Nat.le_max_right ..))
  simp only [Option.some.injEq, Prod.mk.injEq] at hEq
  exact hEq.1

theorem Yields.of_step {g : Goal} {s r : List Token} {e : Expr}
    (h : ∃ n, ∀ m ≥ n, (parse m).step g s = some (e, r)) : Yields g s e r := by
  obtain ⟨n, hn⟩ := h
  refine ⟨n + 1, fun m hm => ?_⟩
  obtain ⟨m, rfl⟩ : ∃ l, m = l + 1 := ⟨m - 1, by omega⟩
  exact hn m (by omega)

theorem expect_cons (m : List Char) (r : List Token) : expect m (.mark m :: r) = some r := by
  simp [expect]

theorem expect_eq_none {m : List Char} {s : List Token} (h : s.head? ≠ some (.mark m)) : expect m s = none := by
  cases s with
  | nil => rfl
  | cons t s =>
    rw [List.head?_cons, ne_eq, Option.some.injEq] at h
    simp [expect, h]

-- ---------------------------------------------------------------------------
-- What is read from the parts
-- ---------------------------------------------------------------------------

namespace Yields

variable {s r r' r'' : List Token} {a b c e e' f : Expr} {args : List Expr} {k : Nat} {m w : List Char}

theorem level (hPrimary : k ≠ 13) (hPrefixed : k ≠ 11) (h : Yields (.level (k + 1)) s a r)
    (hMore : Yields (.more k a) r e r') : Yields (.level k) s e r' := by
  obtain ⟨n, hn⟩ := h
  obtain ⟨n', hn'⟩ := hMore
  refine of_step ⟨max n n', fun m hm => ?_⟩
  simp [Reader.step, hPrimary, hPrefixed, hn m (by omega), hn' m (by omega)]

theorem name (h : isName w = true) : Yields (.level 13) (.word w :: r) (.name w) r :=
  of_step ⟨0, fun m _ => by simp [Reader.step, Reader.primary, h]⟩

theorem constant : Yields (.level 13) (.number w :: r) (.constant w) r :=
  of_step ⟨0, fun m _ => by simp [Reader.step, Reader.primary]⟩

theorem text : Yields (.level 13) (.quoted w :: r) (.text w) r :=
  of_step ⟨0, fun m _ => by simp [Reader.step, Reader.primary]⟩

theorem group (h : Yields (.level 0) s e (.mark [')'] :: r)) : Yields (.level 13) (.mark ['('] :: s) (.group e) r := by
  obtain ⟨n, hn⟩ := h
  exact of_step ⟨n, fun m hm => by simp [Reader.step, Reader.primary, hn m hm, expect_cons]⟩

theorem unary (hm : m ∈ prefixMarks) (h : Yields (.level 11) s e r) :
    Yields (.level 11) (.mark m :: s) (.unary m e) r := by
  obtain ⟨n, hn⟩ := h
  have hParen : expect ['('] (.mark m :: s) = none := by
    refine expect_eq_none ?_
    rintro hEq
    simp only [List.head?_cons, Option.some.injEq, Token.mark.injEq] at hEq
    subst hEq
    exact absurd hm (by decide)
  exact of_step ⟨n, fun l hl => by simp [Reader.step, Reader.prefixed, hParen, hm, hn l hl]⟩

theorem castType?_replicate (hw : isTypeName w = true) (stars : Nat) (r : List Token) :
    castType? (.word w :: (List.replicate stars (Token.mark ['*']) ++ Token.mark [')'] :: r)) = some (w, stars, r) := by
  have hStars : (List.replicate stars (Token.mark ['*']) ++ Token.mark [')'] :: r).takeWhile (· = .mark ['*'])
      = List.replicate stars (.mark ['*']) := by
    rw [List.takeWhile_append_of_pos (by simp [List.mem_replicate])]
    simp
  rw [castType?, if_pos hw, hStars]
  simp [expect_cons]

theorem cast (stars : Nat) (hw : isTypeName w = true) (h : Yields (.level 11) s e r) :
    Yields (.level 11) (.mark ['('] :: .word w :: (List.replicate stars (Token.mark ['*']) ++ Token.mark [')'] :: s))
      (.cast w stars e) r := by
  obtain ⟨n, hn⟩ := h
  exact of_step ⟨n, fun l hl => by
    simp [Reader.step, Reader.prefixed, expect_cons, castType?_replicate hw, hn l hl]⟩

theorem choice_stop (h : s.head? ≠ some (.mark ['?'])) : Yields (.more 0 e) s e s :=
  of_step ⟨0, fun m _ => by simp [Reader.step, Reader.choice, expect_eq_none h]⟩

theorem choose (hFirst : Yields (.level 0) s a (.mark [':'] :: r)) (hSecond : Yields (.level 0) r b r') :
    Yields (.more 0 c) (.mark ['?'] :: s) (.choose c a b) r' := by
  obtain ⟨n, hn⟩ := hFirst
  obtain ⟨n', hn'⟩ := hSecond
  refine of_step ⟨max n n', fun m hm => ?_⟩
  simp [Reader.step, Reader.choice, expect_cons, hn m (by omega), hn' m (by omega)]

theorem operators_stop (hChoice : k ≠ 0) (hPostfix : k ≠ 12)
    (h : ∀ m, s.head? = some (.mark m) → binaryLevel? m ≠ some k) : Yields (.more k e) s e s := by
  refine of_step ⟨0, fun m _ => ?_⟩
  rw [Reader.step, if_neg hChoice, if_neg hPostfix]
  unfold Reader.operators
  split
  · rw [if_neg (h _ rfl)]
  · rfl

theorem binary (hChoice : k ≠ 0) (hPostfix : k ≠ 12) (hm : binaryLevel? m = some k)
    (h : Yields (.level (k + 1)) s b r) (hMore : Yields (.more k (.binary m a b)) r e r') :
    Yields (.more k a) (.mark m :: s) e r' := by
  obtain ⟨n, hn⟩ := h
  obtain ⟨n', hn'⟩ := hMore
  refine of_step ⟨max n n', fun l hl => ?_⟩
  simp [Reader.step, Reader.operators, hChoice, hPostfix, hm, hn l (by omega), hn' l (by omega)]

theorem member (hm : m ∈ memberMarks) (hw : isName w = true) (h : Yields (.more 12 (.member m a w)) s e r) :
    Yields (.more 12 a) (.mark m :: .word w :: s) e r := by
  obtain ⟨n, hn⟩ := h
  have hOther : m ≠ ['('] ∧ m ≠ ['['] := by
    constructor <;> rintro rfl <;> exact absurd hm (by decide)
  exact of_step ⟨n, fun l hl => by simp [Reader.step, Reader.postfixes, hOther, hm, hw, hn l hl]⟩

theorem index (h : Yields (.level 0) s b (.mark [']'] :: r)) (hMore : Yields (.more 12 (.index a b)) r e r') :
    Yields (.more 12 a) (.mark ['['] :: s) e r' := by
  obtain ⟨n, hn⟩ := h
  obtain ⟨n', hn'⟩ := hMore
  refine of_step ⟨max n n', fun l hl => ?_⟩
  simp [Reader.step, Reader.postfixes, expect_cons, hn l (by omega), hn' l (by omega)]

theorem callNone (h : Yields (.more 12 (.call f [])) s e r) :
    Yields (.more 12 f) (.mark ['('] :: .mark [')'] :: s) e r := by
  obtain ⟨n, hn⟩ := h
  exact of_step ⟨n, fun l hl => by simp [Reader.step, Reader.postfixes, expect_cons, hn l hl]⟩

theorem call (hSome : s.head? ≠ some (.mark [')'])) (h : Yields (.arguments f []) s e r) :
    Yields (.more 12 f) (.mark ['('] :: s) e r := by
  obtain ⟨n, hn⟩ := h
  exact of_step ⟨n, fun l hl => by simp [Reader.step, Reader.postfixes, expect_eq_none hSome, hn l hl]⟩

theorem postfixes_stop (h : ∀ m, s.head? = some (.mark m) → m ≠ ['('] ∧ m ≠ ['['] ∧ m ∉ memberMarks) :
    Yields (.more 12 e) s e s := by
  refine of_step ⟨0, fun m _ => ?_⟩
  rw [Reader.step, if_neg (by simp), if_pos rfl]
  unfold Reader.postfixes
  split
  · obtain ⟨hCall, hIndex, hMember⟩ := h _ rfl
    rw [if_neg hCall, if_neg hIndex, if_neg hMember]
  · rfl

theorem last (h : Yields (.level 0) s a (.mark [')'] :: r)) (hMore : Yields (.more 12 (.call f (args ++ [a]))) r e r') :
    Yields (.arguments f args) s e r' := by
  obtain ⟨n, hn⟩ := h
  obtain ⟨n', hn'⟩ := hMore
  refine of_step ⟨max n n', fun l hl => ?_⟩
  simp [Reader.step, Reader.arguments, hn l (by omega), hn' l (by omega), expect]

theorem next (h : Yields (.level 0) s a (.mark [','] :: r)) (hMore : Yields (.arguments f (args ++ [a])) r e r') :
    Yields (.arguments f args) s e r' := by
  obtain ⟨n, hn⟩ := h
  obtain ⟨n', hn'⟩ := hMore
  refine of_step ⟨max n n', fun l hl => ?_⟩
  simp [Reader.step, Reader.arguments, hn l (by omega), hn' l (by omega), expect]

end Yields

-- ---------------------------------------------------------------------------
-- What ends an expression
-- ---------------------------------------------------------------------------

/-- The level at which a token goes on with the expression before it. -/
def binding : Token → Option Nat
  | .mark m =>
    if m = ['?'] then some 0
    else if m = ['('] ∨ m = ['['] ∨ m ∈ memberMarks then some 12
    else binaryLevel? m
  | _ => none

/-- Nothing that follows goes on with an expression of the given level. -/
def Stops (k : Nat) (s : List Token) : Prop :=
  ∀ t ∈ s.head?, ∀ j, binding t = some j → j < k

theorem stops_nil (k : Nat) : Stops k [] := by
  simp [Stops]

theorem stops_cons {k : Nat} {t : Token} (h : binding t = none) (s : List Token) : Stops k (t :: s) := by
  simp [Stops, h]

theorem Stops.mono {j k : Nat} {s : List Token} (h : Stops j s) (hLevel : j ≤ k) : Stops k s :=
  fun t ht i hi => Nat.lt_of_lt_of_le (h t ht i hi) hLevel

theorem binaryLevel?_bounds {m : List Char} {k : Nat} (h : binaryLevel? m = some k) : 1 ≤ k ∧ k ≤ 10 := by
  have hAll : ∀ p ∈ binaryLevels, 1 ≤ p.2 ∧ p.2 ≤ 10 := by decide
  obtain ⟨before, after, hTable, -⟩ := List.lookup_eq_some_iff.mp h
  exact hAll (String.ofList m, k) (by rw [hTable]; simp)

theorem binding_of_binaryLevel? {m : List Char} {k : Nat} (h : binaryLevel? m = some k) :
    binding (.mark m) = some k := by
  have hNone : ∀ q ∈ ['?'] :: ['('] :: ['['] :: memberMarks, binaryLevel? q = none := by decide
  have hOther : m ∉ ['?'] :: ['('] :: ['['] :: memberMarks := by
    intro hm
    rw [hNone m hm] at h
    exact absurd h (by simp)
  simp only [List.mem_cons, not_or] at hOther
  rw [binding, if_neg hOther.1, if_neg (by tauto), h]

theorem stops_primary (s : List Token) : Stops 13 s := by
  intro t _ j hj
  cases t with
  | mark m =>
    rw [binding] at hj
    split at hj
    · simp at hj
      omega
    · split at hj
      · simp at hj
        omega
      · have hBounds := binaryLevel?_bounds hj
        omega
  | word | number | quoted => simp [binding] at hj

/-- Where an expression of a level cannot go on, nothing more is read at that level. -/
theorem Yields.stop {k : Nat} {s : List Token} (h : Stops k s) (e : Expr) : Yields (.more k e) s e s := by
  have hBinding : ∀ m, s.head? = some (.mark m) → binding (.mark m) ≠ some k :=
    fun m hm hEq => Nat.lt_irrefl k (h _ hm k hEq)
  by_cases hChoice : k = 0
  · subst hChoice
    exact choice_stop (fun hm => hBinding _ hm rfl)
  by_cases hPostfix : k = 12
  · subst hPostfix
    refine postfixes_stop (fun m hm => ?_)
    by_contra hOpens
    refine hBinding m hm ?_
    have hMark : m ≠ ['?'] := by
      rintro rfl
      exact hOpens (by decide)
    rw [binding, if_neg hMark, if_pos (by tauto)]
  exact operators_stop hChoice hPostfix (fun m hm hLevel => hBinding m hm (binding_of_binaryLevel? hLevel))

-- ---------------------------------------------------------------------------
-- What starts an expression
-- ---------------------------------------------------------------------------

/-- Whether an expression can start with the token. -/
def startsExpr : Token → Bool
  | .word w => isName w
  | .number _ | .quoted _ => true
  | .mark m => m = ['('] || prefixMarks.contains m

/-- The tokens start like an expression. -/
def Starts (s : List Token) : Prop :=
  ∃ t r, s = t :: r ∧ startsExpr t = true

theorem Starts.append {s : List Token} (h : Starts s) (r : List Token) : Starts (s ++ r) := by
  obtain ⟨t, s, rfl, ht⟩ := h
  exact ⟨t, s ++ r, rfl, ht⟩

theorem Derives.starts : ∀ {k : Nat} {s : List Token} {e : Expr}, Derives k s e → Starts s
  | _, _, _, .name h => ⟨_, _, rfl, h⟩
  | _, _, _, .constant => ⟨_, _, rfl, rfl⟩
  | _, _, _, .text => ⟨_, _, rfl, rfl⟩
  | _, _, _, .group _ => ⟨_, _, rfl, rfl⟩
  | _, _, _, .unary hm _ => ⟨_, _, rfl, by simp [startsExpr, hm]⟩
  | _, _, _, .cast _ _ => ⟨_, _, rfl, rfl⟩
  | _, _, _, .up _ h => h.starts
  | _, _, _, .member _ _ h => h.starts.append _
  | _, _, _, .index h _ => h.starts.append _
  | _, _, _, .callNone h => h.starts.append _
  | _, _, _, .call h _ => h.starts.append _
  | _, _, _, .binary _ h _ => h.starts.append _
  | _, _, _, .choose h _ _ => h.starts.append _

theorem Arguments.starts {s : List Token} {args : List Expr} (h : Arguments s args) : Starts s := by
  cases h with
  | last h => exact h.starts
  | more h _ => exact h.starts.append _

/-- What starts like an expression is not the end of a group. -/
theorem Starts.head_ne {s : List Token} (h : Starts s) : s.head? ≠ some (.mark [')']) := by
  obtain ⟨t, r, rfl, ht⟩ := h
  rintro hEq
  obtain rfl := Option.some.inj hEq
  exact absurd ht (by decide)

theorem isTypeName_eq_false {w : List Char} (h : isName w = true) : isTypeName w = false := by
  rw [← Bool.not_eq_true]
  intro hType
  simp only [isName, isTypeName, Bool.or_eq_true, Bool.and_eq_true, Bool.not_eq_true'] at h hType
  rcases h with ⟨-, hOther⟩ | hConstant
  · rw [hOther] at hType
    exact absurd hType (by simp)
  · have hAll : ∀ word ∈ ["true", "false", "NULL"], word ∉ Target.typeWords := by decide
    exact hAll _ (List.contains_iff_mem.mp hConstant) (List.contains_iff_mem.mp hType)

/-- What starts like an expression does not start like a type. -/
theorem Starts.castType?_eq_none {s : List Token} (h : Starts s) : castType? s = none := by
  obtain ⟨t, r, rfl, ht⟩ := h
  cases t with
  | word w =>
    have hw : isTypeName w = false := isTypeName_eq_false ht
    simp [castType?, hw]
  | number | quoted | mark => rfl

/-- The tokens start with neither a prefix operator nor a cast. -/
def NoPrefix (s : List Token) : Prop :=
  (expect ['('] s).bind castType? = none ∧ ∀ m, s.head? = some (.mark m) → m ∉ prefixMarks

theorem Derives.noPrefix : ∀ {k : Nat} {s : List Token} {e : Expr}, Derives k s e → 12 ≤ k → ∀ rest, NoPrefix (s ++ rest)
  | _, _, _, .name _, _, _ => ⟨rfl, by simp⟩
  | _, _, _, .constant, _, _ => ⟨rfl, by simp⟩
  | _, _, _, .text, _, _ => ⟨rfl, by simp⟩
  | _, _, _, .group h, _, rest => by
    refine ⟨?_, ?_⟩
    · rw [List.cons_append, expect_cons, Option.bind_some, List.append_assoc]
      exact (h.starts.append _).castType?_eq_none
    · intro m hm
      obtain rfl := Token.mark.inj (Option.some.inj hm)
      decide
  | _, _, _, .up _ h, hk, rest => h.noPrefix (by omega) rest
  | _, _, _, .member _ _ h, _, rest => by
    rw [List.append_assoc]
    exact h.noPrefix (Nat.le_refl 12) _
  | _, _, _, .index h _, _, rest => by
    rw [List.append_assoc]
    exact h.noPrefix (Nat.le_refl 12) _
  | _, _, _, .callNone h, _, rest => by
    rw [List.append_assoc]
    exact h.noPrefix (Nat.le_refl 12) _
  | _, _, _, .call h _, _, rest => by
    rw [List.append_assoc]
    exact h.noPrefix (Nat.le_refl 12) _
  | _, _, _, .binary hm _ _, hk, _ => by
    have hBounds := binaryLevel?_bounds hm
    omega
  | _, _, _, .unary _ _, hk, _ => absurd hk (by omega)
  | _, _, _, .cast _ _, hk, _ => absurd hk (by omega)
  | _, _, _, .choose _ _ _, hk, _ => absurd hk (by omega)

theorem Yields.noPrefix {s r : List Token} {e : Expr} (hs : NoPrefix s) (h : Yields (.level 12) s e r) :
    Yields (.level 11) s e r := by
  obtain ⟨n, hn⟩ := h
  refine of_step ⟨n, fun l hl => ?_⟩
  rw [Reader.step, if_neg (by simp), if_pos rfl]
  unfold Reader.prefixed
  rw [hs.1]
  dsimp only
  split
  · rw [if_neg (hs.2 _ rfl), hn l hl]
  · exact hn l hl

-- ---------------------------------------------------------------------------
-- Every expression is read
-- ---------------------------------------------------------------------------

/-- The levels whose expressions start with an expression of the same level. -/
def IsLeftRecursive (k : Nat) : Prop :=
  1 ≤ k ∧ k ≤ 10 ∨ k = 12

/-- The tokens are read as an expression of the level, from the start of any row in which it ends after them. At a
left-recursive level they may also be the start of a longer expression, which is then read to its end. -/
structure Found (k : Nat) (s : List Token) (e : Expr) : Prop where
  whole : ∀ rest, Stops k rest → Yields (.level k) (s ++ rest) e rest
  start : IsLeftRecursive k → ∀ rest e' r, Stops (k + 1) rest → Yields (.more k e) rest e' r →
    Yields (.level k) (s ++ rest) e' r

/-- The tokens are read as arguments up to the end of the call. -/
def FoundArguments (s : List Token) (args : List Expr) : Prop :=
  ∀ rest f before e r, Yields (.more 12 (.call f (before ++ args))) rest e r →
    Yields (.arguments f before) (s ++ Token.mark [')'] :: rest) e r

namespace Found

variable {s t u : List Token} {a b c e i f : Expr} {args : List Expr} {k : Nat} {m w : List Char}

theorem of_start
    (h : ∀ rest e' r, Stops (k + 1) rest → Yields (.more k e) rest e' r → Yields (.level k) (s ++ rest) e' r) :
    Found k s e :=
  ⟨fun rest hStops => h rest e rest (hStops.mono (Nat.le_succ k)) (Yields.stop hStops e), fun _ => h⟩

/-- Nothing goes on with a primary expression. -/
theorem of_primary (h : ∀ rest, Yields (.level 13) (s ++ rest) e rest) : Found 13 s e :=
  ⟨fun rest _ => h rest, fun hk => by unfold IsLeftRecursive at hk; omega⟩

theorem group (h : Found 0 s e) : Found 13 (.mark ['('] :: (s ++ [Token.mark [')']])) (.group e) := by
  refine of_primary (fun rest => ?_)
  have hInner := h.whole (.mark [')'] :: rest) (stops_cons (by decide) rest)
  simpa using Yields.group hInner

/-- One more postfix form after a postfix expression. -/
theorem postfixed (h : Found 12 s e) (ht : ∀ rest e' r, Yields (.more 12 f) rest e' r →
    Yields (.more 12 e) (t ++ rest) e' r) : Found 12 (s ++ t) f := by
  refine of_start (fun rest e' r _ hMore => ?_)
  rw [List.append_assoc]
  exact h.start (Or.inr rfl) _ e' r (stops_primary _) (ht rest e' r hMore)

theorem member (hm : m ∈ memberMarks) (hw : isName w = true) (h : Found 12 s e) :
    Found 12 (s ++ [Token.mark m, .word w]) (.member m e w) :=
  h.postfixed (fun _ _ _ hMore => Yields.member hm hw hMore)

theorem index (h : Found 12 s e) (hi : Found 0 t i) :
    Found 12 (s ++ Token.mark ['['] :: (t ++ [Token.mark [']']])) (.index e i) := by
  refine h.postfixed (fun rest e' r hMore => ?_)
  have hInner := hi.whole (.mark [']'] :: rest) (stops_cons (by decide) rest)
  simpa using Yields.index hInner hMore

theorem callNone (h : Found 12 s f) : Found 12 (s ++ [Token.mark ['('], .mark [')']]) (.call f []) :=
  h.postfixed (fun _ _ _ hMore => Yields.callNone hMore)

theorem call (h : Found 12 s f) (hStarts : Starts t) (hArgs : FoundArguments t args) :
    Found 12 (s ++ Token.mark ['('] :: (t ++ [Token.mark [')']])) (.call f args) := by
  refine h.postfixed (fun rest e' r hMore => ?_)
  have hInner := hArgs rest f [] e' r hMore
  simpa using Yields.call (hStarts.append _).head_ne hInner

/-- Nothing but a postfix form goes on with the operand of a prefix operator. -/
theorem of_prefixed (h : ∀ rest, Stops 11 rest → Yields (.level 11) (s ++ rest) e rest) : Found 11 s e :=
  ⟨h, fun hk => by unfold IsLeftRecursive at hk; omega⟩

theorem unary (hm : m ∈ prefixMarks) (h : Found 11 s e) : Found 11 (.mark m :: s) (.unary m e) :=
  of_prefixed (fun rest hStops => Yields.unary hm (h.whole rest hStops))

theorem cast {stars : Nat} (hw : isTypeName w = true) (h : Found 11 s e) :
    Found 11 (.mark ['('] :: .word w :: (List.replicate stars (Token.mark ['*']) ++ Token.mark [')'] :: s))
      (.cast w stars e) := by
  refine of_prefixed (fun rest hStops => ?_)
  have hCast := Yields.cast stars hw (h.whole rest hStops)
  simpa using hCast

theorem binary (hm : binaryLevel? m = some k) (ha : Found k s a) (hb : Found (k + 1) t b) :
    Found k (s ++ Token.mark m :: t) (.binary m a b) := by
  have hBounds := binaryLevel?_bounds hm
  have hLoop : IsLeftRecursive k := Or.inl hBounds
  refine of_start (fun rest e' r hStops hMore => ?_)
  have hRight := hb.whole rest hStops
  have hNext : Stops (k + 1) (.mark m :: (t ++ rest)) := by
    intro x hx j hj
    obtain rfl := Option.some.inj hx
    rw [binding_of_binaryLevel? hm, Option.some.injEq] at hj
    omega
  have hStep := Yields.binary (by omega) (by omega) hm hRight hMore
  simpa using ha.start hLoop _ e' r hNext hStep

theorem choose (hc : Found 1 s c) (ha : Found 0 t a) (hb : Found 0 u b) :
    Found 0 (s ++ Token.mark ['?'] :: (t ++ Token.mark [':'] :: u)) (.choose c a b) := by
  refine ⟨fun rest hStops => ?_, fun hk => by unfold IsLeftRecursive at hk; omega⟩
  have hSecond := hb.whole rest hStops
  have hFirst := ha.whole (.mark [':'] :: (u ++ rest)) (stops_cons (by decide) _)
  have hNext : Stops 1 (.mark ['?'] :: (t ++ Token.mark [':'] :: (u ++ rest))) := by
    intro x hx j hj
    obtain rfl := Option.some.inj hx
    rw [show binding (.mark ['?']) = some 0 from rfl, Option.some.injEq] at hj
    omega
  have hCond := hc.whole _ hNext
  simpa using Yields.level (by omega) (by omega) hCond (Yields.choose hFirst hSecond)

theorem up (hk : k < 13) (hs : 12 ≤ k + 1 → ∀ rest, NoPrefix (s ++ rest)) (h : Found (k + 1) s e) : Found k s e := by
  by_cases hPrefixed : k = 11
  · subst hPrefixed
    exact of_prefixed fun rest hStops =>
      Yields.noPrefix (hs (by omega) rest) (h.whole rest (hStops.mono (by omega)))
  have hUp : ∀ rest e' r, Stops (k + 1) rest → Yields (.more k e) rest e' r → Yields (.level k) (s ++ rest) e' r :=
    fun rest e' r hStops hMore => Yields.level (by omega) hPrefixed (h.whole rest hStops) hMore
  exact ⟨fun rest hStops => hUp rest e rest (hStops.mono (by omega)) (Yields.stop hStops e), fun _ => hUp⟩

end Found

mutual

/-- Every expression of the grammar is read. -/
theorem Derives.found : ∀ {k : Nat} {s : List Token} {e : Expr}, Derives k s e → Found k s e
  | _, _, _, .name h => Found.of_primary fun _ => Yields.name h
  | _, _, _, .constant => Found.of_primary fun _ => Yields.constant
  | _, _, _, .text => Found.of_primary fun _ => Yields.text
  | _, _, _, .group h => h.found.group
  | _, _, _, .member hm hw h => h.found.member hm hw
  | _, _, _, .index h hi => h.found.index hi.found
  | _, _, _, .callNone h => h.found.callNone
  | _, _, _, .call h hArgs => h.found.call hArgs.starts hArgs.found
  | _, _, _, .unary hm h => h.found.unary hm
  | _, _, _, .cast hw h => h.found.cast hw
  | _, _, _, .binary hm ha hb => Found.binary hm ha.found hb.found
  | _, _, _, .choose hc ha hb => Found.choose hc.found ha.found hb.found
  | _, _, _, .up hk h => Found.up hk h.noPrefix h.found

theorem Arguments.found : ∀ {s : List Token} {args : List Expr}, Arguments s args → FoundArguments s args
  | _, _, .last h => fun rest f before e r hMore =>
    Yields.last (h.found.whole _ (stops_cons (by decide) rest)) hMore
  | _, _, .more (s := s) (t := t) h hArgs => fun rest f before e r hMore => by
    have hRest := hArgs.found rest f (before ++ [_]) e r (by simpa using hMore)
    have hFirst := h.found.whole (.mark [','] :: (t ++ Token.mark [')'] :: rest)) (stops_cons (by decide) _)
    simpa using Yields.next hFirst hRest

end

/-- No row of tokens can be read in two ways. -/
theorem Derives.unique {k : Nat} {s : List Token} {e e' : Expr} (h : Derives k s e) (h' : Derives k s e') : e = e' :=
  (h.found.whole [] (stops_nil k)).unique (h'.found.whole [] (stops_nil k))

end Lowering.C
