import Lowering.Main
import Lowering.Proofs.C.Depth
import Lowering.Proofs.Grouping
import Lowering.Proofs.Independence

/-!
# Postfix forms after operators

Operators are put in parentheses below other operators and nowhere else. Members, elements and calls bind tighter than any
operator, but they are no operators, so that an operator before them is written without parentheses, and C takes the form
for a part of the last operand. The text of an expression is read as the expression exactly if there is no such place in it.

One half of this is the grouping of plain expressions. For the other half the text need not be read: wherever an operator is
to be grouped, its own punctuation has to be deeper in parentheses than what is around it, and here it is not.

* `Node.appliesToOperator` — a member, element or call of an operator.
* `Node.tracked_of_writable` — what is to be read, where it is as deep as the text, has no such node.
* `postfix_after_operator_iff` — when the text of an expression is read as the expression; `generate_member_of_sum` is one
  where it is not.
-/

namespace Lowering

open C

namespace Node

-- ---------------------------------------------------------------------------
-- Expressions
-- ---------------------------------------------------------------------------

/-- A member, an element or a call of an operator. -/
def appliesToOperator : Node → Bool
  | .dotIndex base _ _ | .arrayIndex base _ _ => base.tag.isOperator
  | .call callee _ _ => callee.tag.isOperator
  | _ => false

theorem isPostfix_of_isBase {e : Node} (h : e.isBase = true) (hTag : e.tag.isOperator = false) : e.isPostfix = true := by
  rw [isBase, hTag, Bool.or_false] at h
  exact h

/-- Without postfix forms after operators, an expression is plain. -/
theorem plain_of_writable {e : Node} (h : ∀ n ∈ e.nodes, n.Writable)
    (hApplies : ∀ n ∈ e.nodes, n.appliesToOperator = false) : e.Plain := by
  induction e using childInduction with
  | step e ih =>
    obtain ⟨hSelf, hBelow⟩ := forall_mem_nodes.mp h
    obtain ⟨hOwn, hApplies⟩ := forall_mem_nodes.mp hApplies
    have hChild : ∀ c ∈ e.children, c.Plain := fun c hc => ih c hc (hBelow c hc) (hApplies c hc)
    cases e <;> simp only [Writable] at hSelf <;> simp only [children, List.forall_mem_cons] at hChild
    case id => exact .id hSelf
    case number => exact .number hSelf.1 hSelf.2
    case string => exact .string
    case boolean => exact .boolean
    case nil => exact .nil
    case paren => exact .paren hChild.1
    case dotIndex => exact .dotIndex (isPostfix_of_isBase hSelf.1 hOwn) hChild.1 hSelf.2
    case arrayIndex => exact .arrayIndex (isPostfix_of_isBase hSelf hOwn) hChild.1 hChild.2.1
    case call => exact .call (isPostfix_of_isBase hSelf.1 hOwn) hChild.1 hSelf.2 hChild.2
    case unaryOp => exact .unaryOp hSelf hChild.1
    case binaryOp => exact .binaryOp hSelf hChild.1 hChild.2.1
    case ternaryOp => exact .ternaryOp hSelf hChild.2.1 hChild.1 hChild.2.2.1

-- ---------------------------------------------------------------------------
-- Readings and texts
-- ---------------------------------------------------------------------------

/-- An operator is read as an operator in some number of parentheses. -/
theorem IsReadAs.exists_groups : ∀ {e : Node} {c : Expr}, IsReadAs e c → e.tag.isOperator = true →
    ∃ n c', c = .groups n c' ∧ IsReadAs e c' ∧ c'.isOperator = true
  | _, _, .wrapped _ h, hTag => by
    obtain ⟨n, c', rfl, hRead, hOperator⟩ := h.exists_groups hTag
    exact ⟨n + 1, c', rfl, hRead, hOperator⟩
  | _, _, .unaryOp hKnown hMark h, _ => ⟨0, _, rfl, .unaryOp hKnown hMark h, rfl⟩
  | _, _, .binaryOp hKnown hMark h h', _ => ⟨0, _, rfl, .binaryOp hKnown hMark h h', rfl⟩
  | _, _, .ternaryOp hKnown h h' h'', _ => ⟨0, _, rfl, .ternaryOp hKnown h h' h'', rfl⟩
  | _, _, .id, hTag | _, _, .number _, hTag | _, _, .typed _ _ _, hTag | _, _, .string, hTag | _, _, .boolean, hTag
  | _, _, .nil, hTag | _, _, .paren _, hTag | _, _, .dotIndex _, hTag | _, _, .arrayIndex _ _, hTag
  | _, _, .call _ _, hTag => absurd hTag Bool.false_ne_true

/-- A prefix operator is read with its operand. -/
theorem IsReadAs.exists_unary {op : String} {operand : Node} {span : Span} {c : Expr}
    (h : IsReadAs (.unaryOp op operand span) c) :
    ∃ n known mark a, UnaryOp.ofName? op = some known ∧ UnaryOp.spelling? known = some mark ∧ IsReadAs operand a ∧
      c = .groups n (.unary mark.toList a) := by
  obtain ⟨n, c', hGroups, hRead, hOperator⟩ := h.exists_groups rfl
  cases hRead with
  | unaryOp hKnown hMark ha => exact ⟨n, _, _, _, hKnown, hMark, ha, hGroups⟩
  | wrapped => cases hOperator

/-- An operator between two operands is read with them. -/
theorem IsReadAs.exists_binary {op : String} {lhs rhs : Node} {span : Span} {c : Expr}
    (h : IsReadAs (.binaryOp op lhs rhs span) c) :
    ∃ n known mark a b, BinaryOp.ofName? op = some known ∧ BinaryOp.spelling? known = some mark ∧ IsReadAs lhs a ∧
      IsReadAs rhs b ∧ c = .groups n (.binary mark.toList a b) := by
  obtain ⟨n, c', hGroups, hRead, hOperator⟩ := h.exists_groups rfl
  cases hRead with
  | binaryOp hKnown hMark ha hb => exact ⟨n, _, _, _, _, hKnown, hMark, ha, hb, hGroups⟩
  | wrapped => cases hOperator

/-- A choice is read with its condition and its two values. -/
theorem IsReadAs.exists_choose {op : String} {first second third : Node} {span : Span} {c : Expr}
    (h : IsReadAs (.ternaryOp op first second third span) c) :
    ∃ n a b b', TernaryOp.ofName? op = some .choose ∧ IsReadAs first a ∧ IsReadAs second b ∧ IsReadAs third b' ∧
      c = .groups n (.choose b a b') := by
  obtain ⟨n, c', hGroups, hRead, hOperator⟩ := h.exists_groups rfl
  cases hRead with
  | ternaryOp hKnown ha hb hb' => exact ⟨n, _, _, _, hKnown, ha, hb, hb', hGroups⟩
  | wrapped => cases hOperator

-- ---------------------------------------------------------------------------
-- Punctuation
-- ---------------------------------------------------------------------------

theorem isPunctuation_unary {known : UnaryOp} {mark : String} (h : known.spelling? = some mark) :
    isPunctuation mark.toList mark.toList = true := by
  have hAll : ∀ m ∈ prefixMarks, isPunctuation m m = true := by decide
  exact hAll _ (mem_prefixMarks h)

theorem isPunctuation_binary {known : BinaryOp} {mark : String} (h : known.spelling? = some mark) :
    isPunctuation mark.toList ([' '] ++ (mark.toList ++ [' '])) = true := by
  cases known <;> simp only [BinaryOp.spelling?, Option.some.injEq, reduceCtorEq] at h <;> subst h <;> decide

section Text

variable {p : Place} {span : Span}

/-- The text of a binary operator, its punctuation with the blanks around it. -/
theorem written_binaryOp_spaced {op mark : String} {lhs rhs : Node} {known : BinaryOp}
    (hKnown : BinaryOp.ofName? op = some known) (hMark : known.spelling? = some mark) :
    written p (.binaryOp op lhs rhs span) =
      let s := written (p.descend .binaryOp) lhs ++ (([' '] ++ (mark.toList ++ [' '])) ++
        written (p.descend .binaryOp) rhs)
      if p.isOperator then '(' :: (s ++ [')']) else s := by
  rw [written_binaryOp hKnown hMark]
  simp only [List.append_assoc]

theorem written_ternaryOp_spaced {op : String} {first second third : Node}
    (hKnown : TernaryOp.ofName? op = some .choose) :
    written p (.ternaryOp op first second third span) =
      let s := written (p.descend .ternaryOp) second ++ (([' '] ++ (['?'] ++ [' '])) ++
        (written (p.descend .ternaryOp) first ++ (([' '] ++ ([':'] ++ [' '])) ++
          written (p.descend .ternaryOp) third)))
      if p.isOperator then '(' :: (s ++ [')']) else s := by
  rw [written_ternaryOp hKnown]
  simp only [List.append_assoc]

end Text

-- ---------------------------------------------------------------------------
-- Depths
-- ---------------------------------------------------------------------------

/-- The node is written as it is to be read: no postfix form in it is taken of an operator, and it is an operator without
parentheses in what is read if it is written as one. -/
structure Faithful (p : Place) (e : Node) (c : Expr) : Prop where
  applies : ∀ n ∈ e.nodes, n.appliesToOperator = false
  bare : e.tag.isOperator = true → p.isOperator = false → c.isOperator = true

/-- What a postfix form follows is no operator. -/
theorem Faithful.base {p : Place} {e : Node} {c : Expr} (h : Faithful p e c) (hp : p.isOperator = false)
    (hc : c.isOperator = false) : e.tag.isOperator = false := by
  rw [← Bool.not_eq_true]
  intro hTag
  rw [h.bare hTag hp] at hc
  cases hc

/-- Whatever the node is to be read as has the characters of the text, and it is faithful to the node if they are as deep as
in the text. -/
structure Tracked (e : Node) : Prop where
  corresponds : ∀ {c : Expr}, IsReadAs e c → ∀ p, Corresponds c.chars (e.written p)
  faithful : ∀ {c : Expr} {p : Place} {k : Nat}, IsReadAs e c → c.Proper → depths k c.chars = depths k (e.written p) →
    Faithful p e c

section Cases

variable {e : Node} {span : Span}

/-- A node that is no operator is faithful if no postfix form below it is taken of one. -/
theorem Tracked.of_forall (hTag : e.tag.isOperator = false)
    (hSame : ∀ {c : Expr}, IsReadAs e c → ∀ p, Corresponds c.chars (e.written p))
    (hApplies : ∀ {c : Expr} {p : Place} {k : Nat}, IsReadAs e c → c.Proper → depths k c.chars = depths k (e.written p) →
      e.appliesToOperator = false ∧ ∀ a ∈ e.children, ∀ n ∈ a.nodes, n.appliesToOperator = false) : Tracked e where
  corresponds := hSame
  faithful hRead hProper hDepths := by
    refine ⟨forall_mem_nodes.mpr (hApplies hRead hProper hDepths), fun h => ?_⟩
    rw [hTag] at h
    cases h

/-- Names and literals. -/
theorem Tracked.leaf (hTag : e.tag.isOperator = false) (hApplies : e.appliesToOperator = false) (hChildren : e.children = [])
    (hSame : ∀ {c : Expr}, IsReadAs e c → ∀ p, Corresponds c.chars (e.written p)) : Tracked e := by
  refine .of_forall hTag hSame fun _ _ _ => ⟨hApplies, ?_⟩
  rw [hChildren]
  exact List.forall_mem_nil _

theorem tracked_id {name : String} (h : IsIdentifier name.toList) : Tracked (.id name span) := by
  refine .leaf rfl rfl rfl fun hRead p => ?_
  cases hRead with
  | id =>
    rw [written_id]
    exact .of_forall (isNeutral_of_isIdentifier (Target.isIdentifier_escapeName h))
  | wrapped hTag => cases hTag

theorem tracked_number {form : NumberForm} {suffix : Option String} (h : form.WellFormed) :
    Tracked (.number form suffix span) := by
  obtain ⟨x, hSpelling, hNumeral⟩ := isNumeral_spelling h
  have hConstant := Corresponds.of_forall (isNeutral_of_isNumeral hNumeral)
  refine .leaf rfl rfl rfl fun hRead p => ?_
  cases hRead with
  | number hx =>
    obtain rfl := Except.ok.inj (hSpelling.symm.trans hx)
    rw [written_untyped hSpelling]
    exact hConstant
  | @typed _ _ _ _ type t hx hType hFind =>
    obtain rfl := Except.ok.inj (hSpelling.symm.trans hx)
    obtain ⟨t', hFind', hWord, -⟩ := exists_numericType type
    obtain rfl := Option.some.inj (hFind.symm.trans hFind')
    have hCast := (Corresponds.of_forall (isNeutral_of_isIdentifier hWord)).group.wrap.append hConstant
    rw [written_typed hSpelling hType hFind]
    simpa [Expr.chars] using hCast.group.wrap
  | wrapped hTag => cases hTag

theorem tracked_string {value : String} : Tracked (.string value span) := by
  have hType := Corresponds.of_forall (isNeutral_of_isIdentifier (w := "nlstring".toList) (by decide))
  have hStar : Corresponds ['*'] ['*'] := .of_isPunctuation (by decide)
  have hAddress : Corresponds ['&'] ['&'] := .of_isPunctuation (by decide)
  have hName := Corresponds.of_forall (isNeutral_of_isIdentifier (Literal.isIdentifier_recordName span))
  refine .leaf rfl rfl rfl fun hRead p => ?_
  cases hRead with
  | string =>
    rw [written_string]
    simpa [Expr.chars] using ((hType.append hStar).group.wrap.append (hAddress.append hName)).group.wrap
  | wrapped hTag => cases hTag

theorem tracked_boolean {value : Bool} : Tracked (.boolean value span) := by
  refine .leaf rfl rfl rfl fun hRead p => ?_
  cases hRead with
  | boolean =>
    rw [written_boolean]
    exact .of_forall (isNeutral_of_isIdentifier (by cases value <;> decide))
  | wrapped hTag => cases hTag

theorem tracked_nil : Tracked (.nil span) := by
  refine .leaf rfl rfl rfl fun hRead p => ?_
  cases hRead with
  | nil =>
    rw [written_nil]
    exact .of_forall (isNeutral_of_isIdentifier (by decide))
  | wrapped hTag => cases hTag

theorem tracked_paren {inner : Node} (h : Tracked inner) : Tracked (.paren inner span) := by
  refine .of_forall rfl (fun hRead p => ?_) fun {c p k} hRead hProper hDepths => ?_
  all_goals cases hRead with
  | wrapped hTag => cases hTag
  | paren hInner => ?_
  · rw [written_paren]
    exact (h.corresponds hInner _).group.wrap
  · rw [written_paren] at hDepths
    have hDepths := (h.corresponds hInner _).depths_of_parens hDepths
    exact ⟨rfl, List.forall_mem_singleton.mpr (h.faithful hInner hProper hDepths).applies⟩

-- ---------------------------------------------------------------------------
-- Postfix forms
-- ---------------------------------------------------------------------------

theorem tracked_dotIndex {base : Node} {field : String} (h : Tracked base) (hField : IsIdentifier field.toList) :
    Tracked (.dotIndex base field span) := by
  refine .of_forall rfl (fun hRead p => ?_) fun {c p k} hRead hProper hDepths => ?_
  all_goals cases hRead with
  | wrapped hTag => cases hTag
  | dotIndex hBase => ?_
  · rw [written_dotIndex]
    exact (h.corresponds hBase _).append ((Corresponds.of_isPunctuation (by decide)).append
      (.of_forall (isNeutral_of_isIdentifier (Target.isIdentifier_escapeName hField))))
  · rw [written_dotIndex] at hDepths
    have hDepths := ((h.corresponds hBase _).split hDepths).1
    have hFaithful := h.faithful hBase hProper.2 hDepths
    exact ⟨hFaithful.base rfl hProper.1, List.forall_mem_singleton.mpr hFaithful.applies⟩

theorem tracked_arrayIndex {base index : Node} (h : Tracked base) (hIndex : Tracked index) :
    Tracked (.arrayIndex base index span) := by
  have hOpen : isPunctuation ['['] ['['] = true := by decide
  refine .of_forall rfl (fun hRead p => ?_) fun {c p k} hRead hProper hDepths => ?_
  all_goals cases hRead with
  | wrapped hTag => cases hTag
  | arrayIndex hBase hInside => ?_
  · rw [written_arrayIndex]
    exact (h.corresponds hBase _).append ((Corresponds.of_isPunctuation hOpen).append
      ((hIndex.corresponds hInside _).append (.of_isPunctuation (by decide))))
  · rw [written_arrayIndex] at hDepths
    obtain ⟨hBaseDepths, hDepths⟩ := (h.corresponds hBase _).split hDepths
    obtain ⟨-, hDepths⟩ := Corresponds.split_punctuation hOpen hDepths
    have hDepths := ((hIndex.corresponds hInside _).split hDepths).1
    have hFaithful := h.faithful hBase hProper.2.1 hBaseDepths
    refine ⟨hFaithful.base rfl hProper.1, List.forall_mem_cons.mpr ⟨hFaithful.applies, ?_⟩⟩
    exact List.forall_mem_singleton.mpr (hIndex.faithful hInside hProper.2.2 hDepths).applies

/-- The arguments of a call, with commas between them. -/
theorem corresponds_arguments {p : Place} {args : List Node} {cs : List Expr} (hRead : List.Forall₂ IsReadAs args cs)
    (h : ∀ a ∈ args, Tracked a) : Corresponds (Expr.charsOfAll cs) (writtenAll p args) := by
  induction hRead with
  | nil => exact .of_forall (by simp [Expr.charsOfAll])
  | cons hFirst hRest ih =>
    obtain ⟨hHead, hTail⟩ := List.forall_mem_cons.mp h
    cases hRest with
    | nil => exact hHead.corresponds hFirst p
    | cons =>
      rw [writtenAll_cons_cons]
      exact (hHead.corresponds hFirst p).append
        ((Corresponds.of_isPunctuation (s := [',']) (t := [',', ' ']) (by decide)).append (ih hTail))

theorem applies_arguments {p : Place} {args : List Node} {cs : List Expr} {k : Nat}
    (hRead : List.Forall₂ IsReadAs args cs) (h : ∀ a ∈ args, Tracked a) (hProper : Expr.AllProper cs)
    (hDepths : depths k (Expr.charsOfAll cs) = depths k (writtenAll p args)) :
    ∀ a ∈ args, ∀ n ∈ a.nodes, n.appliesToOperator = false := by
  induction hRead with
  | nil => exact List.forall_mem_nil _
  | cons hFirst hRest ih =>
    obtain ⟨hHead, hTail⟩ := List.forall_mem_cons.mp h
    cases hRest with
    | nil => exact List.forall_mem_singleton.mpr (hHead.faithful hFirst hProper.1 hDepths).applies
    | cons =>
      rw [writtenAll_cons_cons] at hDepths
      obtain ⟨hFirstDepths, hDepths⟩ := (hHead.corresponds hFirst p).split hDepths
      obtain ⟨-, hDepths⟩ := Corresponds.split_punctuation (s := [',']) (t := [',', ' ']) (by decide) hDepths
      exact List.forall_mem_cons.mpr
        ⟨(hHead.faithful hFirst hProper.1 hFirstDepths).applies, ih hTail hProper.2 hDepths⟩

theorem tracked_call {callee : Node} {args : List Node} (h : Tracked callee) (hPrint : ∀ s, callee ≠ .id "print" s)
    (hArgs : ∀ a ∈ args, Tracked a) : Tracked (.call callee args span) := by
  refine .of_forall rfl (fun hRead p => ?_) fun {c p k} hRead hProper hDepths => ?_
  all_goals cases hRead with
  | wrapped hTag => cases hTag
  | call hCallee hInside => ?_
  · rw [written_call hPrint]
    exact (h.corresponds hCallee _).append (corresponds_arguments hInside hArgs).group.wrap
  · rw [written_call hPrint] at hDepths
    obtain ⟨hCalleeDepths, hDepths⟩ := (h.corresponds hCallee _).split hDepths
    have hDepths := (corresponds_arguments hInside hArgs).depths_of_parens hDepths
    have hFaithful := h.faithful hCallee hProper.2.1 hCalleeDepths
    exact ⟨hFaithful.base rfl hProper.1,
      List.forall_mem_cons.mpr ⟨hFaithful.applies, applies_arguments hInside hArgs hProper.2.2 hDepths⟩⟩

-- ---------------------------------------------------------------------------
-- Operators
-- ---------------------------------------------------------------------------

/-- An operator is in as many parentheses as are written around it, if its punctuation is as deep as in the text. -/
theorem Tracked.of_operator (hApplies : e.appliesToOperator = false)
    (h : ∀ {c : Expr}, IsReadAs e c → ∀ p : Place, ∃ n c' t, c = .groups n c' ∧ c'.isOperator = true ∧
      e.written p = (if p.isOperator then '(' :: (t ++ [')']) else t) ∧ Corresponds c'.chars t ∧
      ∀ j k, c'.Proper → depths j c'.chars = depths k t →
        j = k ∧ ∀ a ∈ e.children, ∀ n ∈ a.nodes, n.appliesToOperator = false) : Tracked e where
  corresponds hRead p := by
    obtain ⟨n, c', t, rfl, -, hWritten, hSame, -⟩ := h hRead p
    rw [hWritten]
    exact Expr.corresponds_groups (hSame.wrapped _) n
  faithful {c p k} hRead hProper hDepths := by
    obtain ⟨n, c', t, rfl, hOperator, hWritten, hSame, hInside⟩ := h hRead p
    rw [hWritten] at hDepths
    -- what is read is `n` deeper than `k`, the text is one deeper or not at all, and both are equally deep
    obtain ⟨hWraps, hBelow⟩ := hInside _ _ (Expr.proper_groups.mp hProper) (Expr.depths_operator hDepths hSame)
    obtain rfl : n = p.isOperator.toNat := Nat.add_left_cancel hWraps
    refine ⟨forall_mem_nodes.mpr ⟨hApplies, hBelow⟩, fun _ hp => ?_⟩
    rw [hp]
    exact hOperator

theorem tracked_unaryOp {op : String} {operand : Node} (h : Tracked operand) : Tracked (.unaryOp op operand span) := by
  refine .of_operator rfl fun hRead p => ?_
  obtain ⟨n, known, mark, a, hKnown, hMark, ha, rfl⟩ := hRead.exists_unary
  have hPunctuation := isPunctuation_unary hMark
  refine ⟨n, _, _, rfl, rfl, written_unaryOp hKnown hMark,
    (Corresponds.of_isPunctuation hPunctuation).append (h.corresponds ha _), fun j k hProper hDepths => ?_⟩
  obtain ⟨rfl, hDepths⟩ := Corresponds.split_punctuation hPunctuation hDepths
  exact ⟨rfl, List.forall_mem_singleton.mpr (h.faithful ha hProper hDepths).applies⟩

theorem tracked_binaryOp {op : String} {lhs rhs : Node} (hLeft : Tracked lhs) (hRight : Tracked rhs) :
    Tracked (.binaryOp op lhs rhs span) := by
  refine .of_operator rfl fun hRead p => ?_
  obtain ⟨n, known, mark, a, b, hKnown, hMark, ha, hb, rfl⟩ := hRead.exists_binary
  have hPunctuation := isPunctuation_binary hMark
  refine ⟨n, _, _, rfl, rfl, written_binaryOp_spaced hKnown hMark, (hLeft.corresponds ha _).append
    ((Corresponds.of_isPunctuation hPunctuation).append (hRight.corresponds hb _)), fun j k hProper hDepths => ?_⟩
  -- the left operand may hold parentheses of its own, so only the punctuation tells that `j` is `k`
  obtain ⟨hLeftDepths, hDepths⟩ := (hLeft.corresponds ha _).split hDepths
  obtain ⟨rfl, hDepths⟩ := Corresponds.split_punctuation hPunctuation hDepths
  refine ⟨rfl, List.forall_mem_cons.mpr ⟨?_, List.forall_mem_singleton.mpr ?_⟩⟩
  · exact (hLeft.faithful ha hProper.1 hLeftDepths).applies
  · exact (hRight.faithful hb hProper.2 hDepths).applies

theorem tracked_ternaryOp {op : String} {first second third : Node} (hFirst : Tracked first) (hSecond : Tracked second)
    (hThird : Tracked third) : Tracked (.ternaryOp op first second third span) := by
  have hQuestion : isPunctuation ['?'] ([' '] ++ (['?'] ++ [' '])) = true := by decide
  have hColon : isPunctuation [':'] ([' '] ++ ([':'] ++ [' '])) = true := by decide
  refine .of_operator rfl fun hRead p => ?_
  obtain ⟨n, a, b, b', hKnown, ha, hb, hb', rfl⟩ := hRead.exists_choose
  refine ⟨n, _, _, rfl, rfl, written_ternaryOp_spaced hKnown, (hSecond.corresponds hb _).append
    ((Corresponds.of_isPunctuation hQuestion).append ((hFirst.corresponds ha _).append
      ((Corresponds.of_isPunctuation hColon).append (hThird.corresponds hb' _)))), fun j k hProper hDepths => ?_⟩
  obtain ⟨hSecondDepths, hDepths⟩ := (hSecond.corresponds hb _).split hDepths
  obtain ⟨rfl, hDepths⟩ := Corresponds.split_punctuation hQuestion hDepths
  obtain ⟨hFirstDepths, hDepths⟩ := (hFirst.corresponds ha _).split hDepths
  obtain ⟨-, hThirdDepths⟩ := Corresponds.split_punctuation hColon hDepths
  refine ⟨rfl, List.forall_mem_cons.mpr ⟨?_, List.forall_mem_cons.mpr ⟨?_, List.forall_mem_singleton.mpr ?_⟩⟩⟩
  · exact (hSecond.faithful hb hProper.1 hSecondDepths).applies
  · exact (hFirst.faithful ha hProper.2.1 hFirstDepths).applies
  · exact (hThird.faithful hb' hProper.2.2 hThirdDepths).applies

end Cases

/-- Every expression is tracked. By induction over the tree, with one case for each kind of node. -/
theorem tracked_of_writable {e : Node} (h : ∀ n ∈ e.nodes, n.Writable) : Tracked e := by
  induction e using childInduction with
  | step e ih =>
    obtain ⟨hSelf, hBelow⟩ := forall_mem_nodes.mp h
    have hChild : ∀ a ∈ e.children, Tracked a := fun a ha => ih a ha (hBelow a ha)
    cases e <;> simp only [Writable] at hSelf <;> simp only [children, List.forall_mem_cons] at hChild
    case id => exact tracked_id hSelf
    case number => exact tracked_number hSelf.1
    case string => exact tracked_string
    case boolean => exact tracked_boolean
    case nil => exact tracked_nil
    case paren => exact tracked_paren hChild.1
    case dotIndex => exact tracked_dotIndex hChild.1 hSelf.2
    case arrayIndex => exact tracked_arrayIndex hChild.1 hChild.2.1
    case call => exact tracked_call hChild.1 hSelf.2 hChild.2
    case unaryOp => exact tracked_unaryOp hChild.1
    case binaryOp => exact tracked_binaryOp hChild.1 hChild.2.1
    case ternaryOp => exact tracked_ternaryOp hChild.2.1 hChild.1 hChild.2.2.1

-- ---------------------------------------------------------------------------
-- Whole expressions
-- ---------------------------------------------------------------------------

/-- The grammar of C reads the text as the expression. -/
def IsReadFrom (e : Node) (text : List Char) : Prop :=
  ∃ tokens c, scan text = some tokens ∧ Derives 0 tokens c ∧ e.IsReadAs c

theorem isReadFrom_written_iff {e : Node} (h : ∀ n ∈ e.nodes, n.Writable) (p : Place) :
    e.IsReadFrom (e.written p) ↔ ∀ n ∈ e.nodes, n.appliesToOperator = false := by
  constructor
  · rintro ⟨tokens, c, hScan, hDerives, hRead⟩
    -- neither scanning nor reading changes how deep anything is, so it is enough to compare depths
    have hTracked := tracked_of_writable h
    have hDepths : depths 0 c.chars = depths 0 (e.written p) := by
      rw [← hDerives.chars, depths_of_scan (hTracked.corresponds hRead p).commentless hScan]
    exact (hTracked.faithful hRead hDerives.proper.1 hDepths).applies
  · intro hApplies
    obtain ⟨tokens, c, hReads⟩ := (plain_of_writable h hApplies).exists_reads p
    exact ⟨tokens, c, scan_of_lexes (hReads.lexes [] (notAhead_boundary (notAhead_nil _))), hReads.whole, hReads.read⟩

theorem visit_ok_iff_of_writable {e : Node} {d : Draft} (hTypes : d.types = Target.primitiveTypes)
    (h : ∀ n ∈ e.nodes, n.Writable) :
    (∃ d', visit .standard e d = .ok () d') ↔ e.stringNames.Nodup ∧ ∀ name ∈ e.stringNames, name ∉ d.taken := by
  obtain ⟨depth, hInside⟩ := d.exists_inside
  have hAdds := e.visit_adds depth d.place hInside
  rw [← names_of_writable h d.place]
  constructor
  · rintro ⟨d', hRun⟩
    by_contra hNot
    obtain ⟨fault, d'', hError⟩ := hAdds.refused d ⟨hTypes, rfl⟩ fun h => hNot h.2
    rw [hRun] at hError
    cases hError
  · intro hFresh
    obtain ⟨events, hRun⟩ := hAdds.done d ⟨hTypes, rfl⟩ (soundAt_of_writable h depth) hFresh
    exact ⟨_, hRun⟩

end Node

/-- **Postfix forms.** An expression of names, literals, postfix forms and operators can be written as soon as the names of
its strings are new and different, and the text is read as the expression exactly if no member, element or call in it is
taken of an operator that is not in parentheses in the tree. -/
theorem postfix_after_operator_iff (d : Draft) (e : Node) (hTypes : d.types = Target.primitiveTypes)
    (hWritable : ∀ n ∈ e.nodes, n.Writable) :
    ((∃ d', visit .standard e d = .ok () d') ↔
        e.stringNames.Nodup ∧ ∀ name ∈ e.stringNames, name ∉ d.taken) ∧
      ∀ d', visit .standard e d = .ok () d' →
        ∃ text, d'.page.text = d.page.text ++ text ∧
          (e.IsReadFrom text.toList ↔ ∀ n ∈ e.nodes, n.appliesToOperator = false) := by
  refine ⟨Node.visit_ok_iff_of_writable hTypes hWritable, fun d' hVisit => ⟨e.textAt d.place, ?_, ?_⟩⟩
  · rw [Node.page_of_visit hTypes hVisit]
    rfl
  · exact Node.isReadFrom_written_iff hWritable d.place

/-- A member of a sum in parentheses, as an argument of a call whose callee is a pointer read without parentheses. -/
theorem postfix_after_operator_iff_call :
    let sum : Node := .binaryOp "add" (.id "a" ⟨5, 6⟩) (.id "b" ⟨9, 10⟩) ⟨5, 10⟩
    let member : Node := .dotIndex (.paren sum ⟨4, 11⟩) "x" ⟨4, 13⟩
    let call : Node := .call (.unaryOp "deref" (.id "f" ⟨1, 2⟩) ⟨0, 2⟩) [member] ⟨0, 14⟩
    (Draft.blank 4).types = Target.primitiveTypes ∧ (∀ n ∈ call.nodes, n.Writable) ∧
      (∃ d' text, visit .standard member (Draft.blank 4) = .ok () d' ∧ d'.page.text = "" ++ text ∧
        member.IsReadFrom text.toList) ∧
      ∃ d' text, visit .standard call (Draft.blank 4) = .ok () d' ∧ d'.page.text = "" ++ text ∧
        ¬ call.IsReadFrom text.toList := by
  intro sum member call
  have hName : ∀ (name : String) (span : Span), IsIdentifier name.toList →
      ∀ n ∈ (Node.id name span).nodes, n.Writable ∧ n.appliesToOperator = false := fun name span h =>
    Node.forall_mem_nodes.mpr ⟨⟨h, rfl⟩, by simp [Node.children]⟩
  have hSum : ∀ n ∈ sum.nodes, n.Writable ∧ n.appliesToOperator = false :=
    Node.forall_mem_nodes.mpr ⟨⟨⟨.add, rfl, rfl⟩, rfl⟩,
      List.forall_mem_cons.mpr ⟨hName "a" _ (by decide), List.forall_mem_singleton.mpr (hName "b" _ (by decide))⟩⟩
  have hMember : ∀ n ∈ member.nodes, n.Writable ∧ n.appliesToOperator = false := by
    refine Node.forall_mem_nodes.mpr ⟨⟨⟨rfl, by decide⟩, rfl⟩, List.forall_mem_singleton.mpr ?_⟩
    exact Node.forall_mem_nodes.mpr ⟨⟨trivial, rfl⟩, List.forall_mem_singleton.mpr hSum⟩
  have hCall : ∀ n ∈ call.nodes, n.Writable := by
    refine Node.forall_mem_nodes.mpr ⟨⟨rfl, by simp⟩, List.forall_mem_cons.mpr ⟨?_, List.forall_mem_singleton.mpr ?_⟩⟩
    · refine Node.forall_mem_nodes.mpr ⟨⟨.deref, rfl, rfl⟩, List.forall_mem_singleton.mpr ?_⟩
      exact fun n hn => (hName "f" _ (by decide) n hn).1
    · exact fun n hn => (hMember n hn).1
  have hNames : member.stringNames = [] ∧ call.stringNames = [] := by
    simp [call, member, sum, Node.stringNames, Node.census_eq, Node.children, Node.stringStart?]
  obtain ⟨hRuns, hText⟩ := postfix_after_operator_iff (Draft.blank 4) member rfl fun n hn => (hMember n hn).1
  obtain ⟨hRuns', hText'⟩ := postfix_after_operator_iff (Draft.blank 4) call rfl hCall
  obtain ⟨d, hVisit⟩ := hRuns.mpr (by simp [hNames.1])
  obtain ⟨d', hVisit'⟩ := hRuns'.mpr (by simp [hNames.2])
  obtain ⟨text, hPage, hRead⟩ := hText d hVisit
  obtain ⟨text', hPage', hRead'⟩ := hText' d' hVisit'
  refine ⟨rfl, hCall, ⟨d, text, hVisit, hPage, hRead.mpr fun n hn => (hMember n hn).2⟩, d', text', hVisit', hPage', ?_⟩
  intro hNot
  exact absurd (hRead'.mp hNot call (Node.self_mem_nodes call)) (by decide)

/-- A member of a sum: the text is read as the sum of a name and a member. -/
theorem generate_member_of_sum :
    let member : Node := .dotIndex (.binaryOp "add" (.id "a" ⟨0, 1⟩) (.id "b" ⟨4, 5⟩) ⟨0, 5⟩) "x" ⟨0, 7⟩
    (generate ⟨4, .standard⟩ (.block [member] ⟨0, 7⟩)).result =
      .ok "int main() \x7b\n    a + b.x;\n    return 0;\n\x7d\n" ∧
    ∃ tokens, scan "a + b.x".toList = some tokens ∧
      (∀ c, Derives 0 tokens c ↔ c = .binary ['+'] (.name ['a']) (.member ['.'] (.name ['b']) ['x'])) ∧
      ¬ member.IsReadFrom "a + b.x".toList := by
  intro member
  have hName : ∀ w, isName w = true → Derives 12 [.word w] (.name w) := fun w hw => (Derives.name hw).up (by omega)
  have hMember : Derives 12 [.word ['b'], .mark ['.'], .word ['x']] (.member ['.'] (.name ['b']) ['x']) :=
    .member (by decide) (by decide) (hName ['b'] (by decide))
  have hSum : Derives 9 [.word ['a'], .mark ['+'], .word ['b'], .mark ['.'], .word ['x']]
      (.binary ['+'] (.name ['a']) (.member ['.'] (.name ['b']) ['x'])) :=
    .binary rfl ((hName ['a'] (by decide)).lower (by omega) (by omega)) (hMember.lower (by omega) (by omega))
  have hDerives := hSum.lower (Nat.zero_le 9) (by omega)
  have hScan : scan "a + b.x".toList = some [.word ['a'], .mark ['+'], .word ['b'], .mark ['.'], .word ['x']] := by
    decide +kernel
  refine ⟨by decide +kernel, _, hScan, fun c => ⟨fun h => h.unique hDerives, fun h => h ▸ hDerives⟩, ?_⟩
  rintro ⟨tokens, c, hScan', hDerives', hRead⟩
  obtain rfl := Option.some.inj (hScan.symm.trans hScan')
  rw [hDerives'.unique hDerives] at hRead
  simp only [member] at hRead
  cases hRead

end Lowering
