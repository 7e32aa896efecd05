import Lowering.Proofs.C.Breaks
import Lowering.Proofs.Prelude
import Lowering.Proofs.Returns

/-!
# Breaks

A break leaves the innermost loop around it. It is written as `break;`, and in C this leaves the innermost loop or switch.
So it does what it should exactly if no switch stands between the break and its loop; otherwise it leaves that switch only,
and the loop goes on.

* `Occurrence.loop?`, `Occurrence.caught?` — the loop that a break leaves, and the loop or switch that C leaves.
* `Node.traces_rows` — reading the lines of a statement finds its breaks and leaves the open constructs as they were.
* `break_leaves_innermost_loop_iff` — the breaks of a program; `generate_break_in_switch` is one that leaves a switch only.
-/

namespace Lowering

open Addition C

-- ---------------------------------------------------------------------------
-- Texts that start with a closing brace
-- ---------------------------------------------------------------------------

namespace Node

/-- The texts that are copied from a node to the start of what is written for it. -/
def copied : Node → List String
  | .id name _ => [name]
  | .label name _ => [name]
  | .number form _ _ => [form.text]
  | _ => []

/-- Nothing that is copied from the node looks like the end of a block. -/
def Unclosing (n : Node) : Prop :=
  ∀ s ∈ n.copied, closes s = false

instance (n : Node) : Decidable n.Unclosing :=
  inferInstanceAs (Decidable (∀ s ∈ _, _))

end Node

theorem closes_escapeName {name : String} (h : closes name = false) : closes (Target.escapeName name) = false := by
  unfold Target.escapeName
  split
  · exact closes_append h rfl
  · exact h

theorem closes_decimal (n : Nat) : closes (toString n) = false := by
  unfold closes
  rw [toList_decimal, decide_eq_false_iff_not]
  intro hHead
  exact absurd (isDigit_toDigits (List.mem_of_mem_head? hHead)) (by decide)

theorem closes_spelling {form : NumberForm} {spelling : String} (h : closes form.text = false)
    (hSpelling : form.spelling = .ok spelling) : closes spelling = false := by
  cases form with
  | integer digits | decimal digits | scientific mantissa exponent =>
    obtain rfl := Except.ok.inj hSpelling
    exact h
  | hex digits =>
    obtain rfl := Except.ok.inj hSpelling
    exact closes_append h rfl
  | binary digits =>
    rw [NumberForm.spelling] at hSpelling
    split at hSpelling
    · obtain rfl := Except.ok.inj hSpelling
      exact closes_append (closes_decimal _) rfl
    · simp at hSpelling

theorem closes_number {form : NumberForm} (h : closes form.text = false) {suffix : Option String} {n : ResolvedNumber}
    (hResolve : resolveNumber form suffix = .ok n) : closes n.text = false := by
  unfold ResolvedNumber.text
  split
  · simp only [String.append_assoc]
    exact closes_lead (by decide) _
  · exact closes_spelling h (parts_of_resolveNumber hResolve).1

theorem closes_typeSpelling (type : String) : closes (typeSpelling type) = false := by
  unfold typeSpelling
  cases hFind : Target.primitiveTypes.find? type with
  | none => decide
  | some found =>
    have hTable : ∀ e ∈ Target.primitiveTypes, closes e.2.spelling = false := by decide +kernel
    exact hTable (type, found) (mem_of_find? hFind)

theorem closes_unaryMark (op : String) : closes (unaryMark op) = false := by
  unfold unaryMark
  cases UnaryOp.ofName? op with
  | none => decide
  | some u => cases u <;> decide

namespace Node

/-- No expression starts with a closing brace. -/
theorem closes_textAt {n : Node} (hTag : n.tag.isExpression = true) (hSorted : ∀ m ∈ n.nodes, m.WellSorted)
    (h : ∀ m ∈ n.nodes, m.Unclosing) (p : Place) : closes (n.textAt p) = false := by
  induction n using childInduction generalizing p with
  | step n ih =>
    obtain ⟨hOwn, hBelow⟩ := forall_mem_nodes.mp h
    obtain ⟨hSelf, hSorted⟩ := forall_mem_nodes.mp hSorted
    have hPart : ∀ c ∈ n.expressionParts, ∀ q, closes (c.textAt q) = false := fun c hc q =>
      have hChild := mem_children_of_mem_expressionParts hc
      ih c hChild (hSelf.expressions c hc) (hSorted c hChild) (hBelow c hChild) q
    have hWrapped : ∀ (q : Place) (as : List Addition), closes (pageText as) = false →
        closes (pageText (q.wrapped as)) = false := by
      intro q as hText
      unfold Place.wrapped
      split
      · rw [pageText_append, pageText_append, pageText_text]
        exact closes_append (closes_append rfl hText) rfl
      · exact hText
    cases n with
    | number form suffix span =>
      rw [textAt, additions]
      cases hNumber : resolveNumber form suffix with
      | error cause =>
        rw [numberAdditions, hNumber]
        rfl
      | ok m =>
        rw [pageText_numberAdditions hNumber]
        exact closes_number (hOwn form.text (List.mem_singleton_self _)) hNumber
    | string value span =>
      rw [textAt, additions, pageText_stringAdditions]
      unfold recordText
      rw [String.append_assoc]
      exact closes_lead (by decide) _
    | boolean value span =>
      rw [textAt, additions, pageText_cons, pageText_text]
      cases value <;> decide
    | nil span =>
      rw [textAt, additions, pageText_cons, pageText_text]
      decide
    | varargs span => rfl
    | id name span =>
      rw [textAt, additions, pageText_text]
      exact closes_escapeName (hOwn name (List.mem_singleton_self name))
    | paren inner span =>
      rw [textAt, additions, List.append_assoc, pageText_append, pageText_text]
      exact closes_lead (by decide) _
    | dotIndex base field span =>
      rw [textAt, additions, pageText_append, pageText_text]
      exact closes_append (hPart base (by simp [expressionParts, children]) _) (closes_lead (by decide) _)
    | arrayIndex base index span =>
      rw [textAt, additions, List.append_assoc, List.append_assoc, pageText_append, pageText_append, pageText_text]
      exact closes_append (hPart base (by simp [expressionParts, children]) _) (closes_lead (by decide) _)
    | call callee args span =>
      cases hCallee : Expression.intrinsic? callee with
      | none =>
        rw [textAt, pageText_call hCallee]
        exact closes_append (hPart callee (by simp [expressionParts, children]) _) (closes_lead (by decide) _)
      | some intrinsic =>
        cases intrinsic
        rw [textAt, additions, hCallee]
        dsimp only
        rw [pageText_printAdditions, Print.helperName, String.append_assoc]
        exact closes_lead (by decide) _
    | unaryOp op operand span =>
      refine hWrapped _ _ ?_
      rw [pageText_append, pageText_text]
      exact closes_append (closes_unaryMark op) (hPart operand (by simp [expressionParts, children]) _)
    | binaryOp op lhs rhs span =>
      refine hWrapped _ _ ?_
      rw [List.append_assoc, pageText_append, pageText_append, pageText_text, String.append_assoc, String.append_assoc]
      exact closes_append (hPart lhs (by simp [expressionParts, children]) _) (closes_lead (by decide) _)
    | ternaryOp op first second third span =>
      refine hWrapped _ _ ?_
      simp only [List.append_assoc]
      rw [pageText_append, pageText_append, pageText_text, String.append_assoc, String.append_assoc]
      exact closes_append (hPart second (by simp [expressionParts, children]) _) (closes_lead (by decide) _)
    | _ => simp [tag, Tag.isExpression] at hTag

end Node

-- ---------------------------------------------------------------------------
-- What a break leaves
-- ---------------------------------------------------------------------------

/-- The loops that a break leaves. -/
def Node.isLoop (n : Node) : Bool :=
  n.tag = .whileLoop || n.tag = .repeatLoop || n.tag = .forNum

/-- Where C looks for what a break leaves. -/
def Node.catchesBreak (n : Node) : Bool :=
  n.isLoop || n.tag = .switch

/-- The first of some nodes, the innermost first, that is of a kind. -/
def innermost? (kind : Node → Bool) : List Node → Option Occurrence
  | [] => none
  | n :: above => if kind n then some ⟨above, n⟩ else innermost? kind above

namespace Occurrence

/-- The innermost loop around an occurrence. -/
def loop? (o : Occurrence) : Option Occurrence :=
  innermost? Node.isLoop o.above

/-- The innermost loop or switch around an occurrence. -/
def caught? (o : Occurrence) : Option Occurrence :=
  innermost? Node.catchesBreak o.above

/-- A break, with what it leaves in C. -/
def break? (o : Occurrence) : Option (Occurrence × Option Occurrence) :=
  if o.node.tag = .breakLoop then some (o, o.caught?) else none

end Occurrence

/-- The breaks in a tree, in their order, with what they leave in C. -/
def Node.breaksOn (above : List Node) (n : Node) : List (Occurrence × Option Occurrence) :=
  (n.occurrences above).filterMap Occurrence.break?

namespace Node

variable {above : List Node} {n : Node}

theorem breaksOn_of_ne (h : n.tag ≠ .breakLoop) : n.breaksOn above = n.children.flatMap (breaksOn (n :: above)) := by
  rw [breaksOn, filterMap_occurrences, Occurrence.break?, if_neg h]
  rfl

theorem breaksOn_breakLoop (span : Span) :
    (Node.breakLoop span).breaksOn above = [(⟨above, .breakLoop span⟩, innermost? catchesBreak above)] := by
  rw [breaksOn, filterMap_occurrences]
  rfl

/-- There is no break in an expression. -/
theorem breaksOn_of_isExpression (hTag : n.tag.isExpression = true) (hSorted : ∀ m ∈ n.nodes, m.WellSorted) :
    n.breaksOn above = [] := by
  rw [breaksOn, List.filterMap_eq_nil_iff]
  intro o ho
  have hExpression := isExpression_of_mem_nodes hTag hSorted _ (node_mem_nodes ho)
  rw [Occurrence.break?, if_neg]
  intro hBreak
  simp [hBreak, Tag.isExpression] at hExpression

end Node

-- ---------------------------------------------------------------------------
-- Reading lines
-- ---------------------------------------------------------------------------

/-- The line with the occurrence that it is written for as its mark. -/
def Row.marked (row : Row) : Occurrence × String :=
  (row.origin, row.text)

/-- Reading the lines finds these breaks of the program, and leads from constructs that are open to others. -/
structure Traces (braces : Braces Occurrence) (rows : List Row) (found : List (Occurrence × Option Occurrence))
    (braces' : Braces Occurrence) : Prop where
  found_eq : (breaks braces (rows.map Row.marked)).filter (fun b => b.1.node.tag = .breakLoop) = found
  braces_eq : (rows.map Row.marked).foldl Braces.after braces = braces'

namespace Traces

variable {braces braces' braces'' : Braces Occurrence} {rows rows' : List Row}
  {found found' : List (Occurrence × Option Occurrence)} {o : Occurrence}

theorem nil (braces : Braces Occurrence) : Traces braces [] [] braces :=
  ⟨rfl, rfl⟩

theorem append (h : Traces braces rows found braces') (h' : Traces braces' rows' found' braces'') :
    Traces braces (rows ++ rows') (found ++ found') braces'' where
  found_eq := by rw [List.map_append, breaks_append, h.braces_eq, List.filter_append, h.found_eq, h'.found_eq]
  braces_eq := by rw [List.map_append, List.foldl_append, h.braces_eq, h'.braces_eq]

/-- A line that is not written for a break. -/
theorem row (ho : o.node.tag ≠ .breakLoop) (level : Nat) {line : String} (h : braces.after (o, line) = braces') :
    Traces braces [⟨o, level, line⟩] [] braces' where
  found_eq := by
    simp only [List.map_cons, List.map_nil, Row.marked, breaks, List.append_nil]
    split
    · simp [ho]
    · rfl
  braces_eq := h

/-- A line before others, none of them written for a break of its own. -/
theorem cons (ho : o.node.tag ≠ .breakLoop) (level : Nat) {line : String} (h : braces.after (o, line) = braces')
    (h' : Traces braces' rows found braces'') : Traces braces (⟨o, level, line⟩ :: rows) found braces'' :=
  (row ho level h).append h'

/-- A body between the head and the end of a construct. -/
theorem framed (ho : o.node.tag ≠ .breakLoop) (level : Nat) {c : Construct} {first last : String} (hFirst : IsHead c first)
    (hLast : IsEnd last) (h : Traces ((c, o) :: braces) rows found ((c, o) :: braces)) :
    Traces braces (⟨o, level, first⟩ :: rows ++ [⟨o, level, last⟩]) found braces := by
  have hEnd : Traces ((c, o) :: braces) [⟨o, level, last⟩] [] braces := row ho level (braces.after_end o hLast)
  have hRows := (cons ho level (braces.after_head o hFirst) h).append hEnd
  rwa [List.append_nil] at hRows

theorem statements (ho : o.node.tag ≠ .breakLoop) {level : Nat} {lines : List String} (h : ∀ s ∈ lines, IsStatement s) :
    Traces braces (lines.map fun s => ⟨o, level, s⟩) [] braces := by
  induction lines with
  | nil => exact nil braces
  | cons s lines ih =>
    obtain ⟨hFirst, hRest⟩ := List.forall_mem_cons.mp h
    exact cons ho level (braces.after_statement o hFirst) (ih hRest)

end Traces

namespace Node

-- ---------------------------------------------------------------------------
-- Statements
-- ---------------------------------------------------------------------------

/-- Reading the lines of a node, with the constructs around it open, finds the breaks in it and leaves the constructs open. -/
def TracesBreaks (above : List Node) (n : Node) : Prop :=
  ∀ (p : Place) (braces : Braces Occurrence), braces.target? = innermost? catchesBreak above →
    Traces braces (n.rows above p) (n.breaksOn above) braces

section Parts

variable {o : Occurrence} {p : Place} {braces braces' base : Braces Occurrence} {last : List Row}

/-- A part in braces, from the line that opens them to the lines that close them. -/
theorem traces_part (ho : o.node.tag ≠ .breakLoop) (level : Nat) {first : String} {rows : List Row}
    {found : List (Occurrence × Option Occurrence)} (hFirst : braces.after (o, first) = (.other, o) :: base)
    (hBody : Traces ((.other, o) :: base) rows found ((.other, o) :: base))
    (hLast : Traces ((.other, o) :: base) last [] braces') :
    Traces braces (⟨o, level, first⟩ :: rows ++ last) found braces' := by
  have hRows := (Traces.cons ho level hFirst hBody).append hLast
  rwa [List.append_nil] at hRows

/-- Guarded parts that all start with the same words. -/
theorem traces_arms (ho : o.node.tag ≠ .breakLoop) {first after : String} {arms : List (Arm Node)}
    (hFirst : ∀ guard, braces.after (o, first ++ guard ++ after) = (.other, o) :: base)
    (hGuards : ∀ a ∈ arms, a.guard.breaksOn o.below = [])
    (hBodies : ∀ a ∈ arms, Traces ((.other, o) :: base) (a.body.rows o.below p.deeper) (a.body.breaksOn o.below)
      ((.other, o) :: base))
    (hLast : Traces ((.other, o) :: base) last [] braces) :
    Traces braces (armsRows o p first first after last arms)
      ((arms.flatMap fun a => [a.guard, a.body]).flatMap (breaksOn o.below)) braces := by
  induction arms with
  | nil => exact .nil braces
  | cons a rest ih =>
    obtain ⟨hGuard, hGuards⟩ := List.forall_mem_cons.mp hGuards
    obtain ⟨hBody, hBodies⟩ := List.forall_mem_cons.mp hBodies
    have hRows := (traces_part ho p.level (hFirst (a.guard.textAt p)) hBody hLast).append (ih hGuards hBodies)
    simpa [armsRows, hGuard] using hRows

/-- The last part, under no condition. -/
theorem traces_option (ho : o.node.tag ≠ .breakLoop) {first : String} {otherwise : Option Node}
    (hFirst : braces.after (o, first) = (.other, o) :: base)
    (hBody : ∀ c ∈ otherwise, Traces ((.other, o) :: base) (c.rows o.below p.deeper) (c.breaksOn o.below)
      ((.other, o) :: base))
    (hLast : Traces ((.other, o) :: base) last [] braces) :
    Traces braces (optionRows o p first last otherwise) (otherwise.toList.flatMap (breaksOn o.below)) braces := by
  cases otherwise with
  | none => exact .nil braces
  | some body => simpa [optionRows] using traces_part ho p.level hFirst (hBody body rfl) hLast

/-- The statements of a block. Each finds what is given for it. -/
theorem traces_statements {above statements : List Node} {found : Node → List (Occurrence × Option Occurrence)}
    (hTarget : braces.target? = innermost? catchesBreak above)
    (hExpressions : ∀ n ∈ statements, n.tag.isExpression = true → found n = [] ∧ ∀ q, closes (n.textAt q) = false)
    (hStatements : ∀ n ∈ statements, n.tag.isExpression = false → ∀ (q : Place) (braces : Braces Occurrence),
      braces.target? = innermost? catchesBreak above → Traces braces (n.rows above q) (found n) braces) :
    Traces braces (statementsRows above p statements) (statements.flatMap found) braces := by
  induction statements with
  | nil => exact .nil braces
  | cons n rest ih =>
    obtain ⟨hExpression, hExpressions⟩ := List.forall_mem_cons.mp hExpressions
    obtain ⟨hStatement, hStatements⟩ := List.forall_mem_cons.mp hStatements
    rw [statementsRows, List.flatMap_cons]
    refine Traces.append ?_ (ih hExpressions hStatements)
    by_cases hTag : n.tag.isExpression = true
    · obtain ⟨hFound, hText⟩ := hExpression hTag
      have hBreak : n.tag ≠ .breakLoop := fun hBreak => by simp [hBreak, Tag.isExpression] at hTag
      rw [if_pos hTag, hFound]
      exact .row hBreak p.level (braces.after_statement _ (isStatement_of (hText p)))
    · have hTraces := hStatement (by simpa using hTag)
      rw [if_neg hTag]
      by_cases hBlock : n.tag = .block
      · have hBreak : n.tag ≠ .breakLoop := by rw [hBlock]; decide
        rw [if_pos hBlock]
        exact .framed (c := .other) hBreak p.level ⟨by decide, by decide⟩ ⟨by decide, by decide⟩ (hTraces p.deeper _ hTarget)
      · rw [if_neg hBlock]
        exact hTraces p braces hTarget

end Parts

section Statements

variable {above : List Node} {n : Node}

theorem tracesBreaks_cond {branches : List (Arm Node)} {otherwise : Option Node} {span : Span}
    (hn : n = .cond branches otherwise span) (hSome : branches ≠ [])
    (hInline : ∀ c ∈ n.expressionParts, c.breaksOn (n :: above) = [])
    (hBlocks : ∀ c ∈ n.blockParts, c.TracesBreaks (n :: above)) : n.TracesBreaks above := by
  intro p braces hTarget
  subst hn
  let o : Occurrence := ⟨above, .cond branches otherwise span⟩
  have ho : o.node.tag ≠ .breakLoop := by simp [o, tag]
  have hGuards : ∀ a ∈ branches, a.guard.breaksOn o.below = [] := fun a ha => hInline a.guard (List.mem_map_of_mem ha)
  have hBodies : ∀ c ∈ branches.map Arm.body ++ otherwise.toList, Traces ((.other, o) :: braces)
      (c.rows o.below (p.descend .cond).deeper) (c.breaksOn o.below) ((.other, o) :: braces) :=
    fun c hc => hBlocks c hc _ _ hTarget
  have hElse : Traces ((.other, o) :: braces) (optionRows o (p.descend .cond) "\x7d else \x7b" [] otherwise)
      (otherwise.toList.flatMap (breaksOn o.below)) ((.other, o) :: braces) :=
    traces_option ho (braces.after_turn o ⟨by decide, by decide⟩)
      (fun c hc => hBodies c (List.mem_append_right _ (Option.mem_toList.mpr hc))) (.nil _)
  have hEnd : Traces ((.other, o) :: braces) [⟨o, p.level, "\x7d"⟩] [] braces :=
    .row ho p.level (braces.after_end o ⟨by decide, by decide⟩)
  cases branches with
  | nil => exact absurd rfl hSome
  | cons a rest =>
    obtain ⟨hGuard, hGuards⟩ := List.forall_mem_cons.mp hGuards
    have hFirst := traces_part ho (p.descend .cond).level
      (braces.after_head o (isHead_of "if (" ") \x7b" (fun _ => rfl) rfl (by decide)
        (a.guard.textAt (p.descend .cond))))
      (hBodies a.body (by simp)) (.nil _)
    have hRest : Traces ((.other, o) :: braces)
        (armsRows o (p.descend .cond) "\x7d else if (" "\x7d else if (" ") \x7b" [] rest) _ ((.other, o) :: braces) :=
      traces_arms ho (fun guard => braces.after_turn o (isTurn_of _ _ (fun _ => rfl) rfl (by decide) guard)) hGuards
        (fun b hb => hBodies b.body (by simp [List.mem_map_of_mem hb])) (.nil _)
    have hInline : a.guard.breaksOn (.cond (a :: rest) otherwise span :: above) = [] := hGuard
    rw [breaksOn_of_ne ho]
    simpa [rows, armsRows, children, hInline, Occurrence.below, o] using ((hFirst.append hRest).append hElse).append hEnd

theorem tracesBreaks_switch {subject : Node} {cases : List (Arm Node)} {otherwise : Option Node} {span : Span}
    (hn : n = .switch subject cases otherwise span)
    (hInline : ∀ c ∈ n.expressionParts, c.breaksOn (n :: above) = [])
    (hBlocks : ∀ c ∈ n.blockParts, c.TracesBreaks (n :: above)) : n.TracesBreaks above := by
  intro p braces hTarget
  subst hn
  let o : Occurrence := ⟨above, .switch subject cases otherwise span⟩
  let inside : Braces Occurrence := (.switch, o) :: braces
  let q := (p.descend .switch).deeper
  let last : List Row := [⟨o, q.deeper.level, "break;"⟩, ⟨o, q.level, "\x7d"⟩]
  have ho : o.node.tag ≠ .breakLoop := by simp [o, tag]
  have hGuards : ∀ a ∈ cases, a.guard.breaksOn o.below = [] := fun a ha =>
    hInline a.guard (List.mem_cons_of_mem _ (List.mem_map_of_mem ha))
  have hBodies : ∀ c ∈ cases.map Arm.body ++ otherwise.toList,
      Traces ((.other, o) :: inside) (c.rows o.below q.deeper) (c.breaksOn o.below) ((.other, o) :: inside) :=
    fun c hc => hBlocks c hc _ _ rfl
  have hLast : Traces ((.other, o) :: inside) last [] inside :=
    .cons ho _ (Braces.after_statement _ o ⟨by decide, by decide⟩) (.row ho _ (inside.after_end o ⟨by decide, by decide⟩))
  have hCases := traces_arms (p := q) ho
    (fun guard => inside.after_head o (isHead_of "case " ": \x7b" (fun _ => rfl) rfl (by decide) guard))
    hGuards (fun a ha => hBodies a.body (List.mem_append_left _ (List.mem_map_of_mem ha))) hLast
  have hDefault : Traces inside (optionRows o q "default: \x7b" last otherwise) _ inside :=
    traces_option ho (inside.after_head o ⟨by decide, by decide⟩)
      (fun c hc => hBodies c (List.mem_append_right _ (Option.mem_toList.mpr hc))) hLast
  have hEnd : IsEnd "\x7d" := ⟨by decide, by decide⟩
  have hRows := Traces.framed ho p.level
    (isHead_of "switch (" ") \x7b" (fun _ => rfl) rfl (by decide) (subject.textAt (p.descend .switch)))
    hEnd (hCases.append hDefault)
  rw [breaksOn_of_ne ho]
  simpa [rows, children, hInline subject (by simp [expressionParts]), Occurrence.below, o] using hRows

/-- The lines of a declaration. -/
theorem isStatement_declarationTexts (p : Place) (mutability : Mutability) (vars : List TypedName) (values : List Node) :
    ∀ s ∈ declarationTexts p ((Declaration.qualifier? mutability).getD "") vars values, IsStatement s := by
  have hText : ∀ var value, IsStatement (declarationText p ((Declaration.qualifier? mutability).getD "") var value) := by
    intro var value
    refine isStatement_of ?_
    have hQualifier : closes ((Declaration.qualifier? mutability).getD "") = false := by cases mutability <;> decide
    simp only [String.append_assoc]
    exact closes_append (closes_typeSpelling _) (closes_append hQualifier (closes_lead (by decide) _))
  induction vars generalizing values with
  | nil => simp [declarationTexts]
  | cons var vars ih =>
    cases values with
    | nil => exact List.forall_mem_cons.mpr ⟨hText var none, ih []⟩
    | cons value values => exact List.forall_mem_cons.mpr ⟨hText var (some value), ih values⟩

/-- The lines of an assignment. -/
theorem isStatement_storeTexts {p : Place} {targets values : List Node} (h : ∀ t ∈ targets, closes (t.textAt p) = false) :
    ∀ s ∈ storeTexts p targets values, IsStatement s := by
  induction targets generalizing values with
  | nil => simp [storeTexts]
  | cons target targets ih =>
    obtain ⟨hFirst, hRest⟩ := List.forall_mem_cons.mp h
    cases values with
    | nil => simp [storeTexts]
    | cons value values =>
      refine List.forall_mem_cons.mpr ⟨isStatement_of ?_, ih hRest⟩
      rw [String.append_assoc]
      exact closes_append hFirst (closes_lead (by decide) _)

/-- The header of a numeric loop. -/
theorem isHead_loopText (p : Place) (type name : String) (first last : Node) (step : Option Node) :
    IsHead .loop (loopText p type name first last step) := by
  have hLast : (loopText p type name first last step).toList.getLast? = some '{' := by
    simp only [loopText, loopEnd, String.toList_append, List.getLast?_append]
    rfl
  refine ⟨closes_lead (by decide) _, ?_⟩
  rw [opened?, if_pos hLast, loopText, String.toList_append]
  rfl

/-- One case for each kind of statement that is written on the page. -/
theorem tracesBreaks_of_children {depth : Nat} (hSound : n.Sound depth) (hSorted : n.WellSorted) (hUnclosing : n.Unclosing)
    (hExpressions : ∀ c ∈ n.children, c.tag.isExpression = true →
      c.breaksOn (n :: above) = [] ∧ ∀ q, closes (c.textAt q) = false)
    (hStatements : ∀ c ∈ n.children, c.tag.isExpression = false → c.TracesBreaks (n :: above))
    (hFunction : n.tag ≠ .funcDef) (hTag : n.tag.isExpression = false) : n.TracesBreaks above := by
  have hInline : ∀ c ∈ n.expressionParts, c.breaksOn (n :: above) = [] := fun c hc =>
    (hExpressions c (mem_children_of_mem_expressionParts hc) (hSorted.expressions c hc)).1
  have hBlocks : ∀ c ∈ n.blockParts, c.TracesBreaks (n :: above) := fun c hc =>
    hStatements c (mem_children_of_mem_blockParts hc) (by rw [hSorted.blocks c hc]; rfl)
  have hText : ∀ c ∈ n.expressionParts, ∀ q, closes (c.textAt q) = false := fun c hc =>
    (hExpressions c (mem_children_of_mem_expressionParts hc) (hSorted.expressions c hc)).2
  have hEnd : IsEnd "\x7d" := ⟨by decide, by decide⟩
  -- statements without blocks
  have hSimple : n.tag ≠ .breakLoop → n.children = n.expressionParts →
      (∀ p : Place, ∃ lines : List String,
        n.rows above p = lines.map (fun s => ⟨⟨above, n⟩, p.level, s⟩) ∧ ∀ s ∈ lines, IsStatement s) →
      n.TracesBreaks above := by
    intro hBreak hParts hRows p braces _
    obtain ⟨lines, hEq, hLines⟩ := hRows p
    rw [hEq, breaksOn_of_ne hBreak, hParts, List.flatMap_eq_nil_iff.mpr hInline]
    exact .statements hBreak hLines
  have hSingle : n.tag ≠ .breakLoop → n.children = n.expressionParts →
      (∀ p : Place, ∃ line : String, n.rows above p = [⟨⟨above, n⟩, p.level, line⟩] ∧ IsStatement line) →
      n.TracesBreaks above := by
    intro hBreak hParts hRow
    refine hSimple hBreak hParts fun p => ?_
    obtain ⟨line, hEq, hLine⟩ := hRow p
    exact ⟨[line], hEq, List.forall_mem_singleton.mpr hLine⟩
  cases n with
  | block statements span =>
    intro p braces hTarget
    rw [breaksOn_of_ne (by simp [tag]), rows]
    exact traces_statements hTarget hExpressions hStatements
  | ret values span =>
    refine hSingle (by simp [tag]) rfl fun p => ⟨_, rfl, ?_⟩
    cases values with
    | nil =>
      cases hMain : (p.descend .ret).inMain with
      | true => rw [returnText, if_pos hMain]; exact ⟨by decide, by decide⟩
      | false => rw [returnText, if_neg (by simp [hMain])]; exact ⟨by decide, by decide⟩
    | cons value values => exact isStatement_of (closes_lead (by decide) _)
  | cond branches otherwise span => exact tracesBreaks_cond rfl hSound hInline hBlocks
  | switch subject cases otherwise span => exact tracesBreaks_switch rfl hInline hBlocks
  | «scoped» body span =>
    intro p braces hTarget
    have hBody := hBlocks body (by simp [blockParts]) (p.descend .scoped).deeper
    have hHead : IsHead .other "\x7b" := ⟨by decide, by decide⟩
    rw [breaksOn_of_ne (by simp [tag]), rows]
    simpa [children, Occurrence.below] using Traces.framed (by simp [tag]) p.level hHead hEnd (hBody _ hTarget)
  | whileLoop guard body span =>
    intro p braces hTarget
    have hGuard := hInline guard (by simp [expressionParts])
    have hBody := hBlocks body (by simp [blockParts]) (p.descend .whileLoop).deeper
    have hHead := isHead_of "while (" ") \x7b" (fun _ => rfl) rfl (by decide) (guard.textAt (p.descend .whileLoop))
    rw [breaksOn_of_ne (by simp [tag]), rows]
    simpa [children, hGuard, Occurrence.below] using Traces.framed (by simp [tag]) p.level hHead hEnd (hBody _ rfl)
  | repeatLoop body guard span =>
    intro p braces hTarget
    have hGuard := hInline guard (by simp [expressionParts])
    have hBody := hBlocks body (by simp [blockParts]) (p.descend .repeatLoop).deeper
    have hHead : IsHead .loop "do \x7b" := ⟨by decide, by decide⟩
    have hLast : IsEnd ("\x7d while (!(" ++ guard.textAt (p.descend .repeatLoop) ++ "));") := by
      refine ⟨?_, opened?_eq_none (c := ';') rfl (by decide)⟩
      rw [String.append_assoc, closes_append_of_ne (by decide)]
      decide
    rw [breaksOn_of_ne (by simp [tag]), rows]
    simpa [children, hGuard, Occurrence.below] using Traces.framed (by simp [tag]) p.level hHead hLast (hBody _ rfl)
  | forNum var first comparator last step body span =>
    intro p braces hTarget
    have hFirst := hInline first (by simp [expressionParts])
    have hLast := hInline last (by simp [expressionParts])
    have hStep := List.flatMap_eq_nil_iff.mpr fun c (hc : c ∈ step.toList) => hInline c (List.mem_append_right _ hc)
    have hBody := hBlocks body (by simp [blockParts]) (p.descend .forNum).deeper
    have hHead := isHead_loopText (p.descend .forNum) ((typeName? var (some first)).getD "") (Target.escapeName var.name)
      first last step
    rw [breaksOn_of_ne (by simp [tag]), rows]
    simpa [children, hFirst, hLast, hStep, Occurrence.below] using
      Traces.framed (by simp [tag]) p.level hHead hEnd (hBody _ rfl)
  | forIn vars exprs body span => exact hSound.elim
  | breakLoop span =>
    intro p braces hTarget
    have hLine : IsStatement "break;" := ⟨by decide, by decide⟩
    rw [breaksOn_breakLoop]
    exact ⟨by simp [rows, Row.marked, breaks, hTarget, tag], braces.after_statement _ hLine⟩
  | continueLoop span => exact hSingle (by simp [tag]) rfl fun p => ⟨_, rfl, by decide, by decide⟩
  | label name span =>
    refine hSingle (by simp [tag]) rfl fun p => ⟨_, rfl, ?_⟩
    have hName := closes_escapeName (hUnclosing name (by simp [copied]))
    exact ⟨closes_append hName (by decide), opened?_eq_none (t := ":;") (c := ';') rfl (by decide)⟩
  | goto target span => exact hSingle (by simp [tag]) rfl fun p => ⟨_, rfl, isStatement_of (closes_lead (by decide) _)⟩
  | varDecl visibility mutability vars values span =>
    exact hSimple (by simp [tag]) rfl fun p => ⟨_, rfl, isStatement_declarationTexts _ mutability vars values⟩
  | assign targets values span =>
    refine hSimple (by simp [tag]) rfl fun p => ⟨_, rfl, isStatement_storeTexts fun t ht => ?_⟩
    exact hText t (mem_alternate.mpr (Or.inl ht)) _
  | funcDef visibility name params returns body span => exact absurd rfl hFunction
  | _ => simp [tag, Tag.isExpression] at hTag

/-- Reading the lines of a statement finds the breaks in it. -/
theorem traces_rows {depth : Nat} (hSoundAt : n.SoundAt depth) (hSorted : ∀ m ∈ n.nodes, m.WellSorted)
    (hUnclosing : ∀ m ∈ n.nodes, m.Unclosing) (hTag : n.tag.isExpression = false) (hFunction : n.tag ≠ .funcDef)
    (hDepth : depth ≠ 0) : n.TracesBreaks above := by
  induction n using childInduction generalizing depth above with
  | step n ih =>
    obtain ⟨hSound, hBelow⟩ := soundAt_iff.mp hSoundAt
    obtain ⟨hSelf, hSorted⟩ := forall_mem_nodes.mp hSorted
    obtain ⟨hOwn, hUnclosing⟩ := forall_mem_nodes.mp hUnclosing
    refine tracesBreaks_of_children hSound hSelf hOwn (fun c hc hTag => ?_) (fun c hc hTag => ?_) hFunction hTag
    · exact ⟨breaksOn_of_isExpression hTag (hSorted c hc), closes_textAt hTag (hSorted c hc) (hUnclosing c hc)⟩
    · refine ih c hc (hBelow c hc) (hSorted c hc) (hUnclosing c hc) hTag ?_ (by omega)
      -- functions stand in the outermost block only
      by_cases hScopes : n.ownScopes = 0
      · intro hNested
        rcases isExpression_or_block hSound hSelf hScopes hc with hExpression | hBlock
        · rw [hTag] at hExpression
          cases hExpression
        · rw [hBlock] at hNested
          cases hNested
      · exact tag_ne_funcDef (hBelow c hc) (by omega) c (self_mem_nodes c)

end Statements

end Node

-- ---------------------------------------------------------------------------
-- Loops and switches around a break
-- ---------------------------------------------------------------------------

theorem of_innermost? {kind : Node → Bool} {above : List Node} {o : Occurrence} (h : innermost? kind above = some o) :
    kind o.node = true := by
  induction above with
  | nil => cases h
  | cons n above ih =>
    rw [innermost?] at h
    split at h
    · obtain rfl := Option.some.inj h
      assumption
    · exact ih h

/-- Inside of a loop a break leaves something in C, and that is the loop if there is no switch before it. -/
theorem exists_caught {o loop : Occurrence} (h : o.loop? = some loop) :
    ∃ target, o.caught? = some target ∧
      (target = loop ↔ ∀ n ∈ o.above.takeWhile (fun n => !n.isLoop), n.tag ≠ .switch) := by
  obtain ⟨above, node⟩ := o
  simp only [Occurrence.loop?, Occurrence.caught?] at *
  induction above with
  | nil => cases h
  | cons n above ih =>
    rw [innermost?] at h ⊢
    by_cases hLoop : n.isLoop = true
    · rw [if_pos hLoop] at h
      obtain rfl := Option.some.inj h
      exact ⟨⟨above, n⟩, if_pos (by simp [Node.catchesBreak, hLoop]), by simp [hLoop]⟩
    · rw [if_neg hLoop] at h
      rw [List.takeWhile_cons_of_pos (by simpa using hLoop), List.forall_mem_cons]
      by_cases hSwitch : n.tag = .switch
      · refine ⟨⟨above, n⟩, if_pos (by simp [Node.catchesBreak, hSwitch]), fun hSame => ?_, fun hNone => ?_⟩
        · subst hSame
          exact absurd (of_innermost? h) hLoop
        · exact absurd hSwitch hNone.1
      · obtain ⟨target, hTarget, hIff⟩ := ih h
        refine ⟨target, ?_, hIff.trans ⟨fun hRest => ⟨hSwitch, hRest⟩, And.right⟩⟩
        rw [if_neg (by simp [Node.catchesBreak, hLoop, hSwitch]), hTarget]

theorem mem_breaksOn_iff {above : List Node} {n : Node} {b : Occurrence × Option Occurrence} :
    b ∈ n.breaksOn above ↔ b.1 ∈ n.occurrences above ∧ b.1.node.tag = .breakLoop ∧ b.2 = b.1.caught? := by
  obtain ⟨o, t⟩ := b
  simp only [Node.breaksOn, List.mem_filterMap, Occurrence.break?, Option.ite_none_right_eq_some, Option.some.injEq,
    Prod.mk.injEq]
  constructor
  · rintro ⟨o, ho, hBreak, rfl, rfl⟩
    exact ⟨ho, hBreak, rfl⟩
  · rintro ⟨ho, hBreak, rfl⟩
    exact ⟨o, ho, hBreak, rfl, rfl⟩

-- ---------------------------------------------------------------------------
-- Programs
-- ---------------------------------------------------------------------------

/-- The lines between the braces of the entry point or of a function, which stand in the text of the program. -/
inductive IsBody (width : Nat) (root : Node) (text : String) : List Row → Prop where
  | main {statements : List Node} {span : Span} {last : String} (hRoot : root = .block statements span)
    (hLast : last = "" ∨ last = Page.indentation 1 width ++ "return 0;\n")
    (hText : (functionText "int main()"
      (Row.renderAll width (mainRows width statements span) ++ last)).toList <:+: text.toList) :
    IsBody width root text (mainRows width statements span)
  | function {o : Occurrence} {visibility : Visibility} {name : String} {params : List TypedName} {returns : List String}
    {body : Node} {span : Span} (ho : o ∈ root.occurrences [])
    (hNode : o.node = .funcDef visibility name params returns body span)
    (hText : (functionText (functionSignature name params returns)
      (Row.renderAll width (functionRows width o body))).toList <:+: text.toList) :
    IsBody width root text (functionRows width o body)

theorem Draft.toList_infix_finish {d : Draft} {s : String} (hs : s ∈ d.parts) : s.toList <:+: d.finish.toList := by
  by_cases hEmpty : s = ""
  · rw [hEmpty]
    exact List.nil_infix
  · rw [Draft.finish_eq, String.toList_intercalate]
    exact infix_intercalate_of_mem _ (List.mem_map_of_mem (List.mem_filter.mpr ⟨hs, by simpa using hEmpty⟩))

section Program

variable (width : Nat) {statements : List Node} {span : Span} (hSoundAt : ∀ n ∈ statements, n.SoundAt 1)
  (hSorted : ∀ n ∈ statements, ∀ m ∈ n.nodes, m.WellSorted) (hUnclosing : ∀ n ∈ statements, ∀ m ∈ n.nodes, m.Unclosing)

include hSoundAt hSorted hUnclosing

/-- Functions do not show in the entry point. -/
theorem traces_mainRows : Traces [] (mainRows width statements span)
    (statements.flatMap fun n => if n.tag = .funcDef then [] else n.breaksOn [.block statements span]) [] := by
  refine Node.traces_statements rfl (fun n hn hTag => ?_) (fun n hn hTag => ?_)
  · refine ⟨?_, Node.closes_textAt hTag (hSorted n hn) (hUnclosing n hn)⟩
    split
    · rfl
    · exact Node.breaksOn_of_isExpression hTag (hSorted n hn)
  · by_cases hFunction : n.tag = .funcDef
    · intro q braces _
      rw [if_pos hFunction]
      cases n with
      | funcDef visibility name params returns body span => exact .nil braces
      | _ => simp [Node.tag] at hFunction
    · rw [if_neg hFunction]
      exact Node.traces_rows (hSoundAt n hn) (hSorted n hn) (hUnclosing n hn) hTag hFunction (by decide)

theorem traces_functionRows {visibility : Visibility} {name : String} {params : List TypedName} {returns : List String}
    {body : Node} {at_ : Span} (hMem : .funcDef visibility name params returns body at_ ∈ statements) :
    let o : Occurrence := ⟨[.block statements span], .funcDef visibility name params returns body at_⟩
    Traces [] (functionRows width o body) (body.breaksOn o.below) [] := by
  intro o
  obtain ⟨hSound, hInside, hTag⟩ := body_of_funcDef hSoundAt hSorted hMem
  have hTexts := (Node.forall_mem_nodes.mp (hUnclosing _ hMem)).2 body (List.mem_singleton_self body)
  exact Node.traces_rows hSound hInside hTexts hTag (Node.tag_ne_funcDef hSound le_rfl body (Node.self_mem_nodes body))
    (by decide) _ _ rfl

variable {d : Draft} (hShows : d.Shows width statements (Listing.ofStatements width statements))
include hShows

omit hUnclosing in
theorem isBody_main : IsBody width (.block statements span) d.finish (mainRows width statements span) := by
  let last := if ∀ n ∈ statements, n.tag ≠ .ret then Page.indentation 1 width ++ "return 0;\n" else ""
  have hPage : d.page.text = functionText "int main()" (Row.renderAll width (mainRows width statements span) ++ last) := by
    refine (hShows.main.trans (@entryPointText_eq width statements span hSoundAt hSorted)).trans ?_
    simp only [functionText, String.append_assoc]
    rfl
  have hLast : last = "" ∨ last = Page.indentation 1 width ++ "return 0;\n" := by
    by_cases hRet : ∀ n ∈ statements, n.tag ≠ .ret
    · exact Or.inr (if_pos hRet)
    · exact Or.inl (if_neg hRet)
  have hPart : (d.sections.entryPoint ++ d.page.text).toList <:+: d.finish.toList :=
    Draft.toList_infix_finish (by simp [Draft.parts])
  rw [String.toList_append, hPage] at hPart
  exact .main rfl hLast ((List.suffix_append _ _).isInfix.trans hPart)

omit hUnclosing in
theorem isBody_function {visibility : Visibility} {name : String} {params : List TypedName} {returns : List String}
    {body : Node} {at_ : Span} (hMem : .funcDef visibility name params returns body at_ ∈ statements) :
    let o : Occurrence := ⟨[.block statements span], .funcDef visibility name params returns body at_⟩
    IsBody width (.block statements span) d.finish (functionRows width o body) := by
  intro o
  have hOccurrence : o ∈ (Node.block statements span).occurrences [] := by
    rw [Node.occurrences_eq]
    exact List.mem_cons_of_mem _ (List.mem_flatMap.mpr ⟨_, hMem, Node.self_mem_occurrences _ _⟩)
  have hPart : d.sections.definitions.toList <:+: d.finish.toList := Draft.toList_infix_finish (by simp [Draft.parts])
  rw [hShows.functions, String.toList_intercalate] at hPart
  have hText := functionText_mem_definitions width hSoundAt hSorted hMem o.above
  exact .function hOccurrence rfl ((infix_intercalate_of_mem _ (List.mem_map_of_mem hText)).trans hPart)

/-- Every break of a program stands on one of its pages, and reading that page finds what it leaves. -/
theorem exists_traces {o : Occurrence} (ho : o ∈ (Node.block statements span).occurrences [])
    (hBreak : o.node.tag = .breakLoop) :
    ∃ rows found, IsBody width (.block statements span) d.finish rows ∧ Traces [] rows found [] ∧
      (o, o.caught?) ∈ found ∧ ∀ b ∈ found, b.2 = b.1.caught? := by
  rw [Node.occurrences_eq, List.mem_cons, List.mem_flatMap] at ho
  rcases ho with rfl | ⟨n, hn, ho⟩
  · cases hBreak
  · by_cases hFunction : n.tag = .funcDef
    · cases n with
      | funcDef visibility name params returns body at_ =>
        rw [Node.occurrences_eq, List.mem_cons, Node.children, List.flatMap_singleton] at ho
        rcases ho with rfl | ho
        · cases hBreak
        · exact ⟨_, _, isBody_function width hSoundAt hSorted hShows hn,
            traces_functionRows width hSoundAt hSorted hUnclosing hn, mem_breaksOn_iff.mpr ⟨ho, hBreak, rfl⟩,
            fun b hb => (mem_breaksOn_iff.mp hb).2.2⟩
      | _ => simp [Node.tag] at hFunction
    · refine ⟨_, _, isBody_main width hSoundAt hSorted hShows, traces_mainRows width hSoundAt hSorted hUnclosing, ?_,
        fun b hb => ?_⟩
      · refine List.mem_flatMap.mpr ⟨n, hn, ?_⟩
        rw [if_neg hFunction]
        exact mem_breaksOn_iff.mpr ⟨ho, hBreak, rfl⟩
      · obtain ⟨m, -, hb⟩ := List.mem_flatMap.mp hb
        split at hb
        · cases hb
        · exact (mem_breaksOn_iff.mp hb).2.2

end Program

/-- **Breaks.** In the file of a program whose names and numbers do not start with a closing brace, a break inside of a loop
leaves a loop or a switch of the body it stands in. That is its own loop exactly if no switch stands between the two. -/
theorem break_leaves_innermost_loop_iff (width : Nat) {root : Node} {text : String}
    (h : (generate { width } root).result = .ok text) (hSorted : ∀ n ∈ root.nodes, n.WellSorted)
    (hUnclosing : ∀ n ∈ root.nodes, n.Unclosing) {o loop : Occurrence} (ho : o ∈ root.occurrences [])
    (hBreak : o.node.tag = .breakLoop) (hLoop : o.loop? = some loop) :
    ∃ rows target, IsBody width root text rows ∧
      (o, some target) ∈ breaks [] (rows.map Row.marked) ∧
      (∀ t, (o, t) ∈ breaks [] (rows.map Row.marked) → t = some target) ∧
      (target = loop ↔ ∀ n ∈ o.above.takeWhile (fun n => !n.isLoop), n.tag ≠ .switch) := by
  obtain ⟨hLowerable, -⟩ := generate_eq_ok_iff.mp h
  obtain ⟨target, hTarget, hIff⟩ := exists_caught hLoop
  cases root with
  | block statements span =>
    have hSoundAt := (lowerable_block_iff.mp hLowerable).1
    obtain ⟨d, -, hResult, hShows⟩ := writtenAs_of_lowerable hLowerable width
    obtain rfl : text = d.finish := Except.ok.inj (h.symm.trans hResult)
    obtain ⟨rows, found, hBody, hTraces, hMem, hFound⟩ := exists_traces width hSoundAt (Node.forall_mem_nodes.mp hSorted).2
      (Node.forall_mem_nodes.mp hUnclosing).2 hShows ho hBreak
    have hBreaks : ∀ t, (o, t) ∈ breaks [] (rows.map Row.marked) ↔ (o, t) ∈ found := by
      intro t
      rw [← hTraces.found_eq, List.mem_filter]
      exact ⟨fun ht => ⟨ht, by simpa using hBreak⟩, And.left⟩
    rw [hTarget] at hMem
    exact ⟨rows, target, hBody, (hBreaks _).mpr hMem, fun t ht => (hFound _ ((hBreaks t).mp ht)).trans hTarget, hIff⟩
  | _ => exact absurd hLowerable.block (by simp [Node.tag])

/-- A loop that is left in a branch. -/
def branchBreak : Node :=
  .block [
    .whileLoop (.boolean true ⟨6, 10⟩) (.block [
      .cond [⟨.boolean true ⟨17, 21⟩, .block [.breakLoop ⟨27, 32⟩] ⟨27, 32⟩⟩] none ⟨14, 36⟩] ⟨14, 36⟩) ⟨0, 40⟩] ⟨0, 40⟩

theorem break_leaves_innermost_loop_iff_branch :
    ∃ o loop : Occurrence, o ∈ branchBreak.occurrences [] ∧ o.node = .breakLoop ⟨27, 32⟩ ∧ o.loop? = some loop ∧
      ∃ text rows, (generate ⟨2, .standard⟩ branchBreak).result = .ok text ∧ IsBody 2 branchBreak text rows ∧
        (o, some loop) ∈ breaks [] (rows.map Row.marked) := by
  have hNodes : ∀ n ∈ branchBreak.nodes, n.WellSorted ∧ n.Unclosing := by
    simp only [branchBreak, Node.nodes_eq, Node.children, List.flatMap_cons, List.flatMap_nil, List.append_nil,
      List.cons_append, List.nil_append, Option.toList_none]
    decide
  obtain ⟨o, ho, hNode, loop, hLoop, hBetween⟩ : ∃ o ∈ branchBreak.occurrences [], o.node = .breakLoop ⟨27, 32⟩ ∧
      ∃ loop, o.loop? = some loop ∧ ∀ n ∈ o.above.takeWhile (fun n => !n.isLoop), n.tag ≠ .switch := by
    simp [branchBreak, Node.occurrences_eq, Node.children, Occurrence.loop?, innermost?, Node.isLoop, Node.tag]
  obtain ⟨text, hText⟩ : ∃ text, (generate ⟨2, .standard⟩ branchBreak).result = .ok text :=
    exists_text_of_isOk (by decide +kernel)
  obtain ⟨rows, target, hBody, hMem, -, hIff⟩ := break_leaves_innermost_loop_iff 2 hText (fun n hn => (hNodes n hn).1)
    (fun n hn => (hNodes n hn).2) ho (by rw [hNode]; rfl) hLoop
  obtain rfl := hIff.mpr hBetween
  exact ⟨o, target, ho, hNode, hLoop, text, rows, hText, hBody, hMem⟩

/-- A switch with a break in its only case. -/
def breakingSwitch : Node :=
  .switch (.number (.integer "1") none ⟨21, 22⟩)
    [⟨.number (.integer "1") none ⟨28, 29⟩, .block [.breakLoop ⟨35, 40⟩] ⟨35, 40⟩⟩] none ⟨14, 44⟩

/-- The loop that this break should leave. -/
def unbrokenLoop : Node :=
  .whileLoop (.boolean true ⟨6, 10⟩) (.block [breakingSwitch] ⟨14, 44⟩) ⟨0, 48⟩

/-- What is written for the loop. -/
def unbrokenLoopText : String :=
  "    while (true) \x7b\n        switch (1) \x7b\n            case 1: \x7b\n"
    ++ "                break;\n                break;\n            \x7d\n        \x7d\n    \x7d\n"

/-- The break leaves the switch, and the loop goes on. -/
theorem generate_break_in_switch :
    (generate ⟨4, .standard⟩ (.block [unbrokenLoop] ⟨0, 48⟩)).result =
      .ok ("#include <stdbool.h>\n#include <stdint.h>\n\nint main() \x7b\n" ++ unbrokenLoopText
        ++ "    return 0;\n\x7d\n") ∧
    Row.renderAll 4 (mainRows 4 [unbrokenLoop] ⟨0, 48⟩) = unbrokenLoopText ∧
    ∃ o ∈ (Node.block [unbrokenLoop] ⟨0, 48⟩).occurrences [], o.node = .breakLoop ⟨35, 40⟩ ∧
      o.loop?.map Occurrence.node = some unbrokenLoop ∧
      ∃ target, (o, some target) ∈ breaks [] ((mainRows 4 [unbrokenLoop] ⟨0, 48⟩).map Row.marked) ∧
        target.node = breakingSwitch := by
  refine ⟨?_, ?_, ⟨[.block [.breakLoop ⟨35, 40⟩] ⟨35, 40⟩, breakingSwitch, .block [breakingSwitch] ⟨14, 44⟩, unbrokenLoop,
    .block [unbrokenLoop] ⟨0, 48⟩], .breakLoop ⟨35, 40⟩⟩, ?_, rfl, rfl,
    ⟨[.block [breakingSwitch] ⟨14, 44⟩, unbrokenLoop, .block [unbrokenLoop] ⟨0, 48⟩], breakingSwitch⟩, ?_, rfl⟩
  · decide +kernel
  · rfl
  · simp [unbrokenLoop, breakingSwitch, Node.occurrences_eq, Node.children]
  · exact List.mem_cons_self

end Lowering
