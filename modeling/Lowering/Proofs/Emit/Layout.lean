import Lowering.Proofs.Emit.Phrase

/-!
# The layout of the page

Expressions are written within a line, and leave no bracket open. Statements are written as whole lines, indented by the
level of the page, which is the number of braces around them.

* `Laid` — whole lines at the level of a place.
* `Node.written_of_children`, `Node.laid_of_children` — one node, if the nodes below it are laid out.
* `Node.laidOut` — a whole tree.
-/

namespace Lowering

open C Addition

variable {strict : Prop}

-- ---------------------------------------------------------------------------
-- Statements
-- ---------------------------------------------------------------------------

/-- Whole lines at the level of a place. -/
def Laid (strict : Prop) (p : Place) (as : List Addition) : Prop :=
  Lines strict p.pageWidth p.level (pageText as) p.level

section Statements

variable {p : Place} {as : List Addition}

theorem laid_line {s : String} (h : Phrase strict s) : Laid strict p (p.line s) := by
  rw [Laid, pageText_line]
  exact .indented (m := 0) h.flows h.front

/-- A line that opens a brace. -/
theorem lines_opening (s : String) (h : Flows [] s ['{'] ∧ isFront s = true) :
    Lines strict p.pageWidth p.level (pageText (p.line s)) p.deeper.level := by
  rw [pageText_line]
  exact .indented (m := 1) h.1 fun _ => h.2

/-- A line that closes a brace and leaves `m` others open. -/
theorem lines_closing {m : Nat} (s : String) (h : Flows ['{'] s (braces m) ∧ s.toList.head? = some '}') :
    Lines strict p.pageWidth p.deeper.level (pageText (p.line s)) (p.level + m) := by
  rw [pageText_line]
  exact .closing h.1 h.2

theorem lines_brace (p : Place) : Lines strict p.pageWidth p.deeper.level (pageText (p.line "\x7d")) p.level :=
  lines_closing (m := 0) "\x7d" (by decide)

/-- A line that opens a brace under a condition. -/
theorem lines_guarded {before after : String} {bs : List Char} (hBefore : Flows [] before bs ∧ isFront before = true)
    (h : Flows [] (pageText as) []) (hAfter : Flows bs after ['{']) :
    Lines strict p.pageWidth p.level (pageText (p.guarded before as after)) p.deeper.level := by
  rw [pageText_guarded]
  exact .indented (m := 1) (hBefore.1.around h hAfter) fun _ => isFront_append hBefore.2 _

/-- A line that closes a brace before a condition and leaves `m` others open. -/
theorem lines_reguarded {before after : String} {bs : List Char} {m : Nat}
    (hBefore : Flows ['{'] before bs ∧ before.toList.head? = some '}') (h : Flows [] (pageText as) [])
    (hAfter : Flows bs after (braces m)) :
    Lines strict p.pageWidth p.deeper.level (pageText (p.guarded before as after)) (p.level + m) := by
  rw [pageText_guarded]
  refine .closing (hBefore.1.around h hAfter) ?_
  rw [String.toList_append, List.head?_append, hBefore.2, Option.some_or]

theorem laid_braced (h : Laid strict p.deeper as) : Laid strict p (p.braced as) := by
  rw [Laid, Place.braced, pageText_append, pageText_append]
  exact ((lines_opening (p := p) "\x7b" (by decide)).append h).append (lines_brace p)

theorem laid_statement {n : Node} (hExpression : n.tag.isExpression = true → Written strict n (pageText as))
    (hStatement : n.tag.isExpression = false → Laid strict (p.ofStatement n) as) : Laid strict p (p.statement n as) := by
  cases hTag : n.tag.isExpression with
  | true =>
    have hEnd : Phrase strict ";" := phrase_fixed ";" (by decide)
    have hText := (hExpression hTag).append hEnd
    rw [Laid, pageText_statement_of_isExpression p hTag]
    exact .indented (m := 0) hText.flows hText.front
  | false =>
    have hLines := hStatement hTag
    rw [Place.statement, if_neg (by simp [hTag])]
    rw [Place.ofStatement] at hLines
    split at hLines
    · rename_i hBlock
      rw [if_pos hBlock]
      exact laid_braced hLines
    · rename_i hBlock
      rw [if_neg hBlock]
      exact hLines

theorem laid_flatMap {α : Type} {f : α → List Addition} {l : List α} (h : ∀ a ∈ l, Laid strict p (f a)) :
    Laid strict p (l.flatMap f) := by
  rw [Laid, pageText_flatMap]
  exact .join (List.forall_mem_map.mpr h)

theorem Place.outermost_inBlock (p : Place) : p.inBlock.outermost = false := by
  unfold Place.inBlock
  split <;> rfl

/-- A block inside another writes its statements only. -/
theorem laid_block (hInside : p.outermost = false) (h : Laid strict p.inBlock as) : Laid strict p (p.block as) := by
  rw [Place.inBlock, if_neg (by simp [hInside])] at h
  rw [Place.block, if_neg (by simp [hInside]), Laid, pageText_closed]
  exact h

/-- The outermost block is the entry point. -/
theorem lines_main (hOutermost : p.outermost = true) (hLevel : p.level = 0) (h : Laid strict p.inBlock as) :
    Lines strict p.pageWidth 0 (pageText (p.block as)) 0 := by
  have hPlace : p.inBlock = p.deeper.enter .top := by rw [Place.inBlock, if_pos hOutermost]
  have hDeeper : p.inBlock.level = 1 := by
    rw [hPlace]
    exact congrArg (· + 1) hLevel
  have hWidth : p.inBlock.pageWidth = p.pageWidth := by
    rw [hPlace]
    rfl
  have hStart : Lines strict p.pageWidth 0 ("int main() \x7b" ++ "\n") 1 :=
    .outer (m := 1) (by decide) fun _ => by decide
  have hEnd : Lines strict p.pageWidth 1 ("\x7d" ++ "\n") 0 := .last (by decide) (by decide)
  have hReturn : Laid strict p.inBlock (if .returned ∈ as then [] else p.inBlock.line "return 0;") := by
    split
    · exact .nil _
    · exact laid_line (phrase_fixed _ (by decide))
  rw [Laid, hDeeper, hWidth] at h hReturn
  rw [Place.block, if_pos hOutermost, pageText_append, pageText_append, pageText_append, pageText_text, pageText_text,
    pageText_closed]
  exact ((hStart.append h).append hReturn).append hEnd

theorem laid_ret {values : List (List Addition)} (h : ∀ as ∈ values, Flows [] (pageText as) []) :
    Laid strict p (p.ret values) := by
  cases values with
  | nil =>
    rw [Laid, pageText_ret_nil]
    exact .indented (m := 0) (by split <;> decide) fun _ => by split <;> decide
  | cons value rest =>
    have hStart : Flows [] "return " [] := by decide
    have hEnd : Flows [] ";" [] := by decide
    rw [Laid, pageText_ret_cons]
    exact .indented (m := 0) (hStart.around (h value (by simp)) hEnd) fun _ => isFront_append (by decide) _

/-- The branches after the first each close the one before. -/
theorem lines_branches {arms : List (Arm (List Addition))}
    (h : ∀ a ∈ arms, Flows [] (pageText a.guard) [] ∧ Laid strict p.deeper a.body) :
    Lines strict p.pageWidth p.deeper.level (pageText (arms.flatMap (p.branch "\x7d else if ("))) p.deeper.level := by
  rw [pageText_flatMap]
  refine .join (List.forall_mem_map.mpr fun a ha => ?_)
  obtain ⟨hGuard, hBody⟩ := h a ha
  rw [Place.branch, pageText_append]
  exact (lines_reguarded (m := 1) (by decide) hGuard (by decide : Flows ['('] ") \x7b" ['{'])).append hBody

theorem laid_cond {arms : List (Arm (List Addition))} {otherwise : Option (List Addition)}
    (h : ∀ a ∈ arms, Flows [] (pageText a.guard) [] ∧ Laid strict p.deeper a.body)
    (hOtherwise : ∀ as ∈ otherwise, Laid strict p.deeper as) : Laid strict p (p.cond arms otherwise) := by
  cases arms with
  | nil => exact .nil _
  | cons first rest =>
    obtain ⟨⟨hGuard, hBody⟩, hRest⟩ := List.forall_mem_cons.mp h
    have hFirst : Lines strict p.pageWidth p.level (pageText (p.branch "if (" first)) p.deeper.level := by
      rw [Place.branch, pageText_append]
      exact (lines_guarded (by decide) hGuard (by decide : Flows ['('] ") \x7b" ['{'])).append hBody
    have hElse : Lines strict p.pageWidth p.deeper.level (pageText (p.otherwise otherwise)) p.deeper.level := by
      cases otherwise with
      | none => exact .nil _
      | some as =>
        rw [Place.otherwise, pageText_append]
        exact (lines_closing (m := 1) "\x7d else \x7b" (by decide)).append (hOtherwise as rfl)
    rw [Laid, Place.cond, pageText_append, pageText_append, pageText_append]
    exact ((hFirst.append (lines_branches hRest)).append hElse).append (lines_brace p)

/-- The body of a switch arm, from its opening brace on. -/
theorem lines_armBody (h : Laid strict p.deeper as) :
    Lines strict p.pageWidth p.deeper.level (pageText (p.armBody as)) p.level := by
  have hBreak : Laid strict p.deeper (p.deeper.line "break;") := laid_line (phrase_fixed _ (by decide))
  rw [Place.armBody, pageText_append, pageText_append]
  exact (h.append hBreak).append (lines_brace p)

theorem laid_switchArm {arm : Arm (List Addition)} (hGuard : Flows [] (pageText arm.guard) [])
    (hBody : Laid strict p.deeper arm.body) : Laid strict p (p.switchArm arm) := by
  rw [Laid, Place.switchArm, pageText_append]
  exact (lines_guarded (by decide) hGuard (by decide : Flows [] ": \x7b" ['{'])).append (lines_armBody hBody)

theorem laid_switch {subject : List Addition} {arms : List (Arm (List Addition))} {otherwise : Option (List Addition)}
    (hSubject : Flows [] (pageText subject) [])
    (h : ∀ a ∈ arms, Flows [] (pageText a.guard) [] ∧ Laid strict p.deeper.deeper a.body)
    (hOtherwise : ∀ as ∈ otherwise, Laid strict p.deeper.deeper as) :
    Laid strict p (p.switch subject arms otherwise) := by
  have hArms : Laid strict p.deeper (arms.flatMap p.deeper.switchArm) :=
    laid_flatMap fun a ha => laid_switchArm (h a ha).1 (h a ha).2
  have hDefault : Laid strict p.deeper (p.deeper.defaultArm otherwise) := by
    cases otherwise with
    | none => exact .nil _
    | some as =>
      rw [Laid, Place.defaultArm, pageText_append]
      exact (lines_opening "default: \x7b" (by decide)).append (lines_armBody (hOtherwise as rfl))
  have hStart : Lines strict p.pageWidth p.level (pageText (p.guarded "switch (" subject ") \x7b")) p.deeper.level :=
    lines_guarded (by decide) hSubject (by decide : Flows ['('] ") \x7b" ['{'])
  rw [Laid, Place.switch, pageText_append, pageText_append, pageText_append]
  exact ((hStart.append hArms).append hDefault).append (lines_brace p)

theorem laid_whileLoop {guard body : List Addition} (hGuard : Flows [] (pageText guard) [])
    (hBody : Laid strict p.deeper body) : Laid strict p (p.whileLoop guard body) := by
  have hStart : Lines strict p.pageWidth p.level (pageText (p.guarded "while (" guard ") \x7b")) p.deeper.level :=
    lines_guarded (by decide) hGuard (by decide : Flows ['('] ") \x7b" ['{'])
  rw [Laid, Place.whileLoop, pageText_append, pageText_append]
  exact (hStart.append hBody).append (lines_brace p)

theorem laid_repeatLoop {guard body : List Addition} (hGuard : Flows [] (pageText guard) [])
    (hBody : Laid strict p.deeper body) : Laid strict p (p.repeatLoop body guard) := by
  have hEnd : Lines strict p.pageWidth p.deeper.level (pageText (p.guarded "\x7d while (!(" guard "));")) p.level :=
    lines_reguarded (m := 0) (by decide) hGuard (by decide : Flows ['(', '('] "));" [])
  rw [Laid, Place.repeatLoop, pageText_append, pageText_append]
  exact ((lines_opening (p := p) "do \x7b" (by decide)).append hBody).append hEnd

theorem flows_loopEnd {name : String} (h : IsIdentifier name.toList) (hasStep : Bool) :
    Flows ['('] (loopEnd name hasStep) ['{'] := by
  have hName : Flows [] name [] := flows_word h
  have hBegin : Flows [] (Loop.temporary name "begin") [] := flows_temporary h (by decide)
  have hEnd : Flows [] (Loop.temporary name "end") [] := flows_temporary h (by decide)
  have hIncrement : Flows [] (increment name hasStep) [] := by
    unfold increment
    split
    · rw [String.append_assoc]
      exact hName.append (.lead " += " (by decide) (flows_temporary h (by decide)))
    · exact .lead "++" (by decide) hName
  have hTail : Flows ['('] (increment name hasStep ++ ") \x7b") ['{'] := hIncrement.before (by decide)
  exact hName.before (.lead " = " (by decide) (hBegin.before (.lead "; " (by decide) (hName.before
    (.lead " <= " (by decide) (hEnd.before (.lead "; " (by decide) hTail)))))))

theorem laid_forNum {name : String} (hName : IsIdentifier name.toList) (type : String) {first last body : List Addition}
    {step : Option (List Addition)} (hFirst : Flows [] (pageText first) []) (hLast : Flows [] (pageText last) [])
    (hStep : ∀ as ∈ step, Flows [] (pageText as) []) (hBody : Laid strict p.deeper body) :
    Laid strict p (p.forNum type name first last step body) := by
  have hBegin : Flows [] (Loop.temporary name "begin") [] := flows_temporary hName (by decide)
  have hEnd : Flows [] (Loop.temporary name "end") [] := flows_temporary hName (by decide)
  have hStepText : Flows [] (pageText (stepAdditions name step)) [] := by
    cases step with
    | none => exact .empty
    | some as =>
      rw [pageText_stepAdditions_some]
      exact .lead ", " (by decide) ((flows_temporary hName (by decide)).append (.lead " = " (by decide) (hStep as rfl)))
  have hValues := hFirst.before (.lead ", " (by decide) (hEnd.before (.lead " = " (by decide) (hLast.before
    (hStepText.before (.lead ", " (by decide) (flows_loopEnd hName step.isSome)))))))
  have hHeader := (flows_typeSpelling type).before (.lead " " (by decide) (hBegin.before
    (.lead " = " (by decide) hValues)))
  have hStart : Flows [] "for (" ['('] := by decide
  have hLine : Lines strict p.pageWidth p.level (p.indentation ++ ("for (" ++ _) ++ "\n") p.deeper.level :=
    .indented (m := 1) (hStart.append hHeader) fun _ => isFront_append (by decide) _
  rw [Laid, pageText_forNum]
  exact hLine.append (hBody.append (lines_brace p))

theorem laid_declareVariable {qualifier : String} (hQualifier : qualifier = "" ∨ qualifier = " const")
    {var : TypedName} (hName : IsIdentifier var.name.toList) {value : Option (Node × List Addition)}
    (hType : KnownType ((typeName? var (value.map Prod.fst)).getD ""))
    (h : ∀ v ∈ value, Flows [] (pageText v.2) []) : Laid strict p (p.declareVariable qualifier var value) := by
  have hVar : Flows [] (Target.escapeName var.name) [] := flows_word (Target.isIdentifier_escapeName hName)
  have hQualified : Flows [] qualifier [] := by
    rcases hQualifier with rfl | rfl <;> decide
  have hValue : Flows [] (value.elim "\x7b0\x7d" (fun v => pageText v.2)) [] := by
    cases value with
    | none => decide
    | some v => exact h v rfl
  have hEnd : Flows [] ";" [] := by decide
  have hRest := Flows.lead " " (by decide) (hVar.append (.lead " = " (by decide) (hValue.append hEnd)))
  have hTyped : Phrase strict (typeSpelling _) := phrase_typeSpelling hType
  have hLine := (hTyped.append hQualified).append hRest
  rw [Laid, pageText_declareVariable]
  exact .indented (m := 0) hLine.flows hLine.front

theorem laid_declareVariables {qualifier : String} (hQualifier : qualifier = "" ∨ qualifier = " const")
    {vars : List TypedName} (hNames : ∀ var ∈ vars, IsIdentifier var.name.toList) {values : List (Node × List Addition)}
    (hTypes : ∀ i (hi : i < vars.length), KnownType ((typeName? vars[i] (values[i]?.map Prod.fst)).getD ""))
    (h : ∀ v ∈ values, Flows [] (pageText v.2) []) : Laid strict p (p.declareVariables qualifier vars values) := by
  induction vars generalizing values with
  | nil => exact .nil _
  | cons var vars ih =>
    obtain ⟨hName, hNames⟩ := List.forall_mem_cons.mp hNames
    have hType := hTypes 0 (by simp)
    have hRest := fun i (hi : i < vars.length) => hTypes (i + 1) (by simpa using hi)
    cases values with
    | nil =>
      rw [Laid, Place.declareVariables, pageText_append]
      exact (laid_declareVariable hQualifier hName hType (by simp)).append (ih hNames hRest (by simp))
    | cons v values =>
      obtain ⟨hValue, hValues⟩ := List.forall_mem_cons.mp h
      rw [Laid, Place.declareVariables, pageText_append]
      exact (laid_declareVariable hQualifier hName hType (by simpa using hValue)).append (ih hNames hRest hValues)

theorem laid_stores {targets values : List (List Addition)} (hTargets : ∀ as ∈ targets, Phrase strict (pageText as))
    (hValues : ∀ as ∈ values, Flows [] (pageText as) []) : Laid strict p (p.stores targets values) := by
  induction targets generalizing values with
  | nil => exact .nil _
  | cons target targets ih =>
    cases values with
    | nil => exact .nil _
    | cons value values =>
      obtain ⟨hTarget, hTargets⟩ := List.forall_mem_cons.mp hTargets
      obtain ⟨hValue, hValues⟩ := List.forall_mem_cons.mp hValues
      have hEnd : Flows [] ";" [] := by decide
      have hLine := hTarget.append (.lead " = " (by decide) (hValue.append hEnd))
      rw [Laid, pageText_stores_cons]
      exact (Lines.indented (m := 0) hLine.flows hLine.front).append (ih hTargets hValues)

end Statements

-- ---------------------------------------------------------------------------
-- Trees
-- ---------------------------------------------------------------------------

namespace Node

/-- The parts of a node that are written as blocks of lines. -/
def blockParts : Node → List Node
  | .cond branches otherwise _ => branches.map Arm.body ++ otherwise.toList
  | .switch _ cases otherwise _ => cases.map Arm.body ++ otherwise.toList
  | .scoped body _ | .whileLoop _ body _ | .repeatLoop body _ _ | .forNum _ _ _ _ _ body _
  | .funcDef _ _ _ _ body _ => [body]
  | _ => []

/-- The parts of a node that are written within a line. -/
def expressionParts : Node → List Node
  | .cond branches _ _ => branches.map Arm.guard
  | .switch subject cases _ _ => subject :: cases.map Arm.guard
  | .whileLoop guard _ _ | .repeatLoop _ guard _ => [guard]
  | .forNum _ first _ last step _ _ => [first, last] ++ step.toList
  | .block .. | .scoped .. | .forIn .. | .funcDef .. => []
  | n => n.children

/-- Blocks stand where lines are written, and expressions where text is written within a line. -/
structure WellSorted (n : Node) : Prop where
  blocks : ∀ c ∈ n.blockParts, c.tag = .block
  expressions : ∀ c ∈ n.expressionParts, c.tag.isExpression = true

instance (n : Node) : Decidable n.WellSorted :=
  decidable_of_iff ((∀ c ∈ n.blockParts, c.tag = .block) ∧ ∀ c ∈ n.expressionParts, c.tag.isExpression = true)
    ⟨fun h => ⟨h.1, h.2⟩, fun h => ⟨h.blocks, h.expressions⟩⟩

/-- The names that a node brings along. -/
def identifiers : Node → List String
  | .id name _ | .label name _ | .goto name _ => [name]
  | .dotIndex _ field _ => [field]
  | .forNum var _ _ _ _ _ _ => [var.name]
  | .varDecl _ _ vars _ _ => vars.map TypedName.name
  | .funcDef _ name params _ _ _ => name :: params.map TypedName.name
  | _ => []

/-- The digits that a node brings along. -/
def form? : Node → Option NumberForm
  | .number form _ _ => some form
  | _ => none

/-- The names in a node are C identifiers, and its digits have no part in the layout. -/
structure Legible (n : Node) : Prop where
  names : ∀ name ∈ n.identifiers, IsIdentifier name.toList
  digits : ∀ form ∈ n.form?, form.Plain

instance (n : Node) : Decidable n.Legible :=
  decidable_of_iff ((∀ name ∈ n.identifiers, IsIdentifier name.toList) ∧ ∀ form ∈ n.form?, form.Plain)
    ⟨fun h => ⟨h.1, h.2⟩, fun h => ⟨h.names, h.digits⟩⟩

/-- The parts of a node that are written before everything else, with a blank after them. -/
def leading : Node → List Node
  | .binaryOp _ lhs _ _ => [lhs]
  | .ternaryOp _ _ second _ _ => [second]
  | .assign targets _ _ => targets
  | _ => []

/-- A number that leaves no text does not stand before a blank. -/
def Led (n : Node) : Prop :=
  ∀ c ∈ n.leading, c.isBlank = false

instance (n : Node) : Decidable n.Led :=
  inferInstanceAs (Decidable (∀ c ∈ _, _))

theorem mem_children_of_mem_blockParts {n c : Node} (h : c ∈ n.blockParts) : c ∈ n.children := by
  cases n <;> grind [blockParts, children]

theorem mem_children_of_mem_expressionParts {n c : Node} (h : c ∈ n.expressionParts) : c ∈ n.children := by
  cases n <;> grind [expressionParts, children]

/-- Wherever it stands inside of a block, an expression is written within a line and a statement as whole lines. -/
def LaidOut (strict : Prop) (n : Node) : Prop :=
  ∀ p : Place, p.outermost = false →
    if n.tag.isExpression then Written strict n (pageText (n.additions p)) else Laid strict p (n.additions p)

section Parts

variable {n : Node} {p : Place}

theorem LaidOut.written (h : n.LaidOut strict) (hTag : n.tag.isExpression = true) (hp : p.outermost = false) :
    Written strict n (pageText (n.additions p)) := by
  have hText := h p hp
  rwa [if_pos hTag] at hText

theorem LaidOut.laid (h : n.LaidOut strict) (hTag : n.tag.isExpression = false) (hp : p.outermost = false) :
    Laid strict p (n.additions p) := by
  have hText := h p hp
  rwa [if_neg (by simp [hTag])] at hText

/-- The statements of a block. -/
theorem laid_statements {statements : List Node} (h : ∀ c ∈ statements, c.LaidOut strict) (hp : p.outermost = false) :
    Laid strict p (statementsAdditions p statements) := by
  rw [statementsAdditions_eq]
  refine laid_flatMap fun c hc => ?_
  have hPlace : (p.ofStatement c).outermost = false := by
    unfold Place.ofStatement
    split <;> exact hp
  exact laid_statement (fun hTag => (h c hc).written hTag hPlace) (fun hTag => (h c hc).laid hTag hPlace)

variable (hSorted : n.WellSorted) (h : ∀ c ∈ n.children, c.LaidOut strict)
include hSorted h

theorem written_part (c : Node) (hc : c ∈ n.expressionParts) (q : Place) (hq : q.outermost = false) :
    Written strict c (pageText (c.additions q)) :=
  (h c (mem_children_of_mem_expressionParts hc)).written (hSorted.expressions c hc) hq

theorem laid_part (c : Node) (hc : c ∈ n.blockParts) (q : Place) (hq : q.outermost = false) :
    Laid strict q (c.additions q) :=
  (h c (mem_children_of_mem_blockParts hc)).laid (by rw [hSorted.blocks c hc]; rfl) hq

theorem flows_parts (cs : List Node) (hcs : ∀ c ∈ cs, c ∈ n.expressionParts) (q : Place) (hq : q.outermost = false) :
    ∀ as ∈ additionsAll q cs, Flows [] (pageText as) [] :=
  forall_mem_additionsAll.mpr fun c hc => (written_part hSorted h c (hcs c hc) q hq).flows

theorem laid_arms (arms : List (Arm Node)) (hArms : ∀ a ∈ arms, a.guard ∈ n.expressionParts ∧ a.body ∈ n.blockParts)
    (q : Place) (hq : q.outermost = false) :
    ∀ a ∈ additionsArms q arms, Flows [] (pageText a.guard) [] ∧ Laid strict q.deeper a.body := by
  refine forall_mem_additionsArms.mpr fun a ha => ?_
  obtain ⟨hGuard, hBody⟩ := hArms a ha
  exact ⟨(written_part hSorted h a.guard hGuard q hq).flows, laid_part hSorted h a.body hBody q.deeper hq⟩

theorem laid_option (o : Option Node) (ho : ∀ c ∈ o, c ∈ n.blockParts) (q : Place) (hq : q.outermost = false) :
    ∀ as ∈ additionsOption q o, Laid strict q as :=
  forall_mem_additionsOption.mpr fun c hc => laid_part hSorted h c (ho c hc) q hq

end Parts

section Steps

variable {n : Node} {depth : Nat} {p : Place}
variable (hSound : n.Sound depth) (hSorted : n.WellSorted) (hLegible : n.Legible) (hLed : strict → n.Led)
  (h : ∀ c ∈ n.children, c.LaidOut strict) (hp : p.outermost = false)
include hSound hSorted hLegible hLed h hp

/-- One case for each kind of expression. -/
theorem written_of_children (hTag : n.tag.isExpression = true) : Written strict n (pageText (n.additions p)) := by
  have ih := written_part hSorted h
  cases n with
  | number form suffix span =>
    obtain ⟨m, hm⟩ := (resolveNumber_ok_iff form suffix).mpr hSound
    exact written_number (hLegible.digits form rfl) hm span
  | string value span =>
    rw [additions, pageText_stringAdditions]
    exact (phrase_recordText span).written
  | boolean value span =>
    rw [additions, pageText_cons, pageText_text]
    exact (phrase_fixed _ (by cases value <;> decide)).written
  | nil span =>
    rw [additions, pageText_cons, pageText_text]
    exact (phrase_fixed _ (by decide)).written
  | varargs span => exact hSound.elim
  | id name span =>
    rw [additions, pageText_text]
    exact (phrase_word (Target.isIdentifier_escapeName (hLegible.names name (by simp [identifiers])))).written
  | paren inner span =>
    have hInner := (ih inner (by simp [expressionParts, children]) (p.descend .paren) hp).flows
    rw [additions, pageText_append, pageText_append, pageText_text, pageText_text, String.append_assoc]
    exact (phrase_parens hInner).written
  | dotIndex base field span =>
    have hBase := ih base (by simp [expressionParts, children]) (p.descend .dotIndex) hp
    have hField := flows_word (Target.isIdentifier_escapeName (hLegible.names field (by simp [identifiers])))
    have hDot : Phrase strict "." := phrase_fixed _ (by decide)
    rw [additions, pageText_append, pageText_text]
    exact (hBase.append (hDot.append hField)).written
  | arrayIndex base index span =>
    have hBase := ih base (by simp [expressionParts, children]) (p.descend .arrayIndex) hp
    have hIndex := (ih index (by simp [expressionParts, children]) (p.descend .arrayIndex) hp).flows
    have hBracket : Phrase strict ("[" ++ (pageText (index.additions (p.descend .arrayIndex)) ++ "]")) :=
      ⟨Flows.around (by decide : Flows [] "[" ['[']) hIndex (by decide), fun _ => isFront_append (by decide) _⟩
    rw [additions]
    simp only [pageText_append, pageText_text, String.append_assoc]
    exact (hBase.append hBracket).written
  | call callee args span =>
    have hArgs := flows_parts hSorted h args (fun a ha => List.mem_cons_of_mem callee ha) (p.descend .call) hp
    have hList : Phrase strict _ := phrase_parens (flows_commaSeparated hArgs)
    cases hCallee : Expression.intrinsic? callee with
    | none =>
      have hFunction := ih callee (by simp [expressionParts, children]) (p.descend .call) hp
      rw [pageText_call hCallee]
      exact (hFunction.append hList).written
    | some intrinsic =>
      cases intrinsic
      have hName : Phrase strict (Print.helperName span) := phrase_word (isIdentifier_numbered (by decide) span.start)
      rw [additions, hCallee, pageText_printAdditions]
      exact (hName.append hList.flows).written
  | unaryOp op operand span =>
    have hOperand := (ih operand (by simp [expressionParts, children]) (p.descend .unaryOp) hp).flows
    refine (phrase_wrapped ?_).written
    rw [pageText_append, pageText_text]
    exact (phrase_unaryMark hSound).append hOperand
  | binaryOp op lhs rhs span =>
    have hLeft := (ih lhs (by simp [expressionParts, children]) (p.descend .binaryOp) hp).phrase
      (fun hStrict => hLed hStrict lhs (by simp [leading]))
    have hRight := (ih rhs (by simp [expressionParts, children]) (p.descend .binaryOp) hp).flows
    refine (phrase_wrapped ?_).written
    simp only [pageText_append, pageText_text, String.append_assoc]
    exact hLeft.append (.lead " " (by decide) ((flows_binaryMark op).append (.lead " " (by decide) hRight)))
  | ternaryOp op first second third span =>
    have hFirst := (ih first (by simp [expressionParts, children]) (p.descend .ternaryOp) hp).flows
    have hSecond := (ih second (by simp [expressionParts, children]) (p.descend .ternaryOp) hp).phrase
      (fun hStrict => hLed hStrict second (by simp [leading]))
    have hThird := (ih third (by simp [expressionParts, children]) (p.descend .ternaryOp) hp).flows
    obtain ⟨hMark, hMark'⟩ := flows_ternaryMarks op
    refine (phrase_wrapped ?_).written
    simp only [pageText_append, pageText_text, String.append_assoc]
    exact hSecond.append (.lead " " (by decide) (hMark.append (.lead " " (by decide) (hFirst.append
      (.lead " " (by decide) (hMark'.append (.lead " " (by decide) hThird)))))))
  | _ => simp [tag, Tag.isExpression] at hTag

/-- One case for each kind of statement. -/
theorem laid_of_children (hBelow : ∀ c ∈ n.children, c.SoundAt (depth + n.ownScopes)) (hTag : n.tag.isExpression = false) :
    Laid strict p (n.additions p) := by
  have hInline := written_part hSorted h
  have hLines := laid_part hSorted h
  cases n with
  | block statements span =>
    exact laid_block (p := p.descend .block) hp (laid_statements h (Place.outermost_inBlock _))
  | ret values span => exact laid_ret (p := p.descend .ret) (flows_parts hSorted h values (fun c hc => hc) _ hp)
  | cond branches otherwise span =>
    have hParts : ∀ a ∈ branches, a.guard ∈ branches.map Arm.guard ∧ a.body ∈ branches.map Arm.body ++ otherwise.toList :=
      fun a ha => ⟨List.mem_map_of_mem ha, List.mem_append_left _ (List.mem_map_of_mem ha)⟩
    refine laid_cond (p := p.descend .cond) (laid_arms hSorted h branches hParts _ hp)
      (laid_option hSorted h otherwise (fun c hc => ?_) _ hp)
    exact List.mem_append_right _ (by simpa using hc)
  | switch subject cases otherwise span =>
    have hSubject := (hInline subject (by simp [expressionParts]) (p.descend .switch) hp).flows
    have hParts : ∀ a ∈ cases, a.guard ∈ subject :: cases.map Arm.guard ∧ a.body ∈ cases.map Arm.body ++ otherwise.toList :=
      fun a ha => ⟨List.mem_cons_of_mem _ (List.mem_map_of_mem ha), List.mem_append_left _ (List.mem_map_of_mem ha)⟩
    refine laid_switch (p := p.descend .switch) hSubject (laid_arms hSorted h cases hParts (p.descend .switch).deeper hp)
      (laid_option hSorted h otherwise (fun c hc => ?_) (p.descend .switch).deeper.deeper hp)
    exact List.mem_append_right _ (by simpa using hc)
  | «scoped» body span =>
    exact laid_braced (p := p.descend .scoped) (hLines body (by simp [blockParts]) (p.descend .scoped).deeper hp)
  | whileLoop guard body span =>
    have hGuard := (hInline guard (by simp [expressionParts]) (p.descend .whileLoop) hp).flows
    have hBody := hLines body (by simp [blockParts]) (p.descend .whileLoop).deeper hp
    exact laid_whileLoop (p := p.descend .whileLoop) hGuard hBody
  | repeatLoop body guard span =>
    have hGuard := (hInline guard (by simp [expressionParts]) (p.descend .repeatLoop) hp).flows
    have hBody := hLines body (by simp [blockParts]) (p.descend .repeatLoop).deeper hp
    exact laid_repeatLoop (p := p.descend .repeatLoop) hGuard hBody
  | forNum var first comparator last step body span =>
    have hFirst := (hInline first (by simp [expressionParts]) (p.descend .forNum) hp).flows
    have hLast := (hInline last (by simp [expressionParts]) (p.descend .forNum) hp).flows
    have hStep : ∀ as ∈ additionsOption (p.descend .forNum) step, Flows [] (pageText as) [] := by
      intro as has
      rw [additionsOption_eq] at has
      obtain ⟨c, hc, rfl⟩ := Option.map_eq_some_iff.mp has
      exact (hInline c (by simp [expressionParts, hc]) (p.descend .forNum) hp).flows
    have hBody := hLines body (by simp [blockParts]) (p.descend .forNum).deeper hp
    have hName := Target.isIdentifier_escapeName (hLegible.names var.name (by simp [identifiers]))
    exact laid_forNum (p := p.descend .forNum) hName _ hFirst hLast hStep hBody
  | forIn vars exprs body span => exact hSound.elim
  | breakLoop span => exact laid_line (phrase_fixed _ (by decide))
  | continueLoop span => exact laid_line (phrase_fixed _ (by decide))
  | label name span =>
    have hName : Phrase strict (Target.escapeName name) :=
      phrase_word (Target.isIdentifier_escapeName (hLegible.names name (by simp [identifiers])))
    exact laid_line (hName.append (by decide))
  | goto target span =>
    have hStart : Phrase strict "goto " := phrase_fixed _ (by decide)
    have hName := flows_word (Target.isIdentifier_escapeName (hLegible.names target (by simp [identifiers])))
    exact laid_line ((hStart.append hName).append (by decide))
  | varDecl visibility mutability vars values span =>
    have hQualifier : (Declaration.qualifier? mutability).getD "" = "" ∨
        (Declaration.qualifier? mutability).getD "" = " const" := by
      cases mutability <;> simp [Declaration.qualifier?]
    have hNames : ∀ var ∈ vars, IsIdentifier var.name.toList :=
      fun var hv => hLegible.names var.name (List.mem_map_of_mem hv)
    have hPairs : values.zip (additionsAll (p.descend .varDecl) values) =
        values.map (fun v => (v, v.additions (p.descend .varDecl))) := by
      rw [additionsAll_eq, zip_map_self]
    rw [additions, hPairs]
    refine laid_declareVariables (p := p.descend .varDecl) hQualifier hNames (fun i hi => ?_)
      (List.forall_mem_map.mpr fun v hv => (hInline v hv (p.descend .varDecl) hp).flows)
    have hValue : ((values.map (fun v => (v, v.additions (p.descend .varDecl))))[i]?).map Prod.fst = values[i]? := by
      rw [List.getElem?_map, Option.map_map]
      exact congrFun Option.map_id _
    have hDeducible : Deducible vars[i] values[i]? :=
      (deducible_iff fun v hv => hBelow v (List.mem_of_getElem? hv)).mpr (hSound.2.2.2 i hi)
    rw [hValue]
    exact knownType_of_deducible hDeducible
  | assign targets values span =>
    have hTargets : ∀ as ∈ additionsAll (p.descend .assign) targets, Phrase strict (pageText as) := by
      rw [additionsAll_eq, List.forall_mem_map]
      intro c hc
      exact (hInline c (mem_alternate.mpr (Or.inl hc)) (p.descend .assign) hp).phrase (fun hStrict => hLed hStrict c hc)
    have hValues := flows_parts hSorted h values (fun c hc => mem_alternate.mpr (Or.inr hc)) (p.descend .assign) hp
    exact laid_stores (p := p.descend .assign) hTargets hValues
  | funcDef visibility name params returns body span =>
    rw [Laid, additions, pageText_functionAdditions]
    exact .nil _
  | _ => simp [tag, Tag.isExpression] at hTag

end Steps

/-- Every node of a tree is laid out. -/
theorem laidOut {n : Node} {depth : Nat} (hSoundAt : n.SoundAt depth) (hSorted : ∀ m ∈ n.nodes, m.WellSorted)
    (hLegible : ∀ m ∈ n.nodes, m.Legible) (hLed : strict → ∀ m ∈ n.nodes, m.Led) : n.LaidOut strict := by
  induction n using childInduction generalizing depth with
  | step n ih =>
    obtain ⟨hSound, hBelow⟩ := soundAt_iff.mp hSoundAt
    obtain ⟨hSelfSorted, hSorted⟩ := forall_mem_nodes.mp hSorted
    obtain ⟨hSelfLegible, hLegible⟩ := forall_mem_nodes.mp hLegible
    have hSelfLed : strict → n.Led := fun hStrict => hLed hStrict n (self_mem_nodes n)
    have hChildren : ∀ c ∈ n.children, c.LaidOut strict := fun c hc =>
      ih c hc (hBelow c hc) (hSorted c hc) (hLegible c hc)
        fun hStrict m hm => hLed hStrict m (nodes_subset (mem_nodes_of_mem_children hc) hm)
    intro p hp
    split
    · rename_i hTag
      exact written_of_children hSound hSelfSorted hSelfLegible hSelfLed hChildren hp hTag
    · rename_i hTag
      exact laid_of_children hSound hSelfSorted hSelfLegible hSelfLed hChildren hp hBelow (by simpa using hTag)

end Node

end Lowering
