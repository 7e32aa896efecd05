import Lowering.Proofs.Draft.Sections
import Lowering.Proofs.Emit.Tidy

/-!
# Generated names in what is written

Only names of strings and print calls in the tree look like generated names. The one place where two words can meet is a
switch arm without indentation, whose body may end in a word that `break` then continues.

* `Node.tidy_additions` — the page of a tree has no generated names but those of the tree.
* `Node.closed_definitions` — nor have the functions and print helpers that are defined for it.
-/

namespace Lowering

open C Addition

variable {names : List String}

-- ---------------------------------------------------------------------------
-- Statements
-- ---------------------------------------------------------------------------

section Statements

variable {p : Place} {as : List Addition}

theorem closed_braced (h : Tidy names (pageText as)) : Closed names (pageText (p.braced as)) := by
  rw [Place.braced, pageText_append, pageText_append, String.append_assoc]
  exact (closed_fixed_line "\x7b" (by decide)).append (h.then_line "\x7d" (by decide))

theorem closed_statement {n : Node} (h : Tidy names (pageText as))
    (hClosed : n.tag.isExpression = false → endsApart (pageText as) = true) :
    Closed names (pageText (p.statement n as)) := by
  cases hTag : n.tag.isExpression with
  | true =>
    rw [pageText_statement_of_isExpression p hTag]
    exact ((h.trail ";" (by decide)).indented p).line
  | false =>
    rw [Place.statement, if_neg (by simp [hTag])]
    split
    · exact closed_braced h
    · exact ⟨h, hClosed hTag⟩

theorem closed_block (h : Closed names (pageText as)) : Closed names (pageText (p.block as)) := by
  unfold Place.block
  split
  · have hEnd : Closed names (pageText (if .returned ∈ as then [] else p.inBlock.line "return 0;")) := by
      split
      · exact closed_empty
      · exact closed_fixed_line "return 0;" (by decide)
    rw [pageText_append, pageText_append, pageText_append, pageText_closed, pageText_text, pageText_text]
    exact (((tidy_of_quiet (by decide)).line.append h).append hEnd).append (tidy_of_quiet (by decide)).line
  · rw [pageText_closed]
    exact h

theorem closed_ret {values : List (List Addition)} (h : ∀ as ∈ values, Tidy names (pageText as)) :
    Closed names (pageText (p.ret values)) := by
  cases values with
  | nil =>
    rw [pageText_ret_nil]
    exact ((tidy_of_quiet (by split <;> decide)).indented p).line
  | cons value rest =>
    have hValue := h value (by simp)
    rw [pageText_ret_cons]
    exact ((Tidy.lead "return " (by decide) (hValue.trail ";" (by decide))).indented p).line

theorem tidy_branch {arm : Arm (List Addition)} {before : String} (hBefore : Leads before)
    (h : Tidy names (pageText arm.guard) ∧ Tidy names (pageText arm.body)) :
    Tidy names (pageText (p.branch before arm)) := by
  rw [Place.branch, pageText_append]
  exact (closed_guarded hBefore h.1 (by decide)).then_tidy h.2

/-- The bodies of a conditional are followed by a brace each. -/
theorem tidy_branches {arms : List (Arm (List Addition))} {s : String} (hs : Tidy names s)
    (h : ∀ a ∈ arms, Tidy names (pageText a.guard) ∧ Tidy names (pageText a.body)) :
    Tidy names (s ++ pageText (arms.flatMap (p.branch "\x7d else if ("))) := by
  induction arms generalizing s with
  | nil => simpa using hs
  | cons arm arms ih =>
    have hStart : startsApart (pageText (p.branch "\x7d else if (" arm)) = true := by
      have hText : pageText (p.branch "\x7d else if (" arm) = p.indentation ++ ("\x7d else if (" ++
          (pageText arm.guard ++ (") \x7b\n" ++ pageText arm.body))) := by
        simp [Place.branch, Place.guarded, onPage]
      rw [hText]
      exact startsApart_append (startsApart_indentation p) (startsApart_append_of_ne (by decide) (by decide))
    rw [List.flatMap_cons, pageText_append, ← String.append_assoc]
    exact ih (hs.append (tidy_branch (by decide) (h arm (by simp))) hStart) fun a ha => h a (by simp [ha])

theorem closed_cond {arms : List (Arm (List Addition))} {otherwise : Option (List Addition)}
    (h : ∀ a ∈ arms, Tidy names (pageText a.guard) ∧ Tidy names (pageText a.body))
    (hOtherwise : ∀ as ∈ otherwise, Tidy names (pageText as)) : Closed names (pageText (p.cond arms otherwise)) := by
  cases arms with
  | nil => exact closed_empty
  | cons first rest =>
    obtain ⟨hFirst, hRest⟩ := List.forall_mem_cons.mp h
    have hArms := tidy_branches (p := p) (tidy_branch (p := p) (by decide : Leads "if (") hFirst) hRest
    rw [Place.cond, pageText_append, pageText_append, pageText_append]
    refine Tidy.then_line ?_ "\x7d" (by decide)
    cases otherwise with
    | none => simpa [Place.otherwise] using hArms
    | some as =>
      rw [Place.otherwise, pageText_append, ← String.append_assoc]
      exact (hArms.then_line "\x7d else \x7b" (by decide)).then_tidy (hOtherwise as rfl)

/-- The body of a switch arm may end in a word that `break` continues. -/
theorem closed_armBody (h : Tidy names (pageText as)) : Closed names (pageText (p.armBody as)) := by
  have hBreak : Closed names (pageText (p.deeper.line "break;")) := closed_fixed_line "break;" (by decide)
  have hFirst : ∀ c ∈ ((pageText (p.deeper.line "break;")).toList.takeWhile isWordChar).getLast?, c.isDigit = false := by
    rw [pageText_line, String.toList_append, String.toList_append, Place.indentation, toList_indentation]
    cases p.deeper.level * p.deeper.pageWidth with
    | zero =>
      have hLast : ((List.replicate 0 ' ' ++ "break;".toList ++ "\n".toList).takeWhile isWordChar).getLast?
          = some 'k' := by decide
      rw [hLast]
      simp [show Char.isDigit 'k' = false from by decide]
    | succ n => simp [List.replicate_succ, show isWordChar ' ' = false from by decide]
  have hBody : Closed names (pageText as ++ pageText (p.deeper.line "break;")) := by
    refine ⟨h.append_of_takeWhile hBreak.tidy hFirst, ?_⟩
    rw [pageText_line, ← String.append_assoc]
    exact endsApart_append_of_ne (by decide) (by decide)
  rw [Place.armBody, pageText_append, pageText_append]
  exact hBody.append (closed_fixed_line "\x7d" (by decide))

theorem closed_switchArm {arm : Arm (List Addition)}
    (h : Tidy names (pageText arm.guard) ∧ Tidy names (pageText arm.body)) :
    Closed names (pageText (p.switchArm arm)) := by
  rw [Place.switchArm, pageText_append]
  exact (closed_guarded (by decide) h.1 (by decide)).append (closed_armBody h.2)

theorem closed_flatMap {α : Type} {f : α → List Addition} {l : List α} (h : ∀ a ∈ l, Closed names (pageText (f a))) :
    Closed names (pageText (l.flatMap f)) := by
  rw [pageText_flatMap]
  exact .join (List.forall_mem_map.mpr h)

theorem closed_switch {subject : List Addition} {arms : List (Arm (List Addition))}
    {otherwise : Option (List Addition)} (hSubject : Tidy names (pageText subject))
    (h : ∀ a ∈ arms, Tidy names (pageText a.guard) ∧ Tidy names (pageText a.body))
    (hOtherwise : ∀ as ∈ otherwise, Tidy names (pageText as)) :
    Closed names (pageText (p.switch subject arms otherwise)) := by
  have hArms : Closed names (pageText (arms.flatMap p.deeper.switchArm)) :=
    closed_flatMap fun a ha => closed_switchArm (h a ha)
  have hDefault : Closed names (pageText (p.deeper.defaultArm otherwise)) := by
    cases otherwise with
    | none => exact closed_empty
    | some as =>
      rw [Place.defaultArm, pageText_append]
      exact (closed_fixed_line "default: \x7b" (by decide)).append (closed_armBody (hOtherwise as rfl))
  rw [Place.switch, pageText_append, pageText_append, pageText_append]
  exact (((closed_guarded (by decide) hSubject (by decide)).append hArms).append hDefault).append
    (closed_fixed_line "\x7d" (by decide))

theorem closed_whileLoop {guard body : List Addition} (hGuard : Tidy names (pageText guard))
    (hBody : Tidy names (pageText body)) : Closed names (pageText (p.whileLoop guard body)) := by
  rw [Place.whileLoop, pageText_append, pageText_append, String.append_assoc]
  exact (closed_guarded (by decide) hGuard (by decide)).append (hBody.then_line "\x7d" (by decide))

theorem closed_repeatLoop {guard body : List Addition} (hGuard : Tidy names (pageText guard))
    (hBody : Tidy names (pageText body)) : Closed names (pageText (p.repeatLoop body guard)) := by
  have hTail : Tidy names (p.indentation ++ ("\x7d while (!(" ++ (pageText guard ++ "));"))) :=
    (Tidy.lead _ (by decide) (hGuard.trail "));" (by decide))).indented p
  have hStart : startsApart (p.indentation ++ ("\x7d while (!(" ++ (pageText guard ++ "));"))) = true :=
    startsApart_append (startsApart_indentation p) (startsApart_append_of_ne (by decide) (by decide))
  rw [pageText_repeatLoop]
  exact ((closed_fixed_line "do \x7b" (by decide)).then_tidy (hBody.append hTail hStart)).line

section Loops

variable {name : String} (hWord : IsIdentifier name.toList) (hKnown : Known names name.toList)
include hWord

theorem tidy_begin : Tidy names (Loop.temporary name "begin") :=
  tidy_temporary hWord (by decide) rfl (by decide)

theorem tidy_end : Tidy names (Loop.temporary name "end") :=
  tidy_temporary hWord (by decide) rfl (by decide)

theorem tidy_step : Tidy names (Loop.temporary name "step") :=
  tidy_temporary hWord (by decide) rfl (by decide)

include hKnown

theorem tidy_loopEnd (hasStep : Bool) : Tidy names (loopEnd name hasStep) := by
  have hName : Tidy names name := tidy_word hWord hKnown
  have hIncrement : Tidy names (increment name hasStep) := by
    unfold increment
    split
    · rw [String.append_assoc]
      exact hName.parted " += " (by decide) (tidy_step hWord)
    · exact .lead "++" (by decide) hName
  have hTest := (tidy_end hWord).parted "; " (by decide) (hIncrement.trail ") \x7b" (by decide))
  exact hName.parted " = " (by decide) ((tidy_begin hWord).parted "; " (by decide)
    (hName.parted " <= " (by decide) hTest))

theorem closed_forNum (type : String) {first last body : List Addition} {step : Option (List Addition)}
    (hFirst : Tidy names (pageText first)) (hLast : Tidy names (pageText last))
    (hStep : ∀ as ∈ step, Tidy names (pageText as)) (hBody : Tidy names (pageText body)) :
    Closed names (pageText (p.forNum type name first last step body)) := by
  have hEnd := tidy_loopEnd hWord hKnown step.isSome
  have hValues : Tidy names
      (pageText last ++ (pageText (stepAdditions name step) ++ (", " ++ loopEnd name step.isSome))) := by
    cases step with
    | none =>
      rw [stepAdditions, pageText_nil, String.empty_append]
      exact hLast.parted ", " (by decide) hEnd
    | some as =>
      have hRest := (hStep as rfl).parted ", " (by decide) hEnd
      rw [pageText_stepAdditions_some]
      simp only [String.append_assoc]
      exact hLast.parted ", " (by decide) ((tidy_step hWord).parted " = " (by decide) hRest)
  have hType : Tidy names (typeSpelling type) := tidy_typeSpelling type
  have hHeader := hType.parted " " (by decide) ((tidy_begin hWord).parted " = " (by decide)
    (hFirst.parted ", " (by decide) ((tidy_end hWord).parted " = " (by decide) hValues)))
  rw [pageText_forNum]
  exact ((Tidy.lead "for (" (by decide) hHeader).indented p).line.append (hBody.then_line "\x7d" (by decide))

end Loops

theorem closed_declareVariable {qualifier : String} (hQualifier : qualifier = "" ∨ qualifier = " const")
    {var : TypedName} (hName : IsIdentifier var.name.toList) {value : Option (Node × List Addition)}
    (h : ∀ v ∈ value, Tidy names (pageText v.2)) : Closed names (pageText (p.declareVariable qualifier var value)) := by
  have hType : ∀ type : String, Tidy names (typeSpelling type ++ qualifier) := by
    intro type
    rcases hQualifier with rfl | rfl
    · rw [String.append_empty]
      exact tidy_typeSpelling type
    · exact (tidy_typeSpelling type).trail " const" (by decide)
  have hValue : Tidy names (value.elim "\x7b0\x7d" (fun v => pageText v.2)) := by
    cases value with
    | none => exact tidy_of_quiet (by decide)
    | some v => exact h v rfl
  have hRest := (tidy_escapeName hName).parted " = " (by decide) (hValue.trail ";" (by decide))
  rw [pageText_declareVariable]
  exact (((hType _).parted " " (by decide) hRest).indented p).line

theorem closed_declareVariables {qualifier : String} (hQualifier : qualifier = "" ∨ qualifier = " const")
    {vars : List TypedName} (hNames : ∀ var ∈ vars, IsIdentifier var.name.toList) {values : List (Node × List Addition)}
    (h : ∀ v ∈ values, Tidy names (pageText v.2)) :
    Closed names (pageText (p.declareVariables qualifier vars values)) := by
  induction vars generalizing values with
  | nil => exact closed_empty
  | cons var vars ih =>
    obtain ⟨hName, hNames⟩ := List.forall_mem_cons.mp hNames
    cases values with
    | nil =>
      rw [Place.declareVariables, pageText_append]
      exact (closed_declareVariable hQualifier hName (by simp)).append (ih hNames (by simp))
    | cons v values =>
      obtain ⟨hValue, hValues⟩ := List.forall_mem_cons.mp h
      rw [Place.declareVariables, pageText_append]
      exact (closed_declareVariable hQualifier hName (by simpa using hValue)).append (ih hNames hValues)

theorem closed_stores {targets values : List (List Addition)} (hTargets : ∀ as ∈ targets, Tidy names (pageText as))
    (hValues : ∀ as ∈ values, Tidy names (pageText as)) : Closed names (pageText (p.stores targets values)) := by
  induction targets generalizing values with
  | nil => exact closed_empty
  | cons target targets ih =>
    cases values with
    | nil => exact closed_empty
    | cons value values =>
      obtain ⟨hTarget, hTargets⟩ := List.forall_mem_cons.mp hTargets
      obtain ⟨hValue, hValues⟩ := List.forall_mem_cons.mp hValues
      rw [pageText_stores_cons]
      exact ((hTarget.parted " = " (by decide) (hValue.trail ";" (by decide))).indented p).line.append
        (ih hTargets hValues)

end Statements

-- ---------------------------------------------------------------------------
-- Expressions
-- ---------------------------------------------------------------------------

theorem tidy_commaSeparated {parts : List (List Addition)} (h : ∀ as ∈ parts, Tidy names (pageText as)) :
    Tidy names (pageText (commaSeparated parts)) := by
  fun_induction commaSeparated parts with
  | case1 => exact closed_empty.tidy
  | case2 as => exact h as (by simp)
  | case3 as rest _ ih =>
    obtain ⟨hFirst, hRest⟩ := List.forall_mem_cons.mp h
    rw [pageText_append, pageText_append, pageText_text, String.append_assoc]
    exact hFirst.parted ", " (by decide) (ih hRest)

theorem tidy_wrapped {p : Place} {as : List Addition} (h : Tidy names (pageText as)) :
    Tidy names (pageText (p.wrapped as)) := by
  unfold Place.wrapped
  split
  · rw [pageText_append, pageText_append, pageText_text, pageText_text, String.append_assoc]
    exact .lead "(" (by decide) (h.trail ")" (by decide))
  · exact h

theorem leads_unaryMark (op : String) : Leads (unaryMark op) := by
  unfold unaryMark
  cases UnaryOp.ofName? op with
  | none => decide
  | some o => cases o <;> decide

theorem quiet_binaryMark (op : String) : Quiet (binaryMark op) := by
  unfold binaryMark
  cases BinaryOp.ofName? op with
  | none => decide
  | some o => cases o <;> decide

theorem quiet_ternaryMarks (op : String) : Quiet (ternaryMarks op).1 ∧ Quiet (ternaryMarks op).2 := by
  unfold ternaryMarks
  cases TernaryOp.ofName? op with
  | none => decide
  | some o =>
    cases o
    decide

theorem tidy_helperName {span : Span} (h : printName span.start ∈ names) : Tidy names (Print.helperName span) :=
  tidy_word (isIdentifier_numbered (by decide) span.start) (fun _ => by rwa [String.ofList_toList])

theorem tidy_print {p : Place} {span : Span} (hName : printName span.start ∈ names) (args : List Node)
    {parts : List (List Addition)} (h : ∀ as ∈ parts, Tidy names (pageText as)) :
    Tidy names (pageText (printAdditions p span args parts)) := by
  rw [pageText_printAdditions]
  exact (tidy_helperName hName).parted "(" (by decide) ((tidy_commaSeparated h).trail ")" (by decide))

-- ---------------------------------------------------------------------------
-- Trees
-- ---------------------------------------------------------------------------

namespace Node

/-- The names that a node brings along are C identifiers, and its digits have no underscores among them. -/
def WellSpelled : Node → Prop
  | .number form _ _ => form.Unbroken
  | .id name _ | .label name _ | .goto name _ => IsIdentifier name.toList
  | .dotIndex _ field _ => IsIdentifier field.toList
  | .forNum var _ _ _ _ _ _ => IsIdentifier var.name.toList
  | .varDecl _ _ vars _ _ => ∀ var ∈ vars, IsIdentifier var.name.toList
  | .funcDef _ name params _ _ _ => IsIdentifier name.toList ∧ ∀ q ∈ params, IsIdentifier q.name.toList
  | _ => True

/-- The page of a tree has no names that look generated, except those of its strings and print calls. Statements end
their last line. -/
theorem tidy_additions {n : Node} (hSpelled : ∀ m ∈ n.nodes, m.WellSpelled)
    (hNames : ∀ m ∈ n.nodes, ∀ name ∈ m.symbolName?, name ∈ names) (p : Place) :
    Tidy names (pageText (n.additions p)) ∧
      (n.tag.isExpression = false → endsApart (pageText (n.additions p)) = true) := by
  induction n using childInduction generalizing p with
  | step n hBelow =>
    obtain ⟨hSelf, hSpelled⟩ := forall_mem_nodes.mp hSpelled
    obtain ⟨hName, hNames⟩ := forall_mem_nodes.mp hNames
    have ih : ∀ c ∈ n.children, ∀ q, Tidy names (pageText (c.additions q)) :=
      fun c hc q => (hBelow c hc (hSpelled c hc) (hNames c hc) q).1
    have hAll : ∀ (cs : List Node) (q : Place), (∀ c ∈ cs, c ∈ n.children) →
        ∀ as ∈ additionsAll q cs, Tidy names (pageText as) :=
      fun cs q hcs => forall_mem_additionsAll.mpr fun c hc => ih c (hcs c hc) q
    have hOption : ∀ (o : Option Node) (q : Place), (∀ c ∈ o, c ∈ n.children) →
        ∀ as ∈ additionsOption q o, Tidy names (pageText as) :=
      fun o q hcs => forall_mem_additionsOption.mpr fun c hc => ih c (hcs c hc) q
    have hArms : ∀ (arms : List (Arm Node)) (q : Place), (∀ a ∈ arms, a.guard ∈ n.children ∧ a.body ∈ n.children) →
        ∀ a ∈ additionsArms q arms, Tidy names (pageText a.guard) ∧ Tidy names (pageText a.body) :=
      fun arms q hcs => forall_mem_additionsArms.mpr fun a ha =>
        ⟨ih a.guard (hcs a ha).1 q, ih a.body (hcs a ha).2 q.deeper⟩
    -- A statement leaves whole lines; an expression need not.
    have hOpen : ∀ {s : String}, n.tag.isExpression = true → Tidy names s →
        Tidy names s ∧ (n.tag.isExpression = false → endsApart s = true) := by
      intro s hTag h
      exact ⟨h, fun hFalse => absurd (hTag.symm.trans hFalse) (by decide)⟩
    have hClosed : ∀ {s : String}, Closed names s → Tidy names s ∧ (n.tag.isExpression = false → endsApart s = true) :=
      fun h => ⟨h.tidy, fun _ => h.apart⟩
    cases n with
    | number form suffix span => exact hOpen rfl (tidy_number hSelf suffix)
    | string value span =>
      rw [additions, pageText_stringAdditions]
      exact hOpen rfl (tidy_recordText (hName _ rfl))
    | boolean value span =>
      rw [additions, pageText_cons, pageText_text]
      exact hOpen rfl (tidy_of_quiet (by cases value <;> decide))
    | nil span =>
      rw [additions, pageText_cons, pageText_text]
      exact hOpen rfl (tidy_of_quiet (by decide))
    | varargs span => exact hOpen rfl closed_empty.tidy
    | id name span =>
      rw [additions, pageText_text]
      exact hOpen rfl (tidy_escapeName hSelf)
    | paren inner span =>
      have hInner := ih inner (by simp [children]) (p.descend .paren)
      rw [additions, pageText_append, pageText_append, pageText_text, pageText_text, String.append_assoc]
      exact hOpen rfl (.lead "(" (by decide) (hInner.trail ")" (by decide)))
    | dotIndex base field span =>
      have hBase := ih base (by simp [children]) (p.descend .dotIndex)
      rw [additions, pageText_append, pageText_text]
      exact hOpen rfl (hBase.parted "." (by decide) (tidy_escapeName hSelf))
    | arrayIndex base index span =>
      have hBase := ih base (by simp [children]) (p.descend .arrayIndex)
      have hIndex := ih index (by simp [children]) (p.descend .arrayIndex)
      rw [additions]
      simp only [pageText_append, pageText_text, String.append_assoc]
      exact hOpen rfl (hBase.parted "[" (by decide) (hIndex.trail "]" (by decide)))
    | call callee args span =>
      have hArgs := hAll args (p.descend .call) (fun a ha => by simp [children, ha])
      cases hCallee : Expression.intrinsic? callee with
      | none =>
        have hFunction := ih callee (by simp [children]) (p.descend .call)
        rw [pageText_call hCallee]
        exact hOpen rfl (hFunction.parted "(" (by decide) ((tidy_commaSeparated hArgs).trail ")" (by decide)))
      | some intrinsic =>
        cases intrinsic
        have hStart : printName span.start ∈ names := hName _ (symbolName?_print hCallee)
        rw [additions, hCallee]
        exact hOpen rfl (tidy_print hStart args hArgs)
    | unaryOp op operand span =>
      have hOperand := ih operand (by simp [children]) (p.descend .unaryOp)
      refine hOpen rfl (tidy_wrapped ?_)
      rw [pageText_append, pageText_text]
      exact .lead _ (leads_unaryMark op) hOperand
    | binaryOp op lhs rhs span =>
      have hLeft := ih lhs (by simp [children]) (p.descend .binaryOp)
      have hRight := ih rhs (by simp [children]) (p.descend .binaryOp)
      have hMark : Tidy names (binaryMark op) := tidy_of_quiet (quiet_binaryMark op)
      refine hOpen rfl (tidy_wrapped ?_)
      simp only [pageText_append, pageText_text, String.append_assoc]
      exact hLeft.parted " " (by decide) (hMark.parted " " (by decide) hRight)
    | ternaryOp op first second third span =>
      have hFirst := ih first (by simp [children]) (p.descend .ternaryOp)
      have hSecond := ih second (by simp [children]) (p.descend .ternaryOp)
      have hThird := ih third (by simp [children]) (p.descend .ternaryOp)
      have hMark : Tidy names (ternaryMarks op).1 := tidy_of_quiet (quiet_ternaryMarks op).1
      have hMark' : Tidy names (ternaryMarks op).2 := tidy_of_quiet (quiet_ternaryMarks op).2
      refine hOpen rfl (tidy_wrapped ?_)
      simp only [pageText_append, pageText_text, String.append_assoc]
      exact hSecond.parted " " (by decide) (hMark.parted " " (by decide) (hFirst.parted " " (by decide)
        (hMark'.parted " " (by decide) hThird)))
    | block statements span =>
      rw [additions, statementsAdditions_eq]
      refine hClosed (closed_block (closed_flatMap fun c hc => ?_))
      obtain ⟨hTidy, hApart⟩ := hBelow c hc (hSpelled c hc) (hNames c hc) ((p.descend .block).inBlock.ofStatement c)
      exact closed_statement hTidy hApart
    | ret values span => exact hClosed (closed_ret (hAll values _ fun c hc => hc))
    | cond branches otherwise span =>
      have hParts := fun c hc => (hc : c ∈ (cond branches otherwise span).children)
      obtain ⟨hBranches, hOtherwise⟩ := forall_mem_arms_append.mp hParts
      exact hClosed (closed_cond (hArms branches _ hBranches) (hOption otherwise _ hOtherwise))
    | switch subject cases otherwise span =>
      have hSubject := ih subject (by simp [children]) (p.descend .switch)
      have hParts := fun c hc => (List.mem_cons_of_mem subject hc : c ∈ (switch subject cases otherwise span).children)
      obtain ⟨hCases, hOtherwise⟩ := forall_mem_arms_append.mp hParts
      exact hClosed (closed_switch hSubject (hArms cases _ hCases) (hOption otherwise _ hOtherwise))
    | «scoped» body span => exact hClosed (closed_braced (ih body (by simp [children]) _))
    | whileLoop guard body span =>
      exact hClosed (closed_whileLoop (ih guard (by simp [children]) _) (ih body (by simp [children]) _))
    | repeatLoop body guard span =>
      exact hClosed (closed_repeatLoop (ih guard (by simp [children]) _) (ih body (by simp [children]) _))
    | forNum var first comparator last step body span =>
      have hFirst := ih first (by simp [children]) (p.descend .forNum)
      have hLast := ih last (by simp [children]) (p.descend .forNum)
      have hBody := ih body (by simp [children]) (p.descend .forNum).deeper
      have hStep := hOption step (p.descend .forNum) (fun c hc => by simp [children, Option.mem_def.mp hc])
      have hKnown : Known names (Target.escapeName var.name).toList :=
        known_of_not_isGenerated (not_isGenerated_escapeName var.name)
      exact hClosed (closed_forNum (Target.isIdentifier_escapeName hSelf) hKnown _ hFirst hLast hStep hBody)
    | forIn vars exprs body span => exact hClosed closed_empty
    | breakLoop span => exact hClosed (closed_fixed_line "break;" (by decide))
    | continueLoop span => exact hClosed (closed_fixed_line "continue;" (by decide))
    | label name span => exact hClosed (closed_line ((tidy_escapeName hSelf).trail ":;" (by decide)))
    | goto target span =>
      rw [additions, String.append_assoc]
      exact hClosed (closed_line (.lead "goto " (by decide) ((tidy_escapeName hSelf).trail ";" (by decide))))
    | varDecl visibility mutability vars values span =>
      have hQualifier : (Declaration.qualifier? mutability).getD "" = "" ∨
          (Declaration.qualifier? mutability).getD "" = " const" := by
        cases mutability <;> simp [Declaration.qualifier?]
      refine hClosed (closed_declareVariables hQualifier hSelf fun v hv => ?_)
      exact hAll values _ (fun c hc => hc) v.2 (List.of_mem_zip hv).2
    | assign targets values span =>
      exact hClosed (closed_stores (hAll targets _ fun c hc => mem_alternate.mpr (Or.inl hc))
        (hAll values _ fun c hc => mem_alternate.mpr (Or.inr hc)))
    | funcDef visibility name params returns body span =>
      rw [additions, pageText_functionAdditions]
      exact hClosed closed_empty

end Node

-- ---------------------------------------------------------------------------
-- Definitions
-- ---------------------------------------------------------------------------

theorem tidy_intercalate {ss : List String} {f : String} (hf : Parts f) (h : ∀ s ∈ ss, Tidy names s) :
    Tidy names (f.intercalate ss) := by
  induction ss with
  | nil =>
    rw [String.intercalate_nil]
    exact closed_empty.tidy
  | cons s ss ih =>
    obtain ⟨hFirst, hRest⟩ := List.forall_mem_cons.mp h
    cases ss with
    | nil =>
      rw [String.intercalate_singleton]
      exact hFirst
    | cons t ss =>
      rw [String.intercalate_cons_cons, String.append_assoc]
      exact hFirst.parted f hf (ih hRest)

theorem closed_intercalate {ss : List String} (h : ∀ s ∈ ss, Closed names s) :
    Closed names ("\n".intercalate ss) := by
  induction ss with
  | nil =>
    rw [String.intercalate_nil]
    exact closed_empty
  | cons s ss ih =>
    obtain ⟨hFirst, hRest⟩ := List.forall_mem_cons.mp h
    cases ss with
    | nil =>
      rw [String.intercalate_singleton]
      exact hFirst
    | cons t ss =>
      rw [String.intercalate_cons_cons]
      exact hFirst.tidy.line.append (ih hRest)

theorem tidy_signature {result name : String} {params : List String} (hResult : Tidy names result)
    (hName : Tidy names name) (hParams : ∀ s ∈ params, Tidy names s) :
    Tidy names (Target.signature result name params) := by
  have hList : Tidy names (Target.paramList params) := by
    unfold Target.paramList
    split
    · exact tidy_of_quiet (by decide)
    · exact tidy_intercalate (by decide) hParams
  have hRest := hName.parted "(" (by decide) (hList.trail ")" (by decide))
  unfold Target.signature
  simp only [String.append_assoc]
  exact .lead "static " (by decide) (hResult.parted " " (by decide) hRest)

theorem tidy_slot (index : Nat) (arg : Node) :
    Tidy names (slotOf index arg).param ∧ Tidy names (slotOf index arg).statement := by
  have hParam : Tidy names (Print.paramName index) :=
    tidy_of_quiet (quiet_of_not_mem (by simp [Print.paramName]))
  have hEnd := hParam.trail ");" (by decide)
  have hNothing : Tidy names "" := closed_empty.tidy
  cases arg with
  | string value span =>
    have hCall := Tidy.lead "nlstring_print(" (by decide) hEnd
    rw [← String.append_assoc] at hCall
    exact ⟨.lead "const nlstring* " (by decide) hParam, hCall⟩
  | number form suffix span =>
    rw [slotOf_number]
    split
    · rename_i n _
      have hFormat : Tidy names n.type.directive.format := by
        refine tidy_of_quiet ?_
        rcases n.type with (_ | _ | _ | _ | _) | (_ | _ | _ | _ | _) | (_ | _ | _) <;> decide
      simp only [String.append_assoc]
      exact ⟨(tidy_typeSpelling _).parted " " (by decide) hParam,
        .lead "printf(" (by decide) (hFormat.parted ", " (by decide) hEnd)⟩
    · exact ⟨hNothing, hNothing⟩
  | _ => exact ⟨hNothing, hNothing⟩

theorem tidy_slotsFrom (index : Nat) (args : List Node) :
    ∀ slot ∈ slotsFrom index args, Tidy names slot.param ∧ Tidy names slot.statement := by
  induction args generalizing index with
  | nil => simp [slotsFrom]
  | cons arg args ih => exact List.forall_mem_cons.mpr ⟨tidy_slot index arg, ih (index + 1)⟩

theorem closed_framed {width : Nat} {head foot : String} {body : List String} (hHead : Tidy names head)
    (hBody : ∀ l ∈ body, Tidy names l) (hFoot : Tidy names foot) : Closed names (Page.framed width head body foot) := by
  have hLines : Closed names (String.join (body.map (fun l => Page.indentation 1 width ++ l ++ "\n"))) := by
    refine .join (List.forall_mem_map.mpr fun l hl => ?_)
    exact (Tidy.lead _ (leads_indentation 1 width) (hBody l hl)).line
  have hText : Page.framed width head body foot = head ++ "\n" ++
      String.join (body.map (fun l => Page.indentation 1 width ++ l ++ "\n")) ++ (foot ++ "\n") := by
    simp [Page.framed, String.append_assoc]
  rw [hText]
  exact (hHead.line.append hLines).append hFoot.line

theorem forall_mem_intersperse {α : Type} {Q : α → Prop} {a : α} {l : List α} (ha : Q a) (h : ∀ b ∈ l, Q b) :
    ∀ b ∈ l.intersperse a, Q b := by
  fun_induction List.intersperse a l with
  | case1 => simp
  | case2 b => exact h
  | case3 b l _ ih =>
    obtain ⟨hFirst, hRest⟩ := List.forall_mem_cons.mp h
    exact List.forall_mem_cons.mpr ⟨hFirst, List.forall_mem_cons.mpr ⟨ha, ih hRest⟩⟩

theorem closed_helper {name : String} (hName : Tidy names name) (width : Nat) (args : List Node) :
    Closed names (Print.helper width name (slotsFrom 1 args)) := by
  have hSlots : ∀ slot ∈ slotsFrom 1 args, Tidy names slot.param ∧ Tidy names slot.statement := tidy_slotsFrom 1 args
  have hSignature : Tidy names (Print.signature name (slotsFrom 1 args)) :=
    tidy_signature (tidy_of_quiet (by decide)) hName (List.forall_mem_map.mpr fun slot hs => (hSlots slot hs).1)
  refine closed_framed (hSignature.trail " \x7b" (by decide)) ?_ (tidy_of_quiet (by decide))
  rw [Print.body, List.forall_mem_append]
  constructor
  · refine forall_mem_intersperse (tidy_of_quiet (by decide)) (List.forall_mem_map.mpr fun slot hs => (hSlots slot hs).2)
  · simp only [List.forall_mem_cons]
    exact ⟨tidy_of_quiet (by decide), tidy_of_quiet (by decide), by simp⟩

theorem closed_functionText {signature body : String} (hSignature : Tidy names signature) (hBody : Tidy names body) :
    Closed names (functionText signature body) := by
  have hText : functionText signature body = signature ++ (" \x7b\n" ++ (body ++ "\x7d")) ++ "\n" := by
    simp [functionText, String.append_assoc]
  rw [hText]
  exact (hSignature.parted " \x7b\n" (by decide) (hBody.trail "\x7d" (by decide))).line

namespace Node

/-- What is defined for a tree: the helper of a print call, or a function. -/
inductive Defines (root : Node) (width : Nat) : Addition → Prop where
  | helper {callee : Node} {args : List Node} {span : Span} : .call callee args span ∈ root.nodes →
      Expression.intrinsic? callee = some .print →
      Defines root width (.helper (Print.helper width (Print.helperName span) (slotsFrom 1 args)))
  | function {visibility : Visibility} {name : String} {params : List TypedName} {returns : List String} {body : Node}
      {span : Span} (q : Place) : .funcDef visibility name params returns body span ∈ root.nodes →
      Defines root width (.function (functionSignature name params returns) (pageText (body.additions q)))

theorem defines_of_mem {root : Node} {depth : Nat} (hSoundAt : root.SoundAt depth) (p : Place) :
    ∀ a ∈ root.additions p, a.definition?.isSome = true → Defines root p.width a := by
  refine forall_mem_additions (by simp [definition?]) (by simp [definition?]) (by simp [definition?])
    (by simp [definition?]) hSoundAt p fun m hm q hq => List.forall_mem_append.mpr ?_
  cases m with
  | string value span => exact ⟨by simp [own, definition?], List.forall_mem_nil _⟩
  | call callee args span =>
    refine ⟨?_, List.forall_mem_nil _⟩
    rw [own, hq]
    cases hCallee : Expression.intrinsic? callee with
    | none => exact List.forall_mem_nil _
    | some intrinsic =>
      cases intrinsic
      simp only [List.forall_mem_cons]
      exact ⟨by simp [definition?], by simp [definition?], fun _ => .helper hm hCallee, List.forall_mem_nil _⟩
  | funcDef visibility name params returns body span =>
    exact ⟨by simp [own, definition?], List.forall_mem_singleton.mpr fun _ => .function _ hm⟩
  | _ => exact ⟨List.forall_mem_nil _, List.forall_mem_nil _⟩

/-- Nor have the functions and print helpers that are defined for a tree any other names that look generated. -/
theorem closed_definitions {root : Node} {depth : Nat} (hSoundAt : root.SoundAt depth)
    (hSpelled : ∀ m ∈ root.nodes, m.WellSpelled) (hNames : ∀ m ∈ root.nodes, ∀ name ∈ m.symbolName?, name ∈ names)
    (p : Place) : ∀ t ∈ (root.additions p).filterMap definition?, Closed names t := by
  intro t ht
  obtain ⟨a, ha, hDefinition⟩ := List.mem_filterMap.mp ht
  cases defines_of_mem hSoundAt p a ha (by simp [hDefinition]) with
  | @helper callee args span hm hCallee =>
    have hStart : printName span.start ∈ names :=
      hNames _ hm _ (symbolName?_print hCallee)
    obtain rfl := Option.some.inj hDefinition
    exact closed_helper (tidy_helperName hStart) p.width args
  | @function visibility name params returns body span q hm =>
    obtain ⟨hName, hParams⟩ := hSpelled _ hm
    have hBelow : ∀ m ∈ body.nodes, m ∈ root.nodes := fun m hBody =>
      nodes_subset hm (nodes_subset (mem_nodes_of_mem_children (by simp [children])) hBody)
    have hResult : Tidy names (resultSpelling returns) := by
      cases returns with
      | nil => exact tidy_of_quiet (by decide)
      | cons type rest => exact tidy_typeSpelling type
    have hSignature : Tidy names (functionSignature name params returns) := by
      refine tidy_signature hResult (tidy_escapeName hName) (List.forall_mem_map.mpr fun q hq => ?_)
      rw [String.append_assoc]
      exact (tidy_typeSpelling _).parted " " (by decide) (tidy_escapeName (hParams q hq))
    have hBody := (tidy_additions (fun m h => hSpelled m (hBelow m h)) (fun m h => hNames m (hBelow m h)) q).1
    obtain rfl := Option.some.inj hDefinition
    exact closed_functionText hSignature hBody

end Node

end Lowering
