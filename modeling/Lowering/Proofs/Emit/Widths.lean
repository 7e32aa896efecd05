import Lowering.Proofs.C.Lines
import Lowering.Proofs.Emit.Rows

/-!
# Other widths

What a level of indentation is worth has no part in the text of an expression, nor in the lines of a statement as long as
they are not put on a page. It can be seen in helpers and functions, which have pages of their own, but only in how far the
lines of these are indented.

* `Node.textAt_congr`, `Node.uniformRows` — expressions, and the lines of statements.
* `Node.uniformAdditions` — all that a tree adds to the file.
-/

namespace Lowering

open Addition

-- ---------------------------------------------------------------------------
-- Places
-- ---------------------------------------------------------------------------

namespace Place

/-- The same place with other widths. -/
def resized (p : Place) (pageWidth width : Nat) : Place :=
  { p with pageWidth, width }

variable (p : Place) (pageWidth width : Nat)

theorem descend_resized (tag : Tag) :
    (p.resized pageWidth width).descend tag = (p.descend tag).resized pageWidth width := rfl

theorem deeper_resized : (p.resized pageWidth width).deeper = p.deeper.resized pageWidth width := rfl

theorem inBlock_resized : (p.resized pageWidth width).inBlock = p.inBlock.resized pageWidth width := by
  unfold inBlock
  cases p with
  | mk isOperator inOperator outermost isTop isMain inMain level _ _ => cases outermost <;> rfl

theorem ofStatement_resized (n : Node) :
    (p.resized pageWidth width).ofStatement n = (p.ofStatement n).resized pageWidth width := by
  unfold ofStatement
  split <;> rfl

theorem inFunction_resized : (p.resized pageWidth width).inFunction = p.inFunction.resized width width := rfl

end Place

-- ---------------------------------------------------------------------------
-- Expressions
-- ---------------------------------------------------------------------------

/-- What is read off the additions does not show how far the lines of a helper are indented. -/
def IgnoresHelpers {α : Type} (f : Addition → List α) : Prop :=
  ∀ width width' name ss, f (.helper (Print.helper width name ss)) = f (.helper (Print.helper width' name ss))

namespace Node

variable {α : Type} {f : Addition → List α} {n : Node} {p : Place} (pageWidth width : Nat)

theorem flatMap_wrapped (p : Place) (as : List Addition) :
    (p.wrapped as).flatMap f =
      if p.inOperator then f (.text "(") ++ as.flatMap f ++ f (.text ")") else as.flatMap f := by
  unfold Place.wrapped
  split <;> simp

theorem flatMap_commaSeparated (parts : List (List Addition)) :
    (commaSeparated parts).flatMap f = (f (.text ", ")).intercalate (parts.map (List.flatMap f)) := by
  fun_induction commaSeparated parts with
  | case1 => rfl
  | case2 as => simp
  | case3 as rest hRest ih =>
    obtain ⟨second, others, rfl⟩ := List.exists_cons_of_ne_nil (l := rest) hRest
    rw [List.map_cons, List.map_cons, List.intercalate_cons_cons, ← List.map_cons, ← ih]
    simp

/-- What is read off an expression. Of the place, only the kind of the node above counts. -/
theorem flatMap_expression_congr (hf : IgnoresHelpers f) (h : ∀ m ∈ n.nodes, m.tag.isExpression = true) {p q : Place}
    (hPlace : p.isOperator = q.isOperator) : (n.additions p).flatMap f = (n.additions q).flatMap f := by
  induction n using childInduction generalizing p q with
  | step n ih =>
    obtain ⟨hTag, hBelow⟩ := forall_mem_nodes.mp h
    have hChild : ∀ c ∈ n.children, ∀ tag,
        (c.additions (p.descend tag)).flatMap f = (c.additions (q.descend tag)).flatMap f :=
      fun c hc tag => ih c hc (hBelow c hc) rfl
    have hOperand : ∀ tag, (p.descend tag).inOperator = (q.descend tag).inOperator := fun _ => hPlace
    cases n
    case paren inner span =>
      simp only [additions, List.flatMap_append, hChild inner (by simp [children])]
    case dotIndex base field span =>
      simp only [additions, List.flatMap_append, hChild base (by simp [children])]
    case arrayIndex base index span =>
      simp only [additions, List.flatMap_append, hChild base (by simp [children]), hChild index (by simp [children])]
    case call callee args span =>
      have hArgs : ((additionsAll (p.descend .call) args).map (List.flatMap f)) =
          (additionsAll (q.descend .call) args).map (List.flatMap f) := by
        rw [additionsAll_eq, additionsAll_eq, List.map_map, List.map_map]
        exact List.map_congr_left fun a ha => hChild a (List.mem_cons_of_mem _ ha) _
      simp only [additions]
      cases Expression.intrinsic? callee with
      | none =>
        simp only [List.flatMap_append, flatMap_commaSeparated, hArgs, hChild callee (by simp [children])]
      | some intrinsic =>
        cases intrinsic
        simp only [printAdditions, List.flatMap_append, flatMap_commaSeparated, hArgs, List.flatMap_cons,
          hf p.width q.width]
    case unaryOp op operand span =>
      simp only [additions, List.flatMap_append, flatMap_wrapped, hOperand, hChild operand (by simp [children])]
    case binaryOp op lhs rhs span =>
      simp only [additions, List.flatMap_append, flatMap_wrapped, hOperand, hChild lhs (by simp [children]),
        hChild rhs (by simp [children])]
    case ternaryOp op first second third span =>
      simp only [additions, List.flatMap_append, flatMap_wrapped, hOperand, hChild first (by simp [children]),
        hChild second (by simp [children]), hChild third (by simp [children])]
    case number | string | boolean | nil | varargs | id => all_goals rfl
    all_goals simp [tag, Tag.isExpression] at hTag

/-- The text of an expression. -/
theorem textAt_congr (h : ∀ m ∈ n.nodes, m.tag.isExpression = true) {p q : Place} (hPlace : p.isOperator = q.isOperator) :
    n.textAt p = n.textAt q := by
  have hText : ∀ as : List Addition, (pageText as).toList = as.flatMap fun a => a.onPage.toList := by
    intro as
    induction as with
    | nil => rfl
    | cons a as ih => rw [pageText_cons, String.toList_append, ih, List.flatMap_cons]
  have hHelper : ∀ s, (Addition.helper s).onPage.toList = [] := fun _ => rfl
  have hHelpers : IgnoresHelpers fun a => a.onPage.toList := by
    intro width width' name ss
    simp only [hHelper]
  apply String.toList_inj.mp
  rw [textAt, textAt, hText, hText]
  exact flatMap_expression_congr hHelpers h hPlace

theorem textAt_resized (h : ∀ m ∈ n.nodes, m.tag.isExpression = true) (p : Place) :
    n.textAt (p.resized pageWidth width) = n.textAt p :=
  textAt_congr h rfl

-- ---------------------------------------------------------------------------
-- Lines
-- ---------------------------------------------------------------------------

/-- What an expression says does not depend on widths. -/
def Uniform (n : Node) : Prop :=
  ∀ (p : Place) (pageWidth width : Nat), n.textAt (p.resized pageWidth width) = n.textAt p

/-- What the lines of a statement are does not depend on widths. -/
def UniformRows (n : Node) : Prop :=
  ∀ (above : List Node) (p : Place) (pageWidth width : Nat), n.rows above (p.resized pageWidth width) = n.rows above p

section Rows

variable (p : Place)

theorem armsRows_resized {arms : List (Arm Node)} (o : Occurrence) (first next after : String) (last : List Row)
    (h : ∀ a ∈ arms, a.guard.Uniform ∧ a.body.UniformRows) :
    armsRows o (p.resized pageWidth width) first next after last arms = armsRows o p first next after last arms := by
  induction arms generalizing first with
  | nil => rfl
  | cons a rest ih =>
    obtain ⟨⟨hGuard, hBody⟩, hRest⟩ := List.forall_mem_cons.mp h
    rw [armsRows, armsRows, hGuard, ih next hRest, Place.deeper_resized, hBody]
    rfl

theorem optionRows_resized {otherwise : Option Node} (o : Occurrence) (first : String) (last : List Row)
    (h : ∀ c ∈ otherwise, c.UniformRows) :
    optionRows o (p.resized pageWidth width) first last otherwise = optionRows o p first last otherwise := by
  cases otherwise with
  | none => rfl
  | some body =>
    rw [optionRows, optionRows, Place.deeper_resized, h body rfl]
    rfl

theorem statementsRows_resized {statements : List Node} (above : List Node)
    (h : ∀ n ∈ statements, (n.tag.isExpression = true → n.Uniform) ∧ (n.tag.isExpression = false → n.UniformRows)) :
    statementsRows above (p.resized pageWidth width) statements = statementsRows above p statements := by
  induction statements with
  | nil => rfl
  | cons n rest ih =>
    obtain ⟨⟨hExpression, hStatement⟩, hRest⟩ := List.forall_mem_cons.mp h
    rw [statementsRows, statementsRows, ih hRest]
    congr 1
    by_cases hTag : n.tag.isExpression = true
    · rw [if_pos hTag, if_pos hTag, hExpression hTag]
      rfl
    · have hRows := hStatement (by simpa using hTag)
      rw [if_neg hTag, if_neg hTag, Place.deeper_resized, hRows, hRows]
      rfl

theorem declarationTexts_resized {values : List Node} (qualifier : String) (vars : List TypedName)
    (h : ∀ v ∈ values, v.Uniform) :
    declarationTexts (p.resized pageWidth width) qualifier vars values = declarationTexts p qualifier vars values := by
  induction vars generalizing values with
  | nil => rfl
  | cons var vars ih =>
    cases values with
    | nil =>
      rw [declarationTexts, declarationTexts, ih h]
      rfl
    | cons value values =>
      obtain ⟨hFirst, hRest⟩ := List.forall_mem_cons.mp h
      rw [declarationTexts, declarationTexts, ih hRest, declarationText, declarationText, Option.elim_some, Option.elim_some,
        hFirst]

theorem storeTexts_resized {targets values : List Node} (hTargets : ∀ t ∈ targets, t.Uniform)
    (hValues : ∀ v ∈ values, v.Uniform) :
    storeTexts (p.resized pageWidth width) targets values = storeTexts p targets values := by
  induction targets generalizing values with
  | nil => rfl
  | cons target targets ih =>
    cases values with
    | nil => rfl
    | cons value values =>
      obtain ⟨hTarget, hTargets⟩ := List.forall_mem_cons.mp hTargets
      obtain ⟨hValue, hValues⟩ := List.forall_mem_cons.mp hValues
      have hRest := ih hTargets hValues
      unfold storeTexts at hRest ⊢
      rw [List.zipWith_cons_cons, List.zipWith_cons_cons, hTarget, hValue, hRest]

theorem loopText_resized (type name : String) {first last : Node} {step : Option Node} (hFirst : first.Uniform)
    (hLast : last.Uniform) (hStep : ∀ s ∈ step, s.Uniform) :
    loopText (p.resized pageWidth width) type name first last step = loopText p type name first last step := by
  have hStepText : pageText (stepAdditions name (additionsOption (p.resized pageWidth width) step)) =
      pageText (stepAdditions name (additionsOption p step)) := by
    cases step with
    | none => rfl
    | some step =>
      have hText : pageText (step.additions (p.resized pageWidth width)) = pageText (step.additions p) :=
        hStep step rfl p pageWidth width
      simp only [additionsOption, stepAdditions, declaratorAdditions, pageText_append, hText]
  unfold loopText
  rw [hFirst, hLast, hStepText]

/-- One case for each kind of statement. -/
theorem uniformRows_of_children {n : Node} (hExpressions : ∀ c ∈ n.expressionParts, c.Uniform)
    (hBlocks : ∀ c ∈ n.blockParts, c.UniformRows)
    (hStatements : ∀ c ∈ n.children, (c.tag.isExpression = true → c.Uniform) ∧ (c.tag.isExpression = false → c.UniformRows)) :
    n.UniformRows := by
  intro above p pageWidth width
  cases n with
  | block statements span =>
    rw [rows, rows, Place.descend_resized, Place.inBlock_resized]
    exact statementsRows_resized pageWidth width _ _ hStatements
  | ret values span =>
    cases values with
    | nil => rfl
    | cons value rest =>
      rw [rows, rows, Place.descend_resized, returnText, returnText, hExpressions value (List.mem_cons_self ..)]
      rfl
  | cond branches otherwise span =>
    have hArms : ∀ a ∈ branches, a.guard.Uniform ∧ a.body.UniformRows := fun a ha =>
      ⟨hExpressions a.guard (List.mem_map_of_mem ha), hBlocks a.body (List.mem_append_left _ (List.mem_map_of_mem ha))⟩
    have hOtherwise : ∀ c ∈ otherwise, c.UniformRows := fun c hc =>
      hBlocks c (List.mem_append_right _ (by simpa using hc))
    simp only [rows, Place.descend_resized, armsRows_resized pageWidth width _ _ _ _ _ _ hArms,
      optionRows_resized pageWidth width _ _ _ _ hOtherwise]
    rfl
  | switch subject cases otherwise span =>
    have hArms : ∀ a ∈ cases, a.guard.Uniform ∧ a.body.UniformRows := fun a ha =>
      ⟨hExpressions a.guard (List.mem_cons_of_mem _ (List.mem_map_of_mem ha)),
        hBlocks a.body (List.mem_append_left _ (List.mem_map_of_mem ha))⟩
    have hOtherwise : ∀ c ∈ otherwise, c.UniformRows := fun c hc =>
      hBlocks c (List.mem_append_right _ (by simpa using hc))
    simp only [rows, Place.descend_resized, Place.deeper_resized, armsRows_resized pageWidth width _ _ _ _ _ _ hArms,
      optionRows_resized pageWidth width _ _ _ _ hOtherwise, hExpressions subject (List.mem_cons_self ..) _ _ _]
    rfl
  | «scoped» body span =>
    rw [rows, rows, Place.descend_resized, Place.deeper_resized, hBlocks body (List.mem_singleton_self body)]
    rfl
  | whileLoop guard body span =>
    rw [rows, rows, Place.descend_resized, Place.deeper_resized, hBlocks body (List.mem_singleton_self body),
      hExpressions guard (List.mem_singleton_self guard)]
    rfl
  | repeatLoop body guard span =>
    rw [rows, rows, Place.descend_resized, Place.deeper_resized, hBlocks body (List.mem_singleton_self body),
      hExpressions guard (List.mem_singleton_self guard)]
    rfl
  | forNum var first comparator last step body span =>
    have hFirst := hExpressions first (by simp [expressionParts])
    have hLast := hExpressions last (by simp [expressionParts])
    have hStep : ∀ s ∈ step, s.Uniform := fun s hs => hExpressions s (by simpa [expressionParts] using .inr (.inr hs))
    rw [rows, rows, Place.descend_resized, Place.deeper_resized, hBlocks body (List.mem_singleton_self body),
      loopText_resized pageWidth width _ _ _ hFirst hLast hStep]
    rfl
  | varDecl visibility mutability vars values span =>
    have hValues : ∀ v ∈ values, v.Uniform := hExpressions
    rw [rows, rows, Place.descend_resized, declarationTexts_resized pageWidth width _ _ _ hValues]
    rfl
  | assign targets values span =>
    rw [rows, rows, Place.descend_resized, storeTexts_resized pageWidth width _
      (fun t ht => hExpressions t (mem_alternate.mpr (.inl ht))) (fun v hv => hExpressions v (mem_alternate.mpr (.inr hv)))]
    rfl
  | _ => rfl

end Rows

/-- The lines of a statement are the same whatever a level of indentation is worth. -/
theorem uniformRows {n : Node} (hSorted : ∀ m ∈ n.nodes, m.WellSorted) : n.UniformRows := by
  induction n using childInduction with
  | step n ih =>
    obtain ⟨hSelf, hSorted⟩ := forall_mem_nodes.mp hSorted
    have hUniform : ∀ c ∈ n.children, c.tag.isExpression = true → c.Uniform := fun c hc hTag p pageWidth width =>
      textAt_resized pageWidth width (isExpression_of_mem_nodes hTag (hSorted c hc)) p
    refine uniformRows_of_children ?_ ?_ ?_
    · exact fun c hc => hUniform c (mem_children_of_mem_expressionParts hc) (hSelf.expressions c hc)
    · exact fun c hc => ih c (mem_children_of_mem_blockParts hc) (hSorted c (mem_children_of_mem_blockParts hc))
    · exact fun c hc => ⟨hUniform c hc, fun _ => ih c hc (hSorted c hc)⟩

end Node

-- ---------------------------------------------------------------------------
-- Lines without their indentation
-- ---------------------------------------------------------------------------

open C (Whole outdent whole_of_getLast? outdent_toList_append outdent_blanks outdent_join)

theorem whole_line (s : String) : Whole (s ++ "\n").toList :=
  whole_of_getLast? s (by decide)

theorem outdent_line (level width : Nat) (s : String) :
    outdent (Page.indentation level width ++ s ++ "\n").toList = outdent (s ++ "\n").toList := by
  rw [String.append_assoc, String.toList_append, toList_indentation, outdent_blanks]

/-- A row of lines, each indented by so many levels. -/
theorem outdent_join_lines {α : Type} (xs : List α) (level : α → Nat) (text : α → String) (width : Nat) :
    outdent (String.join (xs.map fun x => Page.indentation (level x) width ++ text x ++ "\n")).toList =
      xs.flatMap fun x => outdent (text x ++ "\n").toList := by
  rw [outdent_join (List.forall_mem_map.mpr fun x _ => whole_line _), List.flatMap_map]
  exact List.flatMap_congr fun x _ => outdent_line (level x) width (text x)

theorem outdent_renderAll (width width' : Nat) (rows : List Row) :
    outdent (Row.renderAll width rows).toList = outdent (Row.renderAll width' rows).toList :=
  (outdent_join_lines rows Row.level Row.text width).trans (outdent_join_lines rows Row.level Row.text width').symm

theorem outdent_framed (width width' : Nat) (head foot : String) (body : List String) :
    outdent (Page.framed width head body foot).toList = outdent (Page.framed width' head body foot).toList := by
  have hParts : ∀ width, outdent (Page.framed width head body foot).toList =
      outdent (head ++ "\n").toList ++
        (body.flatMap (fun l => outdent (l ++ "\n").toList) ++ outdent (foot ++ "\n").toList) := by
    intro width
    have hLines := outdent_join_lines body (fun _ => 1) id width
    have hWhole : Whole (String.join (body.map fun l => Page.indentation 1 width ++ l ++ "\n")).toList :=
      C.whole_join (List.forall_mem_map.mpr fun l _ => whole_line _)
    simp only [id_eq] at hLines
    rw [Page.framed, String.append_assoc, String.append_assoc, outdent_toList_append (whole_line head),
      outdent_toList_append hWhole, hLines]
  rw [hParts, hParts]

/-- A function and its lines. -/
theorem outdent_functionText (width width' : Nat) (signature : String) (rows : List Row) :
    outdent (functionText signature (Row.renderAll width rows)).toList =
      outdent (functionText signature (Row.renderAll width' rows)).toList := by
  have hHead : Whole (signature ++ " \x7b\n").toList := whole_of_getLast? _ (by decide)
  have hParts : ∀ width, outdent (functionText signature (Row.renderAll width rows)).toList =
      outdent (signature ++ " \x7b\n").toList ++ (outdent (Row.renderAll width rows).toList ++ outdent "\x7d\n".toList) := by
    intro width
    have hRows : Whole (Row.renderAll width rows).toList :=
      C.whole_join (List.forall_mem_map.mpr fun row _ => whole_line _)
    rw [functionText, String.append_assoc, outdent_toList_append hHead, outdent_toList_append hRows]
  rw [hParts, hParts, outdent_renderAll width width']

-- ---------------------------------------------------------------------------
-- All that a tree adds
-- ---------------------------------------------------------------------------

/-- What is left of an addition without the text on the page and without the indentation of definitions. -/
def Addition.bare : Addition → Addition
  | .text _ => .text ""
  | .helper code => .helper (String.ofList (outdent code.toList))
  | .function signature body => .helper (String.ofList (outdent (functionText signature body).toList))
  | a => a

namespace Node

/-- What a node adds does not depend on widths, but for the text on the page and the indentation of definitions. -/
def UniformAdditions (n : Node) : Prop :=
  ∀ (p : Place) (pageWidth width : Nat), (n.additions (p.resized pageWidth width)).map bare = (n.additions p).map bare

section Bare

variable {as bs : List Addition} {pageWidth width : Nat} (p q : Place)

theorem map_bare_line (s : String) : (p.line s).map bare = [.text "", .text ""] := rfl

theorem map_bare_guarded (before after : String) (as : List Addition) :
    (p.guarded before as after).map bare = [Addition.text "", Addition.text ""] ++ as.map bare ++ [Addition.text ""] := by
  simp only [Place.guarded, List.map_append]
  rfl

theorem map_bare_closed (as : List Addition) : (closed as).map bare = closed (as.map bare) := by
  rw [closed, closed, List.filter_map]
  congr 2
  funext a
  cases a <;> simp [bare]

theorem map_bare_filed (as : List Addition) : (filed as).map bare = filed (as.map bare) := by
  rw [filed, filed, List.filter_map]
  congr 2
  funext a
  cases a <;> rfl

theorem returned_mem_map_bare : .returned ∈ as.map bare ↔ .returned ∈ as := by
  rw [List.mem_map]
  constructor
  · rintro ⟨a, ha, hBare⟩
    cases a <;> simp [bare] at hBare
    exact ha
  · exact fun ha => ⟨.returned, ha, rfl⟩

theorem map_bare_block (h : as.map bare = bs.map bare) (hp : p.outermost = q.outermost) :
    (p.block as).map bare = (q.block bs).map bare := by
  have hClosed : (closed as).map bare = (closed bs).map bare := by
    rw [map_bare_closed, map_bare_closed, h]
  have hReturned : .returned ∈ as ↔ .returned ∈ bs := by
    rw [← returned_mem_map_bare, h, returned_mem_map_bare]
  rw [Place.block, Place.block, hp]
  split
  · by_cases hMem : .returned ∈ bs
    · simp only [if_pos (hReturned.mpr hMem), if_pos hMem, List.map_append, hClosed]
    · simp only [if_neg (mt hReturned.mp hMem), if_neg hMem, List.map_append, hClosed, map_bare_line]
  · exact hClosed

theorem map_bare_statement (n : Node) (h : as.map bare = bs.map bare) :
    (p.statement n as).map bare = (q.statement n bs).map bare := by
  unfold Place.statement
  split
  · simp only [List.map_append, h]
    rfl
  · split
    · simp only [Place.braced, List.map_append, h, map_bare_line]
    · exact h

theorem map_bare_statements {statements : List Node} (h : ∀ n ∈ statements, n.UniformAdditions) :
    (statementsAdditions (p.resized pageWidth width) statements).map bare =
      (statementsAdditions p statements).map bare := by
  rw [statementsAdditions_eq, statementsAdditions_eq, List.map_flatMap, List.map_flatMap]
  refine List.flatMap_congr fun n hn => map_bare_statement _ _ n ?_
  rw [Place.ofStatement_resized]
  exact h n hn _ pageWidth width

theorem map_bare_arms {arms : List (Arm Node)} {f g : Arm (List Addition) → List Addition}
    (h : ∀ a ∈ arms, a.guard.UniformAdditions ∧ a.body.UniformAdditions)
    (hfg : ∀ a b : Arm (List Addition), a.guard.map bare = b.guard.map bare → a.body.map bare = b.body.map bare →
      (f a).map bare = (g b).map bare) :
    ((additionsArms (p.resized pageWidth width) arms).flatMap f).map bare =
      ((additionsArms p arms).flatMap g).map bare := by
  rw [additionsArms_eq, additionsArms_eq, List.map_flatMap, List.map_flatMap, List.flatMap_map, List.flatMap_map]
  refine List.flatMap_congr fun a ha => hfg _ _ ?_ ?_
  · exact (h a ha).1 p pageWidth width
  · exact (h a ha).2 p.deeper pageWidth width

theorem map_bare_branch {a b : Arm (List Addition)} (before : String) (hGuard : a.guard.map bare = b.guard.map bare)
    (hBody : a.body.map bare = b.body.map bare) : (p.branch before a).map bare = (q.branch before b).map bare := by
  simp only [Place.branch, List.map_append, map_bare_guarded, hGuard, hBody]

theorem map_bare_switchArm {a b : Arm (List Addition)} (hGuard : a.guard.map bare = b.guard.map bare)
    (hBody : a.body.map bare = b.body.map bare) : (p.switchArm a).map bare = (q.switchArm b).map bare := by
  simp only [Place.switchArm, Place.armBody, List.map_append, map_bare_guarded, map_bare_line, hGuard, hBody]

theorem map_bare_cond {branches : List (Arm Node)} {o o' : Option (List Addition)}
    (h : ∀ a ∈ branches, a.guard.UniformAdditions ∧ a.body.UniformAdditions)
    (hElse : o.map (List.map bare) = o'.map (List.map bare)) :
    ((p.resized pageWidth width).cond (additionsArms (p.resized pageWidth width) branches) o).map bare =
      (p.cond (additionsArms p branches) o').map bare := by
  cases branches with
  | nil => rfl
  | cons first rest =>
    obtain ⟨⟨hGuard, hBody⟩, hRest⟩ := List.forall_mem_cons.mp h
    have hOtherwise : ((p.resized pageWidth width).otherwise o).map bare = (p.otherwise o').map bare := by
      cases o <;> cases o' <;> simp [Place.otherwise, map_bare_line] at hElse ⊢
      exact hElse
    have hFirst : ((p.resized pageWidth width).branch "if ("
        ⟨first.guard.additions (p.resized pageWidth width), first.body.additions (p.deeper.resized pageWidth width)⟩).map bare =
          (p.branch "if (" ⟨first.guard.additions p, first.body.additions p.deeper⟩).map bare :=
      map_bare_branch _ _ _ (hGuard p pageWidth width) (hBody p.deeper pageWidth width)
    rw [additionsArms, additionsArms, Place.cond, Place.cond, Place.deeper_resized]
    simp only [List.map_append, map_bare_line, hOtherwise, hFirst]
    rw [map_bare_arms p hRest fun a b => map_bare_branch _ p "\x7d else if ("]

theorem map_bare_switch {arms : List (Arm Node)} {o o' : Option (List Addition)}
    (h : ∀ a ∈ arms, a.guard.UniformAdditions ∧ a.body.UniformAdditions) (hSubject : as.map bare = bs.map bare)
    (hDefault : o.map (List.map bare) = o'.map (List.map bare)) :
    ((p.resized pageWidth width).switch as (additionsArms (p.resized pageWidth width).deeper arms) o).map bare =
      (p.switch bs (additionsArms p.deeper arms) o').map bare := by
  have hLast : ((p.resized pageWidth width).deeper.defaultArm o).map bare = (p.deeper.defaultArm o').map bare := by
    cases o <;> cases o' <;> simp [Place.defaultArm, Place.armBody, map_bare_line] at hDefault ⊢
    exact hDefault
  rw [Place.switch, Place.switch, Place.deeper_resized]
  simp only [List.map_append, map_bare_line, map_bare_guarded, hSubject]
  rw [map_bare_arms p.deeper h fun a b => map_bare_switchArm _ p.deeper, ← Place.deeper_resized, hLast]

theorem map_bare_declareVariables (qualifier : String) (vars : List TypedName) {values : List Node}
    (h : ∀ v ∈ values, v.UniformAdditions) :
    ((p.resized pageWidth width).declareVariables qualifier vars
      (values.map (fun v => (v, v.additions (p.resized pageWidth width))))).map bare =
      (p.declareVariables qualifier vars (values.map (fun v => (v, v.additions p)))).map bare := by
  induction vars generalizing values with
  | nil => rfl
  | cons var vars ih =>
    cases values with
    | nil =>
      have hRest := ih h
      simp only [List.map_nil] at hRest
      simp only [List.map_nil, Place.declareVariables, Place.declareVariable, List.map_append, hRest]
      rfl
    | cons value values =>
      obtain ⟨hFirst, hValues⟩ := List.forall_mem_cons.mp h
      simp only [List.map_cons, Place.declareVariables, Place.declareVariable, List.map_append, ih hValues,
        hFirst p pageWidth width]
      rfl

theorem map_bare_stores {targets values : List Node} (hTargets : ∀ t ∈ targets, t.UniformAdditions)
    (hValues : ∀ v ∈ values, v.UniformAdditions) :
    ((p.resized pageWidth width).stores (additionsAll (p.resized pageWidth width) targets)
      (additionsAll (p.resized pageWidth width) values)).map bare =
      (p.stores (additionsAll p targets) (additionsAll p values)).map bare := by
  induction targets generalizing values with
  | nil => rfl
  | cons target targets ih =>
    cases values with
    | nil => rfl
    | cons value values =>
      obtain ⟨hTarget, hTargets⟩ := List.forall_mem_cons.mp hTargets
      obtain ⟨hValue, hValues⟩ := List.forall_mem_cons.mp hValues
      simp only [additionsAll, Place.stores, List.map_append, ih hTargets hValues, hTarget p pageWidth width,
        hValue p pageWidth width]
      rfl

theorem map_bare_forNum (type name : String) {first last first' last' body body' : List Addition}
    {step step' : Option (List Addition)} (hFirst : first.map bare = first'.map bare)
    (hLast : last.map bare = last'.map bare) (hBody : body.map bare = body'.map bare)
    (hStep : step.map (List.map bare) = step'.map (List.map bare)) :
    (p.forNum type name first last step body).map bare = (q.forNum type name first' last' step' body').map bare := by
  have hStepAdditions : (stepAdditions name step).map bare = (stepAdditions name step').map bare := by
    cases step <;> cases step' <;> simp [stepAdditions, declaratorAdditions] at hStep ⊢
    exact hStep
  simp only [Place.forNum, declaratorAdditions, List.map_append, hFirst, hLast, hBody, hStepAdditions, map_bare_line]
  rfl

theorem map_bare_function (name : String) (params : List TypedName) (returns : List String)
    (h : as.map bare = bs.map bare)
    (hText : ∀ signature, outdent (functionText signature (pageText as)).toList =
      outdent (functionText signature (pageText bs)).toList) :
    (functionAdditions name params returns as).map bare = (functionAdditions name params returns bs).map bare := by
  simp only [functionAdditions, List.map_append, map_bare_filed, h, List.map_cons, List.map_nil, bare, hText]

end Bare

section Nodes

variable {n : Node}

/-- One case for each kind of statement. -/
theorem uniformAdditions_of_children (h : ∀ c ∈ n.children, c.UniformAdditions) (hTag : n.tag.isExpression = false)
    (hText : ∀ c ∈ n.blockParts, ∀ (p : Place) (width : Nat) (signature : String), p.outermost = false →
      outdent (functionText signature (pageText (c.additions (p.resized width width)))).toList =
        outdent (functionText signature (pageText (c.additions p))).toList) :
    n.UniformAdditions := by
  intro p pageWidth width
  have hChild : ∀ c ∈ n.children, ∀ q : Place,
      (c.additions (q.resized pageWidth width)).map bare = (c.additions q).map bare :=
    fun c hc q => h c hc q pageWidth width
  have hArms : ∀ arms : List (Arm Node), (∀ c ∈ arms.flatMap (fun a => [a.guard, a.body]), c ∈ n.children) →
      ∀ a ∈ arms, a.guard.UniformAdditions ∧ a.body.UniformAdditions := fun arms hcs a ha =>
    ⟨h _ (forall_mem_arms.mp hcs a ha).1, h _ (forall_mem_arms.mp hcs a ha).2⟩
  have hOption : ∀ (o : Option Node) (q : Place), (∀ c ∈ o.toList, c ∈ n.children) →
      (additionsOption (q.resized pageWidth width) o).map (List.map bare) = (additionsOption q o).map (List.map bare) := by
    intro o q hcs
    cases o with
    | none => rfl
    | some c => simp only [additionsOption, Option.map_some, hChild c (hcs c (by simp))]
  cases n with
  | block statements span =>
    rw [additions, additions, Place.descend_resized, Place.inBlock_resized]
    exact map_bare_block _ _ (map_bare_statements _ h) rfl
  | ret values span =>
    cases values with
    | nil => rfl
    | cons value rest =>
      simp only [additions, additionsAll, Place.ret, Place.descend_resized, List.map_append,
        hChild value (by simp [children])]
      rfl
  | cond branches otherwise span =>
    have hBranches := hArms branches fun c hc => List.mem_append_left _ hc
    have hElse := hOption otherwise (p.descend .cond).deeper fun c hc => List.mem_append_right _ hc
    rw [additions, additions, Place.descend_resized, Place.deeper_resized]
    exact map_bare_cond _ hBranches hElse
  | switch subject cases otherwise span =>
    have hCases := hArms cases fun c hc => List.mem_append_left _ (List.mem_cons_of_mem _ hc)
    have hDefault := hOption otherwise (p.descend .switch).deeper.deeper fun c hc => List.mem_append_right _ hc
    rw [additions, additions, Place.descend_resized]
    exact map_bare_switch _ hCases (hChild subject (by simp [children]) _) hDefault
  | «scoped» body span =>
    simp only [additions, Place.braced, List.map_append, map_bare_line, Place.descend_resized, Place.deeper_resized,
      hChild body (by simp [children])]
  | whileLoop guard body span =>
    simp only [additions, Place.whileLoop, List.map_append, map_bare_line, map_bare_guarded, Place.descend_resized,
      Place.deeper_resized, hChild guard (by simp [children]), hChild body (by simp [children])]
  | repeatLoop body guard span =>
    simp only [additions, Place.repeatLoop, List.map_append, map_bare_line, map_bare_guarded, Place.descend_resized,
      Place.deeper_resized, hChild guard (by simp [children]), hChild body (by simp [children])]
  | forNum var first comparator last step body span =>
    rw [additions, additions, Place.descend_resized, Place.deeper_resized]
    exact map_bare_forNum _ _ _ _ (hChild first (by simp [children]) _) (hChild last (by simp [children]) _)
      (hChild body (by simp [children]) _) (hOption step _ (fun c hc => by simp [children] at hc ⊢; tauto))
  | varDecl visibility mutability vars values span =>
    rw [additions, additions, Place.descend_resized, additionsAll_eq, additionsAll_eq, zip_map_self, zip_map_self]
    exact map_bare_declareVariables _ _ _ h
  | assign targets values span =>
    rw [additions, additions, Place.descend_resized]
    exact map_bare_stores _ (fun t ht => h t (mem_alternate.mpr (.inl ht))) fun v hv => h v (mem_alternate.mpr (.inr hv))
  | funcDef visibility name params returns body span =>
    rw [additions, additions, Place.descend_resized, Place.inFunction_resized]
    exact map_bare_function _ _ _ (h body (by simp [children]) _ _ _) fun signature =>
      hText body (by simp [blockParts]) _ _ signature rfl
  | forIn | breakLoop | continueLoop | label | goto => rfl
  | _ => simp [tag, Tag.isExpression] at hTag

/-- Whatever a level of indentation is worth, a tree adds the same to the file, but for the indentation of definitions. -/
theorem uniformAdditions {depth : Nat} (hSoundAt : n.SoundAt depth) (hSorted : ∀ m ∈ n.nodes, m.WellSorted) :
    n.UniformAdditions := by
  induction n using childInduction generalizing depth with
  | step n ih =>
    obtain ⟨hSelf, hSortedBelow⟩ := forall_mem_nodes.mp hSorted
    obtain ⟨hSound, hBelow⟩ := soundAt_iff.mp hSoundAt
    by_cases hTag : n.tag.isExpression = true
    · intro p pageWidth width
      have hHelpers : IgnoresHelpers fun a => [bare a] := by
        intro width width' name ss
        simp only [bare, Print.helper, outdent_framed width width']
      have hBare := flatMap_expression_congr (p := p.resized pageWidth width) (q := p) hHelpers
        (isExpression_of_mem_nodes hTag hSorted) rfl
      rwa [← List.map_eq_flatMap, ← List.map_eq_flatMap] at hBare
    · refine uniformAdditions_of_children (fun c hc => ih c hc (hBelow c hc) (hSortedBelow c hc)) (by simpa using hTag) ?_
      intro c hc p width signature hp
      have hMem := mem_children_of_mem_blockParts hc
      have hRendered := isRendered (hBelow c hMem) (hSortedBelow c hMem) (by rw [hSelf.blocks c hc]; rfl) []
      rw [hRendered p hp, hRendered (p.resized width width) hp, uniformRows (hSortedBelow c hMem)]
      exact outdent_functionText _ _ _ _

end Nodes

end Node

end Lowering
