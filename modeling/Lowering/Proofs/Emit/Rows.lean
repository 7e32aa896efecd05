import Lowering.Proofs.Emit.Layout
import Lowering.Proofs.Path

/-!
# The lines of a page

A page is a row of lines. Each of them is written for one occurrence of a node, says something, and is indented by so many
levels. What the lines of a tree are does not depend on what a level is worth: that number comes in only when the lines are
put on the page.

* `Row` — a line, with the occurrence that it is written for.
* `Node.rows`, `Node.statementsRows` — the lines of a statement and of the statements of a block.
* `Node.isRendered` — the text of a statement is its lines.
-/

namespace Lowering

open Addition

-- ---------------------------------------------------------------------------
-- Lines
-- ---------------------------------------------------------------------------

/-- A line of a page: the occurrence it is written for, how many levels it is indented, and what it says. -/
structure Row where
  origin : Occurrence
  level : Nat
  text : String

namespace Row

/-- The line on a page where a level is worth so many blanks. -/
def render (width : Nat) (row : Row) : String :=
  Page.indentation row.level width ++ row.text ++ "\n"

/-- The lines on a page, one after the other. -/
def renderAll (width : Nat) (rows : List Row) : String :=
  String.join (rows.map (render width))

@[simp]
theorem renderAll_nil (width : Nat) : renderAll width [] = "" := rfl

@[simp]
theorem renderAll_cons (width : Nat) (row : Row) (rows : List Row) :
    renderAll width (row :: rows) = row.render width ++ renderAll width rows := by
  rw [renderAll, List.map_cons, String.join_cons]
  rfl

@[simp]
theorem renderAll_append (width : Nat) (rows rows' : List Row) :
    renderAll width (rows ++ rows') = renderAll width rows ++ renderAll width rows' := by
  rw [renderAll, List.map_append, String.join_append]
  rfl

end Row

theorem Place.pageWidth_inBlock (p : Place) : p.inBlock.pageWidth = p.pageWidth := by
  unfold Place.inBlock
  split <;> rfl

/-- The path to the nodes below an occurrence. -/
def Occurrence.below (o : Occurrence) : List Node :=
  o.node :: o.above

namespace Node

/-- The nodes below an expression are expressions. -/
theorem isExpression_of_mem_nodes {n : Node} (hTag : n.tag.isExpression = true) (hSorted : ∀ m ∈ n.nodes, m.WellSorted) :
    ∀ m ∈ n.nodes, m.tag.isExpression = true := by
  induction n using childInduction with
  | step n ih =>
    obtain ⟨hSelf, hSorted⟩ := forall_mem_nodes.mp hSorted
    have hParts : n.expressionParts = n.children := by
      cases n <;> first | rfl | simp [tag, Tag.isExpression] at hTag
    exact forall_mem_nodes.mpr ⟨hTag, fun c hc => ih c hc (hSelf.expressions c (hParts ▸ hc)) (hSorted c hc)⟩

/-- What an expression says at a place. -/
def textAt (p : Place) (n : Node) : String :=
  pageText (n.additions p)

/-- The declaration of a variable. -/
def declarationText (p : Place) (qualifier : String) (var : TypedName) (value : Option Node) : String :=
  typeSpelling ((typeName? var value).getD "") ++ qualifier ++ " " ++ Target.escapeName var.name ++ " = "
    ++ value.elim "\x7b0\x7d" (textAt p) ++ ";"

/-- The declarations of variables, each with its value as long as there are values. -/
def declarationTexts (p : Place) (qualifier : String) : List TypedName → List Node → List String
  | [], _ => []
  | var :: vars, [] => declarationText p qualifier var none :: declarationTexts p qualifier vars []
  | var :: vars, value :: values =>
    declarationText p qualifier var (some value) :: declarationTexts p qualifier vars values

/-- The assignments of values to targets. -/
def storeTexts (p : Place) (targets values : List Node) : List String :=
  targets.zipWith (fun target value => target.textAt p ++ " = " ++ value.textAt p ++ ";") values

/-- The header of a numeric loop. -/
def loopText (p : Place) (type name : String) (first last : Node) (step : Option Node) : String :=
  "for (" ++ (typeSpelling type ++ (" " ++ (Loop.temporary name "begin" ++ (" = " ++ (first.textAt p ++ (", " ++
    (Loop.temporary name "end" ++ (" = " ++ (last.textAt p ++
      (pageText (stepAdditions name (additionsOption p step)) ++ (", " ++ loopEnd name step.isSome)))))))))))

/-- What a return says. -/
def returnText (p : Place) : List Node → String
  | [] => if p.inMain then "return 0;" else "return;"
  | value :: _ => "return " ++ value.textAt p ++ ";"

mutual

/-- The lines of a statement inside of a block. A function has its lines on a page of its own. -/
def rows (above : List Node) (p : Place) : Node → List Row
  | .block statements span =>
    statementsRows (.block statements span :: above) (p.descend .block).inBlock statements
  | .ret values span => [⟨⟨above, .ret values span⟩, p.level, returnText (p.descend .ret) values⟩]
  | .cond branches otherwise span =>
    let o : Occurrence := ⟨above, .cond branches otherwise span⟩
    armsRows o (p.descend .cond) "if (" "\x7d else if (" ") \x7b" [] branches
      ++ optionRows o (p.descend .cond) "\x7d else \x7b" [] otherwise ++ [⟨o, p.level, "\x7d"⟩]
  | .switch subject cases otherwise span =>
    let o : Occurrence := ⟨above, .switch subject cases otherwise span⟩
    let q := (p.descend .switch).deeper
    let last : List Row := [⟨o, q.deeper.level, "break;"⟩, ⟨o, q.level, "\x7d"⟩]
    ⟨o, p.level, "switch (" ++ subject.textAt (p.descend .switch) ++ ") \x7b"⟩
      :: armsRows o q "case " "case " ": \x7b" last cases ++ optionRows o q "default: \x7b" last otherwise
      ++ [⟨o, p.level, "\x7d"⟩]
  | .scoped body span =>
    let o : Occurrence := ⟨above, .scoped body span⟩
    ⟨o, p.level, "\x7b"⟩ :: rows o.below (p.descend .scoped).deeper body ++ [⟨o, p.level, "\x7d"⟩]
  | .whileLoop guard body span =>
    let o : Occurrence := ⟨above, .whileLoop guard body span⟩
    ⟨o, p.level, "while (" ++ guard.textAt (p.descend .whileLoop) ++ ") \x7b"⟩
      :: rows o.below (p.descend .whileLoop).deeper body ++ [⟨o, p.level, "\x7d"⟩]
  | .repeatLoop body guard span =>
    let o : Occurrence := ⟨above, .repeatLoop body guard span⟩
    ⟨o, p.level, "do \x7b"⟩ :: rows o.below (p.descend .repeatLoop).deeper body
      ++ [⟨o, p.level, "\x7d while (!(" ++ guard.textAt (p.descend .repeatLoop) ++ "));"⟩]
  | .forNum var first comparator last step body span =>
    let o : Occurrence := ⟨above, .forNum var first comparator last step body span⟩
    let type := (typeName? var (some first)).getD ""
    ⟨o, p.level, loopText (p.descend .forNum) type (Target.escapeName var.name) first last step⟩
      :: rows o.below (p.descend .forNum).deeper body ++ [⟨o, p.level, "\x7d"⟩]
  | .breakLoop span => [⟨⟨above, .breakLoop span⟩, p.level, "break;"⟩]
  | .continueLoop span => [⟨⟨above, .continueLoop span⟩, p.level, "continue;"⟩]
  | .label name span => [⟨⟨above, .label name span⟩, p.level, Target.escapeName name ++ ":;"⟩]
  | .goto target span => [⟨⟨above, .goto target span⟩, p.level, "goto " ++ Target.escapeName target ++ ";"⟩]
  | .varDecl visibility mutability vars values span =>
    let qualifier := (Declaration.qualifier? mutability).getD ""
    (declarationTexts (p.descend .varDecl) qualifier vars values).map
      (fun text => ⟨⟨above, .varDecl visibility mutability vars values span⟩, p.level, text⟩)
  | .assign targets values span =>
    (storeTexts (p.descend .assign) targets values).map (fun text => ⟨⟨above, .assign targets values span⟩, p.level, text⟩)
  | _ => []

/-- The lines of guarded parts. Each starts with a line of its own, with other words in the first of them. -/
def armsRows (o : Occurrence) (p : Place) (first next after : String) (last : List Row) : List (Arm Node) → List Row
  | [] => []
  | ⟨guard, body⟩ :: rest =>
    ⟨o, p.level, first ++ guard.textAt p ++ after⟩ :: rows o.below p.deeper body ++ last
      ++ armsRows o p next next after last rest

/-- The lines of the part that no condition guards, if there is one. -/
def optionRows (o : Occurrence) (p : Place) (first : String) (last : List Row) : Option Node → List Row
  | none => []
  | some body => ⟨o, p.level, first⟩ :: rows o.below p.deeper body ++ last

/-- The lines of the statements of a block. -/
def statementsRows (above : List Node) (p : Place) : List Node → List Row
  | [] => []
  | n :: rest =>
    (if n.tag.isExpression then [⟨⟨above, n⟩, p.level, n.textAt p ++ ";"⟩]
      else if n.tag = .block then
        ⟨⟨above, n⟩, p.level, "\x7b"⟩ :: rows above p.deeper n ++ [⟨⟨above, n⟩, p.level, "\x7d"⟩]
      else rows above p n)
      ++ statementsRows above p rest

end

-- ---------------------------------------------------------------------------
-- The text of lines
-- ---------------------------------------------------------------------------

section Text

variable {above : List Node} {p : Place}

/-- The lines of a node are its text, wherever it stands inside of a block. -/
def IsRendered (above : List Node) (n : Node) : Prop :=
  ∀ p : Place, p.outermost = false → pageText (n.additions p) = Row.renderAll p.pageWidth (n.rows above p)

theorem pageText_line_eq_render (o : Occurrence) (p : Place) (s : String) :
    pageText (p.line s) = Row.render p.pageWidth ⟨o, p.level, s⟩ :=
  pageText_line p s

theorem pageText_guarded_eq_render (o : Occurrence) (p : Place) (before after : String) (guard : List Addition) :
    pageText (p.guarded before guard after) = Row.render p.pageWidth ⟨o, p.level, before ++ pageText guard ++ after⟩ := by
  rw [pageText_guarded, Row.render]
  simp only [String.append_assoc]
  rfl

/-- What is written for a numeric loop: the header, the body, and a brace. -/
theorem textAt_forNum (p : Place) {var : TypedName} {first last body : Node} {comparator : Option String}
    {step : Option Node} {span : Span} {type : String} (hType : typeName? var (some first) = some type) :
    textAt p (.forNum var first comparator last step body span) =
      p.indentation ++ loopText (p.descend .forNum) type (Target.escapeName var.name) first last step ++ "\n"
        ++ (body.textAt (p.descend .forNum).deeper ++ (p.indentation ++ "\x7d" ++ "\n")) := by
  have hStep : (additionsOption (p.descend .forNum) step).isSome = step.isSome := by
    cases step <;> rfl
  rw [textAt, additions, hType, Option.getD_some, pageText_forNum, pageText_line, hStep]
  rfl

theorem pageText_statement {n : Node} (h : n.tag.isExpression = false → n.IsRendered above) (hp : p.outermost = false) :
    pageText (p.statement n (n.additions (p.ofStatement n))) = Row.renderAll p.pageWidth (statementsRows above p [n]) := by
  rw [statementsRows, statementsRows, List.append_nil]
  by_cases hTag : n.tag.isExpression = true
  · have hPlace : p.ofStatement n = p := by
      rw [Place.ofStatement, if_neg]
      intro hBlock
      simp [hBlock, Tag.isExpression] at hTag
    rw [pageText_statement_of_isExpression p hTag, hPlace, if_pos hTag, Row.renderAll_cons, Row.renderAll_nil,
      String.append_empty]
    rfl
  · have hRows := h (by simpa using hTag)
    rw [Place.statement, if_neg hTag, if_neg hTag, Place.ofStatement]
    by_cases hBlock : n.tag = .block
    · rw [if_pos hBlock, if_pos hBlock, if_pos hBlock, Place.braced, pageText_append, pageText_append,
        hRows p.deeper hp, pageText_line_eq_render ⟨above, n⟩, pageText_line_eq_render ⟨above, n⟩, List.cons_append,
        Row.renderAll_cons, Row.renderAll_append, Row.renderAll_cons, Row.renderAll_nil, String.append_empty,
        String.append_assoc]
      rfl
    · rw [if_neg hBlock, if_neg hBlock, if_neg hBlock]
      exact hRows p hp

theorem statementsRows_cons (above : List Node) (p : Place) (n : Node) (rest : List Node) :
    statementsRows above p (n :: rest) = statementsRows above p [n] ++ statementsRows above p rest := by
  rw [statementsRows, statementsRows, statementsRows, List.append_nil]

theorem pageText_statements {statements : List Node}
    (h : ∀ n ∈ statements, n.tag.isExpression = false → n.IsRendered above) (hp : p.outermost = false) :
    pageText (statementsAdditions p statements) = Row.renderAll p.pageWidth (statementsRows above p statements) := by
  induction statements with
  | nil => rfl
  | cons n rest ih =>
    obtain ⟨hFirst, hRest⟩ := List.forall_mem_cons.mp h
    rw [statementsAdditions, pageText_append, pageText_statement hFirst hp, ih hRest, ← Row.renderAll_append,
      ← statementsRows_cons]

theorem pageText_declareVariables (o : Occurrence) (qualifier : String) (vars : List TypedName) (values : List Node) :
    pageText (p.declareVariables qualifier vars (values.map (fun v => (v, v.additions p)))) =
      Row.renderAll p.pageWidth ((declarationTexts p qualifier vars values).map (fun text => ⟨o, p.level, text⟩)) := by
  induction vars generalizing values with
  | nil => rfl
  | cons var vars ih =>
    cases values with
    | nil =>
      rw [List.map_nil, Place.declareVariables, pageText_append, pageText_declareVariable, declarationTexts, List.map_cons,
        Row.renderAll_cons, ← ih []]
      simp [Row.render, declarationText, Place.indentation, String.append_assoc]
    | cons value values =>
      rw [List.map_cons, Place.declareVariables, pageText_append, pageText_declareVariable, declarationTexts, List.map_cons,
        Row.renderAll_cons, ← ih values]
      simp [Row.render, declarationText, textAt, Place.indentation, String.append_assoc]

theorem pageText_stores (o : Occurrence) (targets values : List Node) :
    pageText (p.stores (additionsAll p targets) (additionsAll p values)) =
      Row.renderAll p.pageWidth ((storeTexts p targets values).map (fun text => ⟨o, p.level, text⟩)) := by
  induction targets generalizing values with
  | nil => rfl
  | cons target targets ih =>
    cases values with
    | nil => rfl
    | cons value values =>
      rw [additionsAll, additionsAll, pageText_stores_cons, ih]
      simp [Row.render, storeTexts, textAt, Place.indentation, String.append_assoc]

/-- Arms that all start with the same words. -/
theorem pageText_arms (o : Occurrence) (first after : String) (last : List Row) {arms : List (Arm Node)}
    {f : Arm (List Addition) → List Addition} (h : ∀ a ∈ arms, a.body.IsRendered o.below) (hp : p.outermost = false)
    (hf : ∀ a, pageText (f a) =
      pageText (p.guarded first a.guard after) ++ (pageText a.body ++ Row.renderAll p.pageWidth last)) :
    pageText ((additionsArms p arms).flatMap f) =
      Row.renderAll p.pageWidth (armsRows o p first first after last arms) := by
  induction arms with
  | nil => rfl
  | cons a rest ih =>
    obtain ⟨hFirst, hRest⟩ := List.forall_mem_cons.mp h
    rw [additionsArms, List.flatMap_cons, pageText_append, hf, ih hRest, pageText_guarded_eq_render o,
      hFirst p.deeper hp, armsRows, Row.renderAll_append, List.cons_append, Row.renderAll_cons, Row.renderAll_append]
    rfl

/-- The last part, under no condition. -/
theorem pageText_option (o : Occurrence) (first : String) (last : List Row) {otherwise : Option Node}
    {f : Option (List Addition) → List Addition} (h : ∀ c ∈ otherwise, c.IsRendered o.below) (hp : p.outermost = false)
    (hNone : f none = [])
    (hSome : ∀ as, pageText (f (some as)) =
      pageText (p.line first) ++ (pageText as ++ Row.renderAll p.pageWidth last)) :
    pageText (f (additionsOption p.deeper otherwise)) =
      Row.renderAll p.pageWidth (optionRows o p first last otherwise) := by
  cases otherwise with
  | none => rw [additionsOption, hNone, optionRows, pageText_nil, Row.renderAll_nil]
  | some body =>
    rw [additionsOption, hSome, h body rfl p.deeper hp, optionRows, List.cons_append, Row.renderAll_cons,
      Row.renderAll_append, pageText_line_eq_render o]
    rfl

theorem isRendered_cond {branches : List (Arm Node)} {otherwise : Option Node} {span : Span} (hSome : branches ≠ [])
    (hArms : ∀ a ∈ branches, ∀ above, a.body.IsRendered above) (hOtherwise : ∀ c ∈ otherwise, ∀ above, c.IsRendered above) :
    (Node.cond branches otherwise span).IsRendered above := by
  intro p hp
  let o : Occurrence := ⟨above, .cond branches otherwise span⟩
  let q := p.descend .cond
  have hElse : pageText (q.otherwise (additionsOption q.deeper otherwise)) = _ :=
    pageText_option o "\x7d else \x7b" [] (fun c hc => hOtherwise c hc _) hp rfl
      fun as => by simp [Place.otherwise]
  have hBranches : ∀ first arms, (∀ a ∈ arms, a ∈ branches) →
      pageText ((additionsArms q arms).flatMap (q.branch first)) = _ := fun first arms hMem =>
    pageText_arms o first ") \x7b" [] (fun a ha => hArms a (hMem a ha) _) hp
      fun a => by simp [Place.branch]
  cases branches with
  | nil => exact absurd rfl hSome
  | cons first rest =>
    have hFirst := hBranches "if (" [first] (by simp)
    have hRest := hBranches "\x7d else if (" rest (by simp +contextual)
    rw [additionsArms, additionsArms, List.flatMap_singleton, armsRows, armsRows, List.append_nil] at hFirst
    rw [additions, additionsArms, Place.cond, pageText_append, pageText_append, pageText_append, hElse, hRest, hFirst,
      pageText_line_eq_render o, rows, armsRows]
    simp [String.append_assoc]
    rfl

theorem isRendered_switch {subject : Node} {cases : List (Arm Node)} {otherwise : Option Node} {span : Span}
    (hArms : ∀ a ∈ cases, ∀ above, a.body.IsRendered above) (hOtherwise : ∀ c ∈ otherwise, ∀ above, c.IsRendered above) :
    (Node.switch subject cases otherwise span).IsRendered above := by
  intro p hp
  let o : Occurrence := ⟨above, .switch subject cases otherwise span⟩
  let q := (p.descend .switch).deeper
  let last : List Row := [⟨o, q.deeper.level, "break;"⟩, ⟨o, q.level, "\x7d"⟩]
  have hLast : ∀ as, pageText (q.armBody as) = pageText as ++ Row.renderAll q.pageWidth last := by
    intro as
    rw [Place.armBody, pageText_append, pageText_append, pageText_line_eq_render o, pageText_line_eq_render o,
      Row.renderAll_cons, Row.renderAll_cons, Row.renderAll_nil, String.append_empty, String.append_assoc]
    rfl
  have hCases : pageText ((additionsArms q cases).flatMap q.switchArm) = _ :=
    pageText_arms o "case " ": \x7b" last (fun a ha => hArms a ha _) hp
      fun a => by rw [Place.switchArm, pageText_append, hLast]
  have hDefault : pageText (q.defaultArm (additionsOption q.deeper otherwise)) = _ :=
    pageText_option o "default: \x7b" last (fun c hc => hOtherwise c hc _) hp rfl
      fun as => by rw [Place.defaultArm, pageText_append, hLast]
  rw [additions, Place.switch, pageText_append, pageText_append, pageText_append, hCases, hDefault,
    pageText_guarded_eq_render o, pageText_line_eq_render o, rows]
  simp [String.append_assoc]
  rfl

/-- A body between two lines. -/
theorem pageText_framed {body : Node} {o : Occurrence} {first last : String} {before after : List Addition}
    (h : body.IsRendered o.below) (hp : p.outermost = false)
    (hBefore : pageText before = Row.render p.pageWidth ⟨o, p.level, first⟩)
    (hAfter : pageText after = Row.render p.pageWidth ⟨o, p.level, last⟩) :
    pageText (before ++ body.additions p.deeper ++ after) =
      Row.renderAll p.pageWidth (⟨o, p.level, first⟩ :: body.rows o.below p.deeper ++ [⟨o, p.level, last⟩]) := by
  rw [pageText_append, pageText_append, hBefore, hAfter, h p.deeper hp]
  simp [String.append_assoc]
  rfl

theorem isRendered_forNum {var : TypedName} {first : Node} {comparator : Option String} {last : Node} {step : Option Node}
    {body : Node} {span : Span} (hBody : ∀ above, body.IsRendered above) :
    (Node.forNum var first comparator last step body span).IsRendered above := by
  intro p hp
  have hText := hBody (.forNum var first comparator last step body span :: above) (p.descend .forNum).deeper hp
  have hStep : (additionsOption (p.descend .forNum) step).isSome = step.isSome := by
    rw [additionsOption_eq, Option.isSome_map]
  rw [additions, pageText_forNum, hText, hStep,
    pageText_line_eq_render ⟨above, .forNum var first comparator last step body span⟩]
  simp only [rows, Row.renderAll_cons, Row.renderAll_append, Row.renderAll_nil, List.cons_append, String.append_empty]
  rfl

/-- One case for each kind of statement. -/
theorem isRendered_of_children {n : Node} {depth : Nat} (hSound : n.Sound depth) (hSorted : n.WellSorted)
    (h : ∀ c ∈ n.children, ∀ above, c.tag.isExpression = false → c.IsRendered above)
    (hTag : n.tag.isExpression = false) (above : List Node) : n.IsRendered above := by
  have hBlocks : ∀ c ∈ n.blockParts, ∀ above, c.IsRendered above := fun c hc above =>
    h c (mem_children_of_mem_blockParts hc) above (by rw [hSorted.blocks c hc]; rfl)
  have hSingle : ∀ (p : Place) (o : Occurrence) (s : String),
      pageText (p.line s) = Row.renderAll p.pageWidth [⟨o, p.level, s⟩] := by
    intro p o s
    rw [Row.renderAll_cons, Row.renderAll_nil, String.append_empty, pageText_line_eq_render o]
  cases n with
  | block statements span =>
    intro p hp
    have hInside : (p.descend .block).outermost = false := hp
    have hStatements : ∀ c ∈ statements, c.tag.isExpression = false → c.IsRendered (.block statements span :: above) :=
      fun c hc => h c hc _
    rw [additions, Place.block, if_neg (by simp [hInside]), pageText_closed,
      pageText_statements hStatements (Place.outermost_inBlock _), Place.pageWidth_inBlock, rows]
    rfl
  | ret values span =>
    intro p hp
    rw [additions, rows, Row.renderAll_cons, Row.renderAll_nil, String.append_empty]
    cases values with
    | nil => exact pageText_ret_nil (p.descend .ret)
    | cons value rest =>
      rw [additionsAll, pageText_ret_cons, Row.render, returnText]
      simp only [String.append_assoc]
      rfl
  | cond branches otherwise span =>
    refine isRendered_cond hSound (fun a ha => ?_) (fun c hc => ?_)
    · exact hBlocks a.body (List.mem_append_left _ (List.mem_map_of_mem ha))
    · exact hBlocks c (List.mem_append_right _ (by simpa using hc))
  | switch subject cases otherwise span =>
    refine isRendered_switch (fun a ha => ?_) (fun c hc => ?_)
    · exact hBlocks a.body (List.mem_append_left _ (List.mem_map_of_mem ha))
    · exact hBlocks c (List.mem_append_right _ (by simpa using hc))
  | «scoped» body span =>
    intro p hp
    exact pageText_framed (p := p.descend .scoped) (hBlocks body (List.mem_singleton_self body) _) hp
      (pageText_line_eq_render ..) (pageText_line_eq_render ..)
  | whileLoop guard body span =>
    intro p hp
    exact pageText_framed (p := p.descend .whileLoop) (hBlocks body (List.mem_singleton_self body) _) hp
      (pageText_guarded_eq_render ..) (pageText_line_eq_render ..)
  | repeatLoop body guard span =>
    intro p hp
    exact pageText_framed (p := p.descend .repeatLoop) (hBlocks body (List.mem_singleton_self body) _) hp
      (pageText_line_eq_render ..) (pageText_guarded_eq_render ..)
  | forNum var first comparator last step body span =>
    exact isRendered_forNum (hBlocks body (List.mem_singleton_self body))
  | forIn vars exprs body span => exact hSound.elim
  | breakLoop span => exact fun p _ => hSingle p _ _
  | continueLoop span => exact fun p _ => hSingle p _ _
  | label name span => exact fun p _ => hSingle p _ _
  | goto target span => exact fun p _ => hSingle p _ _
  | varDecl visibility mutability vars values span =>
    intro p hp
    rw [additions, additionsAll_eq, zip_map_self]
    exact pageText_declareVariables (p := p.descend .varDecl) _ _ vars values
  | assign targets values span => exact fun p _ => pageText_stores (p := p.descend .assign) _ targets values
  | funcDef visibility name params returns body span =>
    intro p hp
    rw [additions, pageText_functionAdditions]
    rfl
  | _ => simp [tag, Tag.isExpression] at hTag

/-- The text of every statement is its lines. -/
theorem isRendered {n : Node} {depth : Nat} (hSoundAt : n.SoundAt depth) (hSorted : ∀ m ∈ n.nodes, m.WellSorted)
    (hTag : n.tag.isExpression = false) (above : List Node) : n.IsRendered above := by
  induction n using childInduction generalizing depth above with
  | step n ih =>
    obtain ⟨hSound, hBelow⟩ := soundAt_iff.mp hSoundAt
    obtain ⟨hSelf, hSorted⟩ := forall_mem_nodes.mp hSorted
    exact isRendered_of_children hSound hSelf (fun c hc above hTag => ih c hc (hBelow c hc) (hSorted c hc) hTag above) hTag above

end Text

end Node

end Lowering
