import Lowering.Proofs.Emit.Rows
import Lowering.Proofs.Sequence

/-!
# Returns

The entry point is left by a return. If none of its own statements is one, a line `return 0;` is added at its end; what
stands in blocks, branches and loops below them or in functions makes no difference. A return without a value says
`return 0;` in the entry point and `return;` in a function, however deep it stands, and functions are left as they are.

* `Node.returnsOn` — the returns without a value on the page of a node, with what they say.
* `Node.listsReturns` — the lines that are written for these returns.
* `Node.forall_mem_rows` — whom the lines are written for; blocks write braces only.
* `Draft.ShowsReturns` — the returns in the file of a program.
-/

namespace Lowering

open Addition

-- ---------------------------------------------------------------------------
-- Returns without a value
-- ---------------------------------------------------------------------------

/-- A return without a value. -/
def Node.isBareReturn : Node → Bool
  | .ret [] _ => true
  | _ => false

theorem Node.isBareReturn_eq_false {n : Node} (h : n.tag ≠ .ret) : n.isBareReturn = false := by
  cases n with
  | ret => exact absurd rfl h
  | _ => rfl

theorem Node.isBareReturn_of_isExpression {n : Node} (h : n.tag.isExpression = true) : n.isBareReturn = false :=
  isBareReturn_eq_false fun hTag => by simp [hTag, Tag.isExpression] at h

/-- A function of the program is around the occurrence. -/
def Occurrence.inFunction (o : Occurrence) : Bool :=
  o.above.any (fun n => n.tag = .funcDef)

/-- What a return without a value says. -/
def Occurrence.returnText (o : Occurrence) : String :=
  if o.inFunction then "return;" else "return 0;"

/-- The return without a value that a line is written for, with what the line says. -/
def Row.bareReturn? (row : Row) : Option (Occurrence × String) :=
  if row.origin.node.isBareReturn then some (row.origin, row.text) else none

/-- The return without a value at an occurrence that is in a function or not, with what it should say. -/
def Occurrence.bareReturn? (inFunction : Bool) (o : Occurrence) : Option (Occurrence × String) :=
  if o.node.isBareReturn ∧ o.inFunction = inFunction then some (o, o.returnText) else none

namespace Node

-- ---------------------------------------------------------------------------
-- The returns of a page
-- ---------------------------------------------------------------------------

theorem node_mem_nodes {o : Occurrence} {n : Node} {above : List Node} (h : o ∈ n.occurrences above) : o.node ∈ n.nodes := by
  induction n using childInduction generalizing above with
  | step n ih =>
    rw [occurrences_eq, List.mem_cons, List.mem_flatMap] at h
    rcases h with rfl | ⟨c, hc, ho⟩
    · exact self_mem_nodes n
    · exact nodes_subset (mem_nodes_of_mem_children hc) (ih c hc ho)

/-- The returns without a value below a node that are in a function or not, in their order, with what they should say. -/
def returnsOn (inFunction : Bool) (above : List Node) (n : Node) : List (Occurrence × String) :=
  (n.occurrences above).filterMap (Occurrence.bareReturn? inFunction)

section Listing

variable {inFunction : Bool} {above : List Node} {n : Node}

theorem returnsOn_eq : n.returnsOn inFunction above =
    (Occurrence.bareReturn? inFunction ⟨above, n⟩).toList ++ n.children.flatMap (returnsOn inFunction (n :: above)) :=
  filterMap_occurrences ..

/-- A node that is no return has the returns of the nodes below it. -/
theorem returnsOn_of_not_isBareReturn (h : n.isBareReturn = false) :
    n.returnsOn inFunction above = n.children.flatMap (returnsOn inFunction (n :: above)) := by
  rw [returnsOn_eq, Occurrence.bareReturn?, if_neg (by simp [h])]
  rfl

/-- There is no return in an expression. -/
theorem returnsOn_of_isExpression (hTag : n.tag.isExpression = true) (hSorted : ∀ m ∈ n.nodes, m.WellSorted) :
    n.returnsOn inFunction above = [] := by
  rw [returnsOn, List.filterMap_eq_nil_iff]
  intro o ho
  have hBare := isBareReturn_of_isExpression (isExpression_of_mem_nodes hTag hSorted _ (node_mem_nodes ho))
  rw [Occurrence.bareReturn?, if_neg (by simp [hBare])]

/-- The returns in a function are in a function. -/
theorem returnsOn_false_of_mem_above (h : ∃ m ∈ above, m.tag = .funcDef) : n.returnsOn false above = [] := by
  induction n using childInduction generalizing above with
  | step n ih =>
    have hNone : Occurrence.bareReturn? false ⟨above, n⟩ = none := by
      have hInside : Occurrence.inFunction ⟨above, n⟩ = true := by simpa [Occurrence.inFunction] using h
      rw [Occurrence.bareReturn?, if_neg (by simp [hInside])]
    obtain ⟨m, hm, hTag⟩ := h
    rw [returnsOn_eq, hNone, Option.toList_none, List.nil_append, List.flatMap_eq_nil_iff]
    exact fun c hc => ih c hc ⟨m, List.mem_cons_of_mem n hm, hTag⟩

end Listing

-- ---------------------------------------------------------------------------
-- The lines of returns
-- ---------------------------------------------------------------------------

section Rows

variable {o : Occurrence} {p : Place} {R : Node → List (Occurrence × String)}

/-- The lines written for a node that is no return. -/
theorem filterMap_bareReturn?_eq_nil (ho : o.node.isBareReturn = false) {rows : List Row}
    (h : ∀ row ∈ rows, row.origin = o) : rows.filterMap Row.bareReturn? = [] := by
  rw [List.filterMap_eq_nil_iff]
  intro row hRow
  rw [Row.bareReturn?, h row hRow, ho]
  rfl

theorem filterMap_cons_row (ho : o.node.isBareReturn = false) (level : Nat) (text : String) (rows : List Row) :
    (⟨o, level, text⟩ :: rows : List Row).filterMap Row.bareReturn? = rows.filterMap Row.bareReturn? :=
  List.filterMap_cons_none (by rw [Row.bareReturn?, ho]; rfl)

theorem filterMap_armsRows (ho : o.node.isBareReturn = false) {first next after : String} {last : List Row}
    (hLast : ∀ row ∈ last, row.origin = o) {arms : List (Arm Node)} (hGuards : ∀ a ∈ arms, R a.guard = [])
    (hBodies : ∀ a ∈ arms, (a.body.rows o.below p.deeper).filterMap Row.bareReturn? = R a.body) :
    (armsRows o p first next after last arms).filterMap Row.bareReturn? =
      (arms.flatMap (fun a => [a.guard, a.body])).flatMap R := by
  induction arms generalizing first with
  | nil => rfl
  | cons a rest ih =>
    obtain ⟨hGuard, hGuards⟩ := List.forall_mem_cons.mp hGuards
    obtain ⟨hBody, hBodies⟩ := List.forall_mem_cons.mp hBodies
    rw [armsRows, List.cons_append, List.cons_append, filterMap_cons_row ho, List.filterMap_append,
      List.filterMap_append, hBody, filterMap_bareReturn?_eq_nil ho hLast, ih hGuards hBodies]
    simp [hGuard]

theorem filterMap_optionRows (ho : o.node.isBareReturn = false) {first : String} {last : List Row}
    (hLast : ∀ row ∈ last, row.origin = o) {otherwise : Option Node}
    (hBody : ∀ c ∈ otherwise, (c.rows o.below p.deeper).filterMap Row.bareReturn? = R c) :
    (optionRows o p first last otherwise).filterMap Row.bareReturn? = otherwise.toList.flatMap R := by
  cases otherwise with
  | none => rfl
  | some body =>
    rw [optionRows, List.cons_append, filterMap_cons_row ho, List.filterMap_append, hBody body rfl,
      filterMap_bareReturn?_eq_nil ho hLast]
    simp

end Rows

section Statements

variable {inFunction : Bool} {above : List Node} {n : Node}

/-- The lines of a node on a page that is a function or not list the returns of the node. -/
def ListsReturns (inFunction : Bool) (above : List Node) (n : Node) : Prop :=
  ∀ p : Place, p.outermost = false → p.inMain = !inFunction →
    (n.rows above p).filterMap Row.bareReturn? = n.returnsOn inFunction above

theorem filterMap_statementsRows {p : Place} {statements : List Node}
    (hExpressions : ∀ c ∈ statements, c.tag.isExpression = true → c.returnsOn inFunction above = [])
    (hStatements : ∀ c ∈ statements, c.tag.isExpression = false → c.ListsReturns inFunction above)
    (hp : p.outermost = false) (hMain : p.inMain = !inFunction) :
    (statementsRows above p statements).filterMap Row.bareReturn? = statements.flatMap (returnsOn inFunction above) := by
  induction statements with
  | nil => rfl
  | cons n rest ih =>
    obtain ⟨hExpression, hExpressions⟩ := List.forall_mem_cons.mp hExpressions
    obtain ⟨hStatement, hStatements⟩ := List.forall_mem_cons.mp hStatements
    rw [statementsRows, List.filterMap_append, ih hExpressions hStatements, List.flatMap_cons]
    congr 1
    by_cases hTag : n.tag.isExpression = true
    · rw [if_pos hTag, hExpression hTag, filterMap_cons_row (isBareReturn_of_isExpression hTag)]
      rfl
    · have hLists := hStatement (by simpa using hTag)
      rw [if_neg hTag]
      by_cases hBlock : n.tag = .block
      · have hBare : n.isBareReturn = false := isBareReturn_eq_false (by rw [hBlock]; decide)
        rw [if_pos hBlock, List.cons_append, filterMap_cons_row hBare, List.filterMap_append, filterMap_cons_row hBare,
          hLists p.deeper hp hMain, List.filterMap_nil, List.append_nil]
      · rw [if_neg hBlock]
        exact hLists p hp hMain

theorem listsReturns_bareReturn {span : Span} (hAbove : Occurrence.inFunction ⟨above, .ret [] span⟩ = inFunction) :
    (Node.ret [] span).ListsReturns inFunction above := by
  intro p _ hMain
  have hText : returnText (p.descend .ret) [] = Occurrence.returnText ⟨above, .ret [] span⟩ := by
    have hPlace : (p.descend .ret).inMain = !inFunction := hMain
    rw [returnText, Occurrence.returnText, hPlace, hAbove]
    cases inFunction <;> rfl
  rw [returnsOn_eq, Occurrence.bareReturn?, if_pos ⟨rfl, hAbove⟩, rows, hText]
  rfl

theorem listsReturns_cond {branches : List (Arm Node)} {otherwise : Option Node} {span : Span}
    (hn : n = .cond branches otherwise span)
    (hInline : ∀ c ∈ n.expressionParts, c.returnsOn inFunction (n :: above) = [])
    (hBlocks : ∀ c ∈ n.blockParts, c.ListsReturns inFunction (n :: above)) : n.ListsReturns inFunction above := by
  intro p hp hMain
  subst hn
  have hGuards : ∀ a ∈ branches, a.guard.returnsOn inFunction _ = [] := fun a ha =>
    hInline a.guard (List.mem_map_of_mem ha)
  have hBodies : ∀ a ∈ branches, a.body.ListsReturns inFunction _ := fun a ha =>
    hBlocks a.body (List.mem_append_left _ (List.mem_map_of_mem ha))
  have hElse : ∀ c ∈ otherwise, c.ListsReturns inFunction _ := fun c hc =>
    hBlocks c (List.mem_append_right _ (by simpa using hc))
  rw [returnsOn_of_not_isBareReturn rfl, rows, List.filterMap_append, List.filterMap_append,
    filterMap_armsRows (o := ⟨above, _⟩) rfl (List.forall_mem_nil _) hGuards
      (fun a ha => hBodies a ha (p.descend .cond).deeper hp hMain),
    filterMap_optionRows (o := ⟨above, _⟩) rfl (List.forall_mem_nil _)
      (fun c hc => hElse c hc (p.descend .cond).deeper hp hMain),
    filterMap_cons_row rfl, children, List.flatMap_append, List.filterMap_nil, List.append_nil]

theorem listsReturns_switch {subject : Node} {cases : List (Arm Node)} {otherwise : Option Node} {span : Span}
    (hn : n = .switch subject cases otherwise span)
    (hInline : ∀ c ∈ n.expressionParts, c.returnsOn inFunction (n :: above) = [])
    (hBlocks : ∀ c ∈ n.blockParts, c.ListsReturns inFunction (n :: above)) : n.ListsReturns inFunction above := by
  intro p hp hMain
  subst hn
  have hGuards : ∀ a ∈ cases, a.guard.returnsOn inFunction _ = [] := fun a ha =>
    hInline a.guard (List.mem_cons_of_mem _ (List.mem_map_of_mem ha))
  have hBodies : ∀ a ∈ cases, a.body.ListsReturns inFunction _ := fun a ha =>
    hBlocks a.body (List.mem_append_left _ (List.mem_map_of_mem ha))
  have hElse : ∀ c ∈ otherwise, c.ListsReturns inFunction _ := fun c hc =>
    hBlocks c (List.mem_append_right _ (by simpa using hc))
  have hLast : ∀ (o : Occurrence) (k l : Nat) (s t : String), ∀ row ∈ [Row.mk o k s, Row.mk o l t], row.origin = o := by
    simp
  rw [returnsOn_of_not_isBareReturn rfl, rows, List.cons_append, List.cons_append, filterMap_cons_row rfl,
    List.filterMap_append, List.filterMap_append,
    filterMap_armsRows (o := ⟨above, _⟩) rfl (hLast _ _ _ _ _) hGuards
      (fun a ha => hBodies a ha (p.descend .switch).deeper.deeper hp hMain),
    filterMap_optionRows (o := ⟨above, _⟩) rfl (hLast _ _ _ _ _)
      (fun c hc => hElse c hc (p.descend .switch).deeper.deeper hp hMain),
    filterMap_cons_row rfl, children, List.cons_append, List.flatMap_cons, List.flatMap_append,
    hInline subject (by simp [expressionParts]), List.filterMap_nil, List.append_nil, List.nil_append]

/-- One case for each kind of statement that is written on the page. -/
theorem listsReturns_of_children {depth : Nat} (hSound : n.Sound depth) (hSorted : n.WellSorted)
    (hExpressions : ∀ c ∈ n.children, c.tag.isExpression = true → c.returnsOn inFunction (n :: above) = [])
    (hStatements : ∀ c ∈ n.children, c.tag.isExpression = false → c.ListsReturns inFunction (n :: above))
    (hFunction : n.tag ≠ .funcDef) (hAbove : Occurrence.inFunction ⟨above, n⟩ = inFunction)
    (hTag : n.tag.isExpression = false) : n.ListsReturns inFunction above := by
  have hInline : ∀ c ∈ n.expressionParts, c.returnsOn inFunction (n :: above) = [] := fun c hc =>
    hExpressions c (mem_children_of_mem_expressionParts hc) (hSorted.expressions c hc)
  have hBlocks : ∀ c ∈ n.blockParts, c.ListsReturns inFunction (n :: above) := fun c hc =>
    hStatements c (mem_children_of_mem_blockParts hc) (by rw [hSorted.blocks c hc]; rfl)
  -- statements without blocks have lines of their own only
  have hSimple : n.isBareReturn = false → (∀ p, ∀ row ∈ n.rows above p, row.origin = ⟨above, n⟩) →
      n.children = n.expressionParts → n.ListsReturns inFunction above := by
    intro hBare hOrigins hParts p _ _
    rw [returnsOn_of_not_isBareReturn hBare, filterMap_bareReturn?_eq_nil (o := ⟨above, n⟩) hBare (hOrigins p), eq_comm,
      List.flatMap_eq_nil_iff, hParts]
    exact hInline
  -- loops and the like have one block between two lines
  have hFramed : ∀ (q : Place) (body : Node) (first last : String), n.isBareReturn = false → q.outermost = false →
      q.inMain = !inFunction → body ∈ n.blockParts →
      (⟨⟨above, n⟩, q.level, first⟩ :: body.rows (n :: above) q.deeper
        ++ [⟨⟨above, n⟩, q.level, last⟩] : List Row).filterMap Row.bareReturn? = body.returnsOn inFunction (n :: above) := by
    intro q body first last hBare hq hMain hBody
    rw [List.cons_append, filterMap_cons_row hBare, List.filterMap_append, filterMap_cons_row hBare,
      hBlocks body hBody q.deeper hq hMain, List.filterMap_nil, List.append_nil]
  cases n with
  | block statements span =>
    intro p hp hMain
    have hInside : (p.descend .block).inBlock.inMain = !inFunction := by
      have hOuter : (p.descend .block).outermost = false := hp
      rw [Place.inBlock, if_neg (by simp [hOuter])]
      exact hMain
    rw [returnsOn_of_not_isBareReturn rfl]
    exact filterMap_statementsRows hExpressions hStatements (Place.outermost_inBlock _) hInside
  | ret values span =>
    cases values with
    | nil => exact listsReturns_bareReturn hAbove
    | cons value rest => exact hSimple rfl (by simp [rows]) rfl
  | cond branches otherwise span => exact listsReturns_cond rfl hInline hBlocks
  | switch subject cases otherwise span => exact listsReturns_switch rfl hInline hBlocks
  | «scoped» body span =>
    intro p hp hMain
    rw [returnsOn_of_not_isBareReturn rfl, children, List.flatMap_singleton]
    exact hFramed (p.descend .scoped) body _ _ rfl hp hMain (by simp [blockParts])
  | whileLoop guard body span =>
    intro p hp hMain
    rw [returnsOn_of_not_isBareReturn rfl]
    simp only [children, List.flatMap_cons, List.flatMap_nil, List.append_nil]
    rw [hInline guard (by simp [expressionParts])]
    exact hFramed (p.descend .whileLoop) body _ _ rfl hp hMain (by simp [blockParts])
  | repeatLoop body guard span =>
    intro p hp hMain
    rw [returnsOn_of_not_isBareReturn rfl]
    simp only [children, List.flatMap_cons, List.flatMap_nil, List.append_nil]
    rw [hInline guard (by simp [expressionParts]), List.append_nil]
    exact hFramed (p.descend .repeatLoop) body _ _ rfl hp hMain (by simp [blockParts])
  | forNum var first comparator last step body span =>
    intro p hp hMain
    have hStep : ∀ c ∈ step, c.returnsOn inFunction _ = [] := fun c hc => hInline c (by simp_all [expressionParts])
    have hSteps := List.flatMap_eq_nil_iff.mpr fun c hc => hStep c (Option.mem_toList.mp hc)
    rw [returnsOn_of_not_isBareReturn rfl]
    simp only [children, List.flatMap_append, List.flatMap_cons, List.flatMap_nil, List.append_nil, hSteps]
    rw [hInline first (by simp [expressionParts]), hInline last (by simp [expressionParts])]
    exact hFramed (p.descend .forNum) body _ _ rfl hp hMain (by simp [blockParts])
  | forIn vars exprs body span => exact hSound.elim
  | breakLoop span => exact hSimple rfl (by simp [rows]) rfl
  | continueLoop span => exact hSimple rfl (by simp [rows]) rfl
  | label name span => exact hSimple rfl (by simp [rows]) rfl
  | goto target span => exact hSimple rfl (by simp [rows]) rfl
  | varDecl visibility mutability vars values span => exact hSimple rfl (by simp [rows]) rfl
  | assign targets values span => exact hSimple rfl (by simp [rows]) rfl
  | funcDef visibility name params returns body span => exact absurd rfl hFunction
  | _ => simp [tag, Tag.isExpression] at hTag

/-- The lines of every statement list the returns on its page. A function has none on the page where it stands. -/
theorem listsReturns {depth : Nat} (hSoundAt : n.SoundAt depth) (hSorted : ∀ m ∈ n.nodes, m.WellSorted)
    (hTag : n.tag.isExpression = false) (hAbove : Occurrence.inFunction ⟨above, n⟩ = inFunction)
    (hDepth : inFunction = true → depth ≠ 1) (hPositive : depth ≠ 0) : n.ListsReturns inFunction above := by
  induction n using childInduction generalizing depth above with
  | step n ih =>
    obtain ⟨hSound, hBelow⟩ := soundAt_iff.mp hSoundAt
    obtain ⟨hSelf, hSorted⟩ := forall_mem_nodes.mp hSorted
    by_cases hFunction : n.tag = .funcDef
    · cases n with
      | funcDef visibility name params returns body span =>
        intro p hp hMain
        have hOutside : inFunction = false := by
          by_contra hInside
          exact hDepth (by simpa using hInside) hSound.2.1
        subst hOutside
        rw [returnsOn_of_not_isBareReturn rfl, eq_comm]
        exact List.flatMap_eq_nil_iff.mpr fun c _ => returnsOn_false_of_mem_above ⟨_, List.mem_cons_self, rfl⟩
      | _ => simp [tag] at hFunction
    · refine listsReturns_of_children hSound hSelf (fun c hc hTag => returnsOn_of_isExpression hTag (hSorted c hc))
        (fun c hc hTag => ih c hc (hBelow c hc) (hSorted c hc) hTag ?_ ?_ ?_) hFunction hAbove hTag
      · rw [← hAbove]
        simp [Occurrence.inFunction, hFunction]
      · intro hInside
        have := hDepth hInside
        omega
      · omega

end Statements

-- ---------------------------------------------------------------------------
-- Whom lines are written for
-- ---------------------------------------------------------------------------

section Owners

variable {o : Occurrence} {p : Place}

theorem mem_armsRows {first next after : String} {last : List Row} {arms : List (Arm Node)} {row : Row}
    (h : row ∈ armsRows o p first next after last arms) :
    row.origin = o ∨ row ∈ last ∨ ∃ a ∈ arms, row ∈ a.body.rows o.below p.deeper := by
  induction arms generalizing first with
  | nil => simp [armsRows] at h
  | cons a rest ih =>
    rw [armsRows, List.cons_append, List.cons_append, List.mem_cons, List.mem_append, List.mem_append] at h
    rcases h with rfl | (h | h) | h
    · exact Or.inl rfl
    · exact Or.inr (Or.inr ⟨a, List.mem_cons_self, h⟩)
    · exact Or.inr (Or.inl h)
    · rcases ih h with hOwn | hLast | ⟨b, hb, hRow⟩
      · exact Or.inl hOwn
      · exact Or.inr (Or.inl hLast)
      · exact Or.inr (Or.inr ⟨b, List.mem_cons_of_mem a hb, hRow⟩)

theorem mem_optionRows {first : String} {last : List Row} {otherwise : Option Node} {row : Row}
    (h : row ∈ optionRows o p first last otherwise) :
    row.origin = o ∨ row ∈ last ∨ ∃ c ∈ otherwise, row ∈ c.rows o.below p.deeper := by
  cases otherwise with
  | none => simp [optionRows] at h
  | some body =>
    rw [optionRows, List.cons_append, List.mem_cons, List.mem_append] at h
    rcases h with rfl | h | h
    · exact Or.inl rfl
    · exact Or.inr (Or.inr ⟨body, rfl, h⟩)
    · exact Or.inr (Or.inl h)

theorem mem_statementsRows {above : List Node} {statements : List Node} {row : Row}
    (h : row ∈ statementsRows above p statements) :
    ∃ n ∈ statements, (row.origin = ⟨above, n⟩ ∧ (n.tag = .block → row.text = "\x7b" ∨ row.text = "\x7d")) ∨
      ∃ q, row ∈ n.rows above q := by
  induction statements with
  | nil => simp [statementsRows] at h
  | cons n rest ih =>
    rw [statementsRows, List.mem_append] at h
    rcases h with h | h
    · refine ⟨n, List.mem_cons_self, ?_⟩
      by_cases hTag : n.tag.isExpression = true
      · rw [if_pos hTag, List.mem_singleton] at h
        subst h
        exact Or.inl ⟨rfl, fun hBlock => by simp [hBlock, Tag.isExpression] at hTag⟩
      · rw [if_neg hTag] at h
        by_cases hBlock : n.tag = .block
        · rw [if_pos hBlock, List.cons_append, List.mem_cons, List.mem_append, List.mem_singleton] at h
          rcases h with rfl | h | rfl
          · exact Or.inl ⟨rfl, fun _ => Or.inl rfl⟩
          · exact Or.inr ⟨_, h⟩
          · exact Or.inl ⟨rfl, fun _ => Or.inr rfl⟩
        · rw [if_neg hBlock] at h
          exact Or.inr ⟨_, h⟩
    · obtain ⟨m, hm, hRow⟩ := ih h
      exact ⟨m, List.mem_cons_of_mem n hm, hRow⟩

/-- A line is written for a node other than a block, or for a node directly below it, or it is a line of such a node. -/
def IsRowOf (row : Row) (above : List Node) (n : Node) : Prop :=
  (row.origin = ⟨above, n⟩ ∧ n.tag ≠ .block) ∨
    ∃ c ∈ n.children, (row.origin = ⟨n :: above, c⟩ ∧ (c.tag = .block → row.text = "\x7b" ∨ row.text = "\x7d")) ∨
      ∃ q, row ∈ c.rows (n :: above) q

/-- A body between two lines of the node. -/
theorem isRowOf_framed {n body : Node} {above : List Node} {row first last : Row} (hTag : n.tag ≠ .block)
    (hFirst : first.origin = ⟨above, n⟩) (hLast : last.origin = ⟨above, n⟩) (hBody : body ∈ n.children)
    (h : row ∈ first :: body.rows (n :: above) p ++ [last]) : IsRowOf row above n := by
  rw [List.cons_append, List.mem_cons, List.mem_append, List.mem_singleton] at h
  rcases h with rfl | h | rfl
  · exact Or.inl ⟨hFirst, hTag⟩
  · exact Or.inr ⟨body, hBody, Or.inr ⟨p, h⟩⟩
  · exact Or.inl ⟨hLast, hTag⟩

/-- Guarded parts and a last one. -/
theorem isRowOf_arms {n : Node} {above : List Node} {row : Row} {first next after other : String} {last : List Row}
    {arms : List (Arm Node)} {otherwise : Option Node} (hTag : n.tag ≠ .block) (hLast : ∀ r ∈ last, r.origin = ⟨above, n⟩)
    (hArms : ∀ a ∈ arms, a.body ∈ n.children) (hOtherwise : ∀ c ∈ otherwise, c ∈ n.children)
    (h : row ∈ armsRows ⟨above, n⟩ p first next after last arms ++ optionRows ⟨above, n⟩ p other last otherwise) :
    IsRowOf row above n := by
  rcases List.mem_append.mp h with h | h
  · rcases mem_armsRows h with hOwn | hMem | ⟨a, ha, hRow⟩
    · exact Or.inl ⟨hOwn, hTag⟩
    · exact Or.inl ⟨hLast row hMem, hTag⟩
    · exact Or.inr ⟨a.body, hArms a ha, Or.inr ⟨_, hRow⟩⟩
  · rcases mem_optionRows h with hOwn | hMem | ⟨c, hc, hRow⟩
    · exact Or.inl ⟨hOwn, hTag⟩
    · exact Or.inl ⟨hLast row hMem, hTag⟩
    · exact Or.inr ⟨c, hOtherwise c hc, Or.inr ⟨_, hRow⟩⟩

theorem isRowOf_of_mem {n : Node} {above : List Node} {row : Row} (h : row ∈ n.rows above p) : IsRowOf row above n := by
  cases n with
  | block statements span =>
    rw [rows] at h
    exact Or.inr (mem_statementsRows h)
  | cond branches otherwise span =>
    rw [rows, List.mem_append, List.mem_singleton] at h
    rcases h with h | rfl
    · refine isRowOf_arms (by simp [tag]) (by simp) (fun a ha => ?_) (fun c hc => ?_) h
      · exact List.mem_append_left _ (List.mem_flatMap.mpr ⟨a, ha, by simp⟩)
      · exact List.mem_append_right _ (by simpa using hc)
    · exact Or.inl ⟨rfl, by simp [tag]⟩
  | switch subject cases otherwise span =>
    rw [rows, List.cons_append, List.cons_append, List.mem_cons, List.mem_append, List.mem_singleton] at h
    rcases h with rfl | h | rfl
    · exact Or.inl ⟨rfl, by simp [tag]⟩
    · refine isRowOf_arms (by simp [tag]) (by simp) (fun a ha => ?_) (fun c hc => ?_) h
      · exact List.mem_cons_of_mem _ (List.mem_append_left _ (List.mem_flatMap.mpr ⟨a, ha, by simp⟩))
      · exact List.mem_cons_of_mem _ (List.mem_append_right _ (by simpa using hc))
    · exact Or.inl ⟨rfl, by simp [tag]⟩
  | «scoped» body span => exact isRowOf_framed (by simp [tag]) rfl rfl (by simp [children]) h
  | whileLoop guard body span => exact isRowOf_framed (by simp [tag]) rfl rfl (by simp [children]) h
  | repeatLoop body guard span => exact isRowOf_framed (by simp [tag]) rfl rfl (by simp [children]) h
  | forNum var first comparator last step body span =>
    exact isRowOf_framed (by simp [tag]) rfl rfl (by simp [children]) h
  | ret values span | breakLoop span | continueLoop span | label name span | goto target span =>
    all_goals
      rw [rows, List.mem_singleton] at h
      exact Or.inl ⟨by rw [h], by simp [tag]⟩
  | varDecl visibility mutability vars values span | assign targets values span =>
    all_goals
      rw [rows] at h
      obtain ⟨text, -, rfl⟩ := List.mem_map.mp h
      exact Or.inl ⟨rfl, by simp [tag]⟩
  | _ => simp [rows] at h

theorem self_mem_occurrences (above : List Node) (n : Node) : ⟨above, n⟩ ∈ n.occurrences above := by
  rw [occurrences_eq]
  exact List.mem_cons_self

/-- Every line is written for a node of the tree, and blocks write nothing but braces. -/
theorem forall_mem_rows {n : Node} {above : List Node} {row : Row} (h : row ∈ n.rows above p) :
    row.origin ∈ n.occurrences above ∧ (row.origin.node.tag = .block → row.text = "\x7b" ∨ row.text = "\x7d") := by
  induction n using childInduction generalizing above p with
  | step n ih =>
    have hBelow : ∀ c ∈ n.children, ∀ o ∈ c.occurrences (n :: above), o ∈ n.occurrences above := by
      intro c hc o ho
      rw [occurrences_eq]
      exact List.mem_cons_of_mem _ (List.mem_flatMap.mpr ⟨c, hc, ho⟩)
    rcases isRowOf_of_mem h with ⟨hOwn, hBlock⟩ | ⟨c, hc, ⟨hOwn, hText⟩ | ⟨q, hRow⟩⟩
    · rw [hOwn]
      exact ⟨self_mem_occurrences above n, fun hTag => absurd hTag hBlock⟩
    · rw [hOwn]
      exact ⟨hBelow c hc _ (self_mem_occurrences _ c), hText⟩
    · obtain ⟨hOrigin, hText⟩ := ih c hc hRow
      exact ⟨hBelow c hc _ hOrigin, hText⟩

end Owners

-- ---------------------------------------------------------------------------
-- Direct returns and functions
-- ---------------------------------------------------------------------------

theorem mem_directReturns {m n : Node} (h : m ∈ n.directReturns) : m ∈ n.nodes ∧ m.tag = .ret := by
  induction n using childInduction with
  | step n ih =>
    by_cases hOwn : n.ownScopes = 0
    · rw [directReturns_eq hOwn, List.mem_append, List.mem_flatMap] at h
      rcases h with ⟨c, hc, hm⟩ | h
      · obtain ⟨hNode, hTag⟩ := ih c hc hm
        exact ⟨nodes_subset (mem_nodes_of_mem_children hc) hNode, hTag⟩
      · split at h
        · rename_i hTag
          obtain rfl := List.mem_singleton.mp h
          exact ⟨self_mem_nodes m, hTag⟩
        · cases h
    · rw [directReturns_eq_nil hOwn] at h
      cases h

/-- Where a statement has no scope of its own, what stands below it is an expression or a block. -/
theorem isExpression_or_block {n c : Node} {depth : Nat} (hSound : n.Sound depth) (hSorted : n.WellSorted)
    (hOwn : n.ownScopes = 0) (hc : c ∈ n.children) : c.tag.isExpression = true ∨ c.tag = .block := by
  have hParts : c ∈ n.expressionParts ∨ c ∈ n.blockParts := by
    cases n with
    | block | funcDef => simp [ownScopes] at hOwn
    | forIn => exact hSound.elim
    | _ => grind [expressionParts, blockParts, children]
  exact hParts.imp (hSorted.expressions c) (hSorted.blocks c)

/-- In a tree of blocks and expressions, a statement other than a return does not end the entry point. -/
theorem directReturns_eq_nil_iff {n : Node} {depth : Nat} (hSoundAt : n.SoundAt depth)
    (hSorted : ∀ m ∈ n.nodes, m.WellSorted) : n.directReturns = [] ↔ n.tag ≠ .ret := by
  by_cases hOwn : n.ownScopes = 0
  · have hBelow : n.children.flatMap directReturns = [] := by
      rw [List.flatMap_eq_nil_iff]
      intro c hc
      rcases isExpression_or_block (soundAt_iff.mp hSoundAt).1 (hSorted n (self_mem_nodes n)) hOwn hc with hTag | hTag
      · refine List.eq_nil_iff_forall_not_mem.mpr fun m hm => ?_
        obtain ⟨hNode, hRet⟩ := mem_directReturns hm
        have hExpression := isExpression_of_mem_nodes hTag ((forall_mem_nodes.mp hSorted).2 c hc) m hNode
        simp [hRet, Tag.isExpression] at hExpression
      · refine directReturns_eq_nil ?_
        cases c <;> simp [tag] at hTag
        simp [ownScopes]
    rw [directReturns_eq hOwn, hBelow]
    by_cases hTag : n.tag = .ret <;> simp [hTag]
  · rw [directReturns_eq_nil hOwn]
    cases n <;> simp [ownScopes, tag] at hOwn ⊢

/-- There is no function inside of two or more blocks and functions. -/
theorem tag_ne_funcDef {n : Node} {depth : Nat} (hSoundAt : n.SoundAt depth) (hDepth : 2 ≤ depth) :
    ∀ m ∈ n.nodes, m.tag ≠ .funcDef := by
  induction n using childInduction generalizing depth with
  | step n ih =>
    obtain ⟨hSound, hBelow⟩ := soundAt_iff.mp hSoundAt
    refine forall_mem_nodes.mpr ⟨fun hTag => ?_, fun c hc => ih c hc (hBelow c hc) (by omega)⟩
    cases n with
    | funcDef visibility name params returns body span =>
      have hOne : depth = 1 := hSound.2.1
      omega
    | _ => simp [tag] at hTag

/-- The functions of a program are statements of its root. -/
theorem above_of_funcDef {statements : List Node} {span : Span} (hSoundAt : ∀ n ∈ statements, n.SoundAt 1)
    (hSorted : ∀ n ∈ statements, ∀ m ∈ n.nodes, m.WellSorted) {o : Occurrence}
    (ho : o ∈ (Node.block statements span).occurrences []) (hTag : o.node.tag = .funcDef) :
    o.node ∈ statements ∧ o.above = [.block statements span] := by
  rw [occurrences_eq, List.mem_cons, List.mem_flatMap] at ho
  rcases ho with rfl | ⟨n, hn, ho⟩
  · simp [tag] at hTag
  · rw [occurrences_eq, List.mem_cons, List.mem_flatMap] at ho
    rcases ho with rfl | ⟨c, hc, ho⟩
    · exact ⟨hn, rfl⟩
    · -- below a statement there are expressions, and what is inside of two scopes
      exfalso
      obtain ⟨hSound, hBelow⟩ := soundAt_iff.mp (hSoundAt n hn)
      obtain ⟨hSelf, hSorted⟩ := forall_mem_nodes.mp (hSorted n hn)
      have hNode := node_mem_nodes ho
      by_cases hOwn : n.ownScopes = 0
      · rcases isExpression_or_block hSound hSelf hOwn hc with hExpression | hBlock
        · have hInside := isExpression_of_mem_nodes hExpression (hSorted c hc) _ hNode
          simp [hTag, Tag.isExpression] at hInside
        · rw [nodes_eq, List.mem_cons, List.mem_flatMap] at hNode
          rcases hNode with hNode | ⟨b, hb, hNode⟩
          · rw [hNode, hBlock] at hTag
            cases hTag
          · have hScopes : c.ownScopes = 1 := by
              cases c <;> simp [tag] at hBlock
              rfl
            have hInner := (soundAt_iff.mp (hBelow c hc)).2 b hb
            exact tag_ne_funcDef hInner (by omega) _ hNode hTag
      · exact tag_ne_funcDef (hBelow c hc) (by omega) _ hNode hTag

end Node

-- ---------------------------------------------------------------------------
-- Programs
-- ---------------------------------------------------------------------------

/-- The lines of the statements of a program in its entry point. -/
def mainRows (width : Nat) (statements : List Node) (span : Span) : List Row :=
  Node.statementsRows [.block statements span] (Listing.place width) statements

/-- The lines of the body of a function, which has a page of its own. -/
def functionRows (width : Nat) (function : Occurrence) (body : Node) : List Row :=
  body.rows function.below ((Listing.place width).descend .funcDef).inFunction

/-- Every line is written for a node below the given occurrence, and those written for blocks are braces. -/
def Row.WrittenBelow (o : Occurrence) (row : Row) : Prop :=
  row.origin ∈ o.node.children.flatMap (Node.occurrences o.below) ∧
    (row.origin.node.tag = .block → row.text = "\x7b" ∨ row.text = "\x7d")

/-- What the draft of a program says about its returns. -/
structure Draft.ShowsReturns (d : Draft) (width : Nat) (statements : List Node) (span : Span) : Prop where
  /-- The entry point has the lines of its statements and, if none of them is a return, one more before its end. -/
  main : d.page.text = "int main() \x7b\n" ++ Row.renderAll width (mainRows width statements span)
    ++ (if ∀ n ∈ statements, n.tag ≠ .ret then Page.indentation 1 width ++ "return 0;\n" else "") ++ "\x7d\n"
  mainOwners : ∀ row ∈ mainRows width statements span, row.WrittenBelow ⟨[], .block statements span⟩
  mainReturns : (mainRows width statements span).filterMap Row.bareReturn? =
    (Node.block statements span).returnsOn false []
  /-- A function has its signature and the lines of its body. -/
  functions : ∀ o ∈ (Node.block statements span).occurrences [],
    ∀ visibility name params returns body at_, o.node = .funcDef visibility name params returns body at_ →
      (∃ definitions, d.sections.definitions = "\n".intercalate definitions ∧
        functionText (functionSignature name params returns) (Row.renderAll width (functionRows width o body)) ∈ definitions) ∧
      (∀ row ∈ functionRows width o body, row.WrittenBelow o) ∧
      (functionRows width o body).filterMap Row.bareReturn? = body.returnsOn true o.below

section Program

variable (width : Nat) {statements : List Node} {span : Span} (hSoundAt : ∀ n ∈ statements, n.SoundAt 1)
  (hSorted : ∀ n ∈ statements, ∀ m ∈ n.nodes, m.WellSorted)

theorem outermost_place : (Listing.place width).outermost = false := rfl

include hSoundAt hSorted

theorem entryPointText_eq :
    entryPointText width statements (pageText (Node.statementsAdditions (Listing.place width) statements)) =
      "int main() \x7b\n" ++ Row.renderAll width (mainRows width statements span)
        ++ (if ∀ n ∈ statements, n.tag ≠ .ret then Page.indentation 1 width ++ "return 0;\n" else "") ++ "\x7d\n" := by
  have hRows : pageText (Node.statementsAdditions (Listing.place width) statements) =
      Row.renderAll width (mainRows width statements span) :=
    Node.pageText_statements (fun n hn hTag => Node.isRendered (hSoundAt n hn) (hSorted n hn) hTag _)
      (outermost_place width)
  have hReturns : statements.flatMap Node.directReturns = [] ↔ ∀ n ∈ statements, n.tag ≠ .ret := by
    rw [List.flatMap_eq_nil_iff]
    exact forall₂_congr fun n hn => Node.directReturns_eq_nil_iff (hSoundAt n hn) (hSorted n hn)
  unfold entryPointText
  rw [hRows, if_congr hReturns rfl rfl]

theorem mainReturns_eq : (mainRows width statements span).filterMap Row.bareReturn? =
    (Node.block statements span).returnsOn false [] := by
  rw [Node.returnsOn_of_not_isBareReturn rfl]
  exact Node.filterMap_statementsRows (fun n hn hTag => Node.returnsOn_of_isExpression hTag (hSorted n hn))
    (fun n hn hTag => Node.listsReturns (hSoundAt n hn) (hSorted n hn) hTag rfl nofun (by decide)) (outermost_place width) rfl

omit hSoundAt hSorted in
theorem mainRows_writtenBelow : ∀ row ∈ mainRows width statements span, row.WrittenBelow ⟨[], .block statements span⟩ := by
  intro row hRow
  obtain ⟨n, hn, ⟨hOwn, hText⟩ | ⟨q, hRow⟩⟩ := Node.mem_statementsRows hRow
  · refine ⟨List.mem_flatMap.mpr ⟨n, hn, ?_⟩, ?_⟩
    · rw [hOwn]
      exact Node.self_mem_occurrences _ n
    · rw [hOwn]
      exact hText
  · obtain ⟨hOrigin, hText⟩ := Node.forall_mem_rows hRow
    exact ⟨List.mem_flatMap.mpr ⟨n, hn, hOrigin⟩, hText⟩

section Function

variable {visibility : Visibility} {name : String} {params : List TypedName} {returns : List String} {body : Node} {at_ : Span}
  (hMem : .funcDef visibility name params returns body at_ ∈ statements)

include hMem

/-- The body of a function is a block inside of two scopes. -/
theorem body_of_funcDef : body.SoundAt 2 ∧ (∀ m ∈ body.nodes, m.WellSorted) ∧ body.tag.isExpression = false := by
  obtain ⟨hSelf, hBelow⟩ := Node.forall_mem_nodes.mp (hSorted _ hMem)
  have hBlock : body.tag = .block := hSelf.blocks body (List.mem_singleton_self body)
  refine ⟨(Node.soundAt_iff.mp (hSoundAt _ hMem)).2 body (List.mem_singleton_self body),
    hBelow body (List.mem_singleton_self body), ?_⟩
  rw [hBlock]
  rfl

/-- The text of a function is among the definitions. -/
theorem functionText_mem_definitions (above : List Node) :
    functionText (functionSignature name params returns)
      (Row.renderAll width (functionRows width ⟨above, .funcDef visibility name params returns body at_⟩ body)) ∈
        (Listing.ofStatements width statements).definitions := by
  obtain ⟨hSound, hSorted, hTag⟩ := body_of_funcDef hSoundAt hSorted hMem
  let p := Listing.place width
  have hText : pageText (body.additions (p.descend .funcDef).inFunction) = _ :=
    Node.isRendered hSound hSorted hTag (.funcDef visibility name params returns body at_ :: above) _ rfl
  refine List.mem_filterMap.mpr ⟨.function (functionSignature name params returns)
    (pageText (body.additions (p.descend .funcDef).inFunction)), ?_, ?_⟩
  · rw [Node.statementsAdditions_eq]
    exact List.mem_flatMap.mpr ⟨_, hMem, List.mem_append_right _ (List.mem_singleton_self _)⟩
  · rw [hText]
    rfl

theorem functionReturns_eq (above : List Node) :
    (functionRows width ⟨above, .funcDef visibility name params returns body at_⟩ body).filterMap Row.bareReturn? =
      body.returnsOn true (.funcDef visibility name params returns body at_ :: above) := by
  obtain ⟨hSound, hSorted, hTag⟩ := body_of_funcDef hSoundAt hSorted hMem
  exact Node.listsReturns hSound hSorted hTag rfl (fun _ => by decide) (by decide) _ rfl rfl

end Function

end Program

/-- **Returns.** The file of a program of blocks and expressions has a return at the end of the entry point exactly if none
of its own statements is a return. Returns without a value say `return 0;` in the entry point and `return;` in functions,
and there is no other return that is not in the tree. -/
theorem generated_returns (width : Nat) {root : Node} {text : String} (h : (generate { width } root).result = .ok text)
    (hSorted : ∀ n ∈ root.nodes, n.WellSorted) :
    ∃ statements span d, root = .block statements span ∧
      visit .standard root (Draft.blank width) = .ok () d ∧ text = d.finish ∧ d.ShowsReturns width statements span := by
  obtain ⟨hLowerable, rfl⟩ := generate_eq_ok_iff.mp h
  cases root with
  | block statements span =>
    have hSoundAt := (lowerable_block_iff.mp hLowerable).1
    have hStatements := (Node.forall_mem_nodes.mp hSorted).2
    obtain ⟨d, hRun, hResult, hShows⟩ := writtenAs_of_lowerable hLowerable width
    refine ⟨statements, span, d, rfl, hRun, ?_, ?_⟩
    · exact Except.ok.inj (h.symm.trans hResult)
    · refine ⟨hShows.main.trans (entryPointText_eq width hSoundAt hStatements), mainRows_writtenBelow width,
        mainReturns_eq width hSoundAt hStatements, fun o ho visibility name params returns body at_ hNode => ?_⟩
      obtain ⟨above, node⟩ := o
      subst hNode
      obtain ⟨hMem, -⟩ := Node.above_of_funcDef hSoundAt hStatements ho rfl
      refine ⟨⟨_, hShows.functions, functionText_mem_definitions width hSoundAt hStatements hMem above⟩, ?_,
        functionReturns_eq width hSoundAt hStatements hMem above⟩
      intro row hRow
      obtain ⟨hOrigin, hText⟩ := Node.forall_mem_rows hRow
      exact ⟨List.mem_flatMap.mpr ⟨body, List.mem_singleton_self body, hOrigin⟩, hText⟩
  | _ => exact absurd hLowerable.block (by simp [Node.tag])

/-- A function that is left in a branch, and an entry point that is left in a loop only. -/
def leaving : Node :=
  .block [
    .funcDef .scoped "f" [] []
      (.block [.cond [⟨.boolean true ⟨0, 1⟩, .block [.ret [] ⟨2, 3⟩] ⟨2, 3⟩⟩] none ⟨0, 3⟩] ⟨0, 3⟩) ⟨0, 3⟩,
    .whileLoop (.boolean true ⟨4, 5⟩) (.block [.ret [] ⟨6, 7⟩] ⟨6, 7⟩) ⟨4, 7⟩] ⟨0, 7⟩

theorem generated_returns_leaving :
    (∀ n ∈ leaving.nodes, n.WellSorted) ∧
      ∃ (statements : List Node) (span : Span) (d : Draft), leaving = .block statements span ∧
        (∀ n ∈ statements, n.tag ≠ .ret) ∧
        (generate ⟨2, .standard⟩ leaving).result = .ok d.finish ∧ d.ShowsReturns 2 statements span := by
  have hSorted : ∀ n ∈ leaving.nodes, n.WellSorted := by
    simp only [leaving, Node.nodes_eq, Node.children, List.flatMap_cons, List.flatMap_nil, List.append_nil,
      List.cons_append, List.nil_append, Option.toList_none]
    decide
  obtain ⟨text, hText⟩ : ∃ text, (generate ⟨2, .standard⟩ leaving).result = .ok text :=
    exists_text_of_isOk (by decide +kernel)
  obtain ⟨statements, span, d, hRoot, -, rfl, hShows⟩ := generated_returns 2 hText hSorted
  refine ⟨hSorted, statements, span, d, hRoot, ?_, hText, hShows⟩
  obtain ⟨rfl, -⟩ := Node.block.inj hRoot
  decide

end Lowering
