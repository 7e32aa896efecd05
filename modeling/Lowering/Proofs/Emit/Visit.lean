import Lowering.Proofs.Emit.Statement
import Lowering.Proofs.Emit.Walks

/-!
# What a tree adds

The writing of a node succeeds exactly if every node below it is sound where it stands and no generated name is given
away twice, and it then makes the additions of the node. One case for each kind of node, by induction over the tree.

* `Node.visit_adds` — when a node can be written, and what that adds.
-/

namespace Lowering

open Gen

-- ---------------------------------------------------------------------------
-- Places and depths
-- ---------------------------------------------------------------------------

/-- The place has the given number of blocks and functions around it, as far as the place can tell. -/
structure Place.Inside (p : Place) (depth : Nat) : Prop where
  outermost : p.outermost = true ↔ depth = 0
  top : p.isTop = true ↔ depth = 1

namespace Place.Inside

variable {p : Place} {depth : Nat}

theorem descend (h : p.Inside depth) (tag : Tag) : (p.descend tag).Inside depth :=
  ⟨h.outermost, h.top⟩

theorem deeper (h : p.Inside depth) : p.deeper.Inside depth :=
  ⟨h.outermost, h.top⟩

theorem inBlock (h : p.Inside depth) : p.inBlock.Inside (depth + 1) := by
  unfold Place.inBlock
  by_cases hOutermost : p.outermost = true
  · have hDepth := h.outermost.mp hOutermost
    rw [if_pos hOutermost]
    exact ⟨by simp [Place.enter], by simp [Place.enter, Scope.top, hDepth]⟩
  · have hDepth : depth ≠ 0 := fun h0 => hOutermost (h.outermost.mpr h0)
    rw [if_neg hOutermost]
    exact ⟨by simp [Place.enter], by simp [Place.enter, Scope.nested, hDepth]⟩

theorem inFunction (h : depth = 1) : p.inFunction.Inside (depth + 1) := by
  subst h
  exact ⟨by simp [Place.inFunction, Place.enter], by simp [Place.inFunction, Place.enter, Scope.function]⟩

theorem ofStatement (h : p.Inside depth) (n : Node) : (p.ofStatement n).Inside depth := by
  unfold Place.ofStatement
  split
  · exact h.deeper
  · exact h

end Place.Inside

/-- Every draft is being written inside some number of blocks and functions. -/
theorem Draft.exists_inside (d : Draft) : ∃ depth, d.place.Inside depth := by
  cases hScopes : d.site.scopes with
  | nil => exact ⟨0, by simp [Draft.place, hScopes], by simp [Draft.place, Site.isTop, Site.scope?, hScopes]⟩
  | cons c cs =>
    cases hTop : c.isTop with
    | true =>
      exact ⟨1, by simp [Draft.place, hScopes], by simp [Draft.place, Site.isTop, Site.scope?, hScopes, hTop]⟩
    | false =>
      exact ⟨2, by simp [Draft.place, hScopes], by simp [Draft.place, Site.isTop, Site.scope?, hScopes, hTop]⟩

namespace Node

/-- Every node of a tree is sound where it stands. -/
def SoundAt (depth : Nat) (n : Node) : Prop :=
  ∀ e ∈ n.census depth, e.2.Sound e.1

theorem soundAt_iff {depth : Nat} {n : Node} :
    n.SoundAt depth ↔ n.Sound depth ∧ ∀ c ∈ n.children, c.SoundAt (depth + n.ownScopes) :=
  forall_mem_census

-- ---------------------------------------------------------------------------
-- Parts
-- ---------------------------------------------------------------------------

/-- A node with the step that writes it. -/
def part (n : Node) : Part :=
  ⟨n, visit .standard n⟩

theorem visitAll_eq (ns : List Node) : visitAll .standard ns = ns.map part :=
  visitAll_eq_map .standard ns

theorem visitOption_eq (o : Option Node) : visitOption .standard o = o.map part :=
  visitOption_eq_map .standard o

theorem visitArms_eq (arms : List (Arm Node)) :
    visitArms .standard arms = arms.map (fun a => ⟨a.guard.part, a.body.part⟩) :=
  visitArms_eq_map .standard arms

/-- Every kind of node is registered with its own way of writing. -/
theorem find?_standard (tag : Tag) : Registry.standard.find? tag = some (.standard tag) := by
  cases tag <;> rfl

/-- Going down to a node changes nothing but the place. -/
theorem dispatch_adds {n : Node} {own : Gen Unit} {p : Place} {ok : Prop} {as : List Addition}
    (h : Adds own (p.descend n.tag) ok as ()) : Adds (dispatch .standard n own) p ok as () := by
  have hNote : Adds (noteDispatch n) p True [] () := .of_done rfl (fun d _ => ⟨_, rfl⟩)
  have hBelow : Adds (below n.tag ((Handler.standard n.tag).run n own)) p ok as () := by
    refine Adds.below ?_
    rw [Handler.run, if_pos rfl]
    exact h
  unfold dispatch
  rw [find?_standard]
  exact (hNote.next hBelow).congr (by simp) (fun _ => rfl)

/-- The callee of a print call is the name itself. -/
theorem intrinsic?_eq_print_iff {callee : Node} :
    Expression.intrinsic? callee = some .print ↔ ∃ span, callee = .id "print" span := by
  constructor
  · intro h
    cases callee with
    | id name span =>
      have hName : name = "print" := by
        by_contra hNot
        simp [Expression.intrinsic?, Intrinsic.ofName?, Intrinsic.all, Intrinsic.name, Ne.symm hNot] at h
      exact ⟨span, by rw [hName]⟩
    | _ => simp [Expression.intrinsic?] at h
  · rintro ⟨span, rfl⟩
    rfl

/-- A call is a print call or it has no arguments to print. -/
theorem printArgs?_call (callee : Node) (args : List Node) (span : Span) :
    printArgs? (.call callee args span) = if Expression.intrinsic? callee = some .print then some args else none := by
  by_cases hPrint : Expression.intrinsic? callee = some .print
  · rw [if_pos hPrint]
    obtain ⟨_, rfl⟩ := intrinsic?_eq_print_iff.mp hPrint
    rfl
  · rw [if_neg hPrint]
    cases callee with
    | id name nameSpan =>
      have hName : name ≠ "print" := by
        rintro rfl
        exact hPrint rfl
      simp [printArgs?, hName]
    | _ => rfl

/-- The parts of nodes give back the nodes. -/
theorem map_node_part (ns : List Node) : (ns.map part).map Part.node = ns := by
  rw [List.map_map]
  exact List.map_id ns

theorem zip_map_self {α β : Type} (f : α → β) (l : List α) : l.zip (l.map f) = l.map (fun a => (a, f a)) := by
  rw [List.zip_map_right, List.zip_eq_zipWith, List.zipWith_self, List.map_map]
  rfl

/-- Where values are sound, a variable has a type as soon as it can be given one. -/
theorem deducible_iff {var : TypedName} {value : Option Node} {depth : Nat} (h : ∀ v ∈ value, v.SoundAt depth) :
    Deducible var value ↔ Typeable var value :=
  ⟨fun hDeducible => hDeducible.1, fun hTypeable => ⟨hTypeable, fun v hv _ => resolvable_of_sound (h v hv)⟩⟩

-- ---------------------------------------------------------------------------
-- One case for each kind of node
-- ---------------------------------------------------------------------------

/-- At places inside `depth` blocks and functions, the node can be written exactly if it is sound and its names are
fresh, and this adds its additions. -/
def Described (depth : Nat) (n : Node) : Prop :=
  ∀ p : Place, p.Inside depth → Adds (visit .standard n) p (n.SoundAt depth) (n.additions p) ()

section Cases

variable {depth : Nat} {p : Place} {span : Span}

theorem Described.parts {ns : List Node} (h : ∀ n ∈ ns, n.Described depth) (hp : p.Inside depth) :
    ∀ x ∈ ns.map part, Adds x.emit p (x.node.SoundAt depth) (x.node.additions p) () :=
  List.forall_mem_map.mpr fun n hn => h n hn p hp

theorem Described.option {o : Option Node} (h : ∀ n ∈ o, n.Described depth) (hp : p.Inside depth) :
    ∀ x ∈ o.map part, Adds x.emit p (x.node.SoundAt depth) (x.node.additions p) () := by
  intro x hx
  obtain ⟨n, hn, rfl⟩ := Option.map_eq_some_iff.mp hx
  exact h n hn p hp

theorem call_described {callee : Node} {args : List Node} (hCallee : callee.Described depth)
    (hArgs : ∀ a ∈ args, a.Described depth) : (Node.call callee args span).Described depth := by
  intro p hp
  have hq := hp.descend .call
  rw [soundAt_iff, visit, visitAll_eq]
  refine dispatch_adds ?_
  by_cases hPrint : Expression.intrinsic? callee = some .print
  · refine (printCall_adds (x := callee.part) hPrint (Described.parts hArgs hq)).congr ?_ ?_
    · obtain ⟨nameSpan, rfl⟩ := intrinsic?_eq_print_iff.mp hPrint
      have hName : SoundAt depth (.id "print" nameSpan) := soundAt_iff.mpr ⟨trivial, by simp [children]⟩
      simp only [Sound, printArgs?_call, hPrint, if_true, Option.some.injEq, forall_eq', children, List.forall_mem_cons,
        ownScopes, Nat.add_zero, hName, true_and, List.forall_mem_map, part, Printable]
      constructor
      · rintro ⟨hTags, hSound⟩
        exact ⟨fun a ha => ⟨hTags a ha, resolvable_of_sound (hSound a ha)⟩, hSound⟩
      · rintro ⟨hPrintable, hSound⟩
        exact ⟨fun a ha => (hPrintable a ha).1, hSound⟩
    · intro _
      rw [additions, hPrint, map_node_part, additionsAll_eq, List.map_map]
      rfl
  · have hNone : Expression.intrinsic? callee = none := by
      cases hCase : Expression.intrinsic? callee with
      | none => rfl
      | some intrinsic =>
        cases intrinsic
        exact absurd hCase hPrint
    refine (call_adds (x := callee.part) hNone (hCallee _ hq) (Described.parts hArgs hq)).congr ?_ ?_
    · simp [Sound, printArgs?_call, hNone, children, ownScopes, part]
    · intro _
      rw [additions, hNone, additionsAll_eq, List.map_map]
      rfl

theorem block_described {statements : List Node} (h : ∀ s ∈ statements, s.Described (depth + 1)) :
    (Node.block statements span).Described depth := by
  intro p hp
  have hq := (hp.descend .block).inBlock
  rw [soundAt_iff, visit, visitAll_eq]
  refine dispatch_adds ?_
  have hBody := Adds.forM (p := (p.descend .block).inBlock) (f := Block.statement) (l := statements.map part)
    (P := fun x => x.node.SoundAt (depth + 1))
    (F := fun x => (p.descend .block).inBlock.statement x.node
      (x.node.additions ((p.descend .block).inBlock.ofStatement x.node)))
    (List.forall_mem_map.mpr fun s hs => statement_adds (h s hs _ (hq.ofStatement s)))
  refine (block_adds hBody).congr ?_ ?_
  · simp [Sound, children, part, ownScopes]
  · intro _
    rw [additions, statementsAdditions_eq, List.flatMap_map]
    rfl

theorem ret_described {values : List Node} (h : ∀ v ∈ values, v.Described depth) :
    (Node.ret values span).Described depth := by
  intro p hp
  rw [soundAt_iff, visit, visitAll_eq]
  refine dispatch_adds ((ret_adds (Described.parts h (hp.descend .ret))).congr ?_ ?_)
  · simp [Sound, children, part, ownScopes]
  · intro _
    rw [additions, additionsAll_eq, List.map_map]
    rfl

theorem cond_described {branches : List (Arm Node)} {otherwise : Option Node}
    (hArms : ∀ a ∈ branches, a.guard.Described depth ∧ a.body.Described depth)
    (hOtherwise : ∀ c ∈ otherwise, c.Described depth) : (Node.cond branches otherwise span).Described depth := by
  intro p hp
  have hq := hp.descend .cond
  rw [soundAt_iff, visit, visitArms_eq, visitOption_eq]
  refine dispatch_adds ((cond_adds (P := fun x => x.node.SoundAt depth) (F := fun x => x.node.additions (p.descend .cond))
    (G := fun x => x.node.additions (p.descend .cond).deeper) ?_ ?_ ?_).congr ?_ ?_)
  · exact List.forall_mem_map.mpr fun a ha => (hArms a ha).1 _ hq
  · exact List.forall_mem_map.mpr fun a ha => (hArms a ha).2 _ hq.deeper
  · exact Described.option hOtherwise hq.deeper
  · rw [children, forall_mem_arms_append]
    simp [Sound, ownScopes, part]
  · intro _
    rw [additions, additionsArms_eq, additionsOption_eq, List.map_map, Option.map_map]
    rfl

theorem switch_described {subject : Node} {cases : List (Arm Node)} {otherwise : Option Node}
    (hSubject : subject.Described depth) (hArms : ∀ a ∈ cases, a.guard.Described depth ∧ a.body.Described depth)
    (hOtherwise : ∀ c ∈ otherwise, c.Described depth) : (Node.switch subject cases otherwise span).Described depth := by
  intro p hp
  have hq := hp.descend .switch
  rw [soundAt_iff, visit, visitArms_eq, visitOption_eq]
  refine dispatch_adds ((switch_adds (P := fun x => x.node.SoundAt depth)
    (F := fun x => x.node.additions (p.descend .switch).deeper)
    (G := fun x => x.node.additions (p.descend .switch).deeper.deeper) (hSubject _ hq) ?_ ?_ ?_).congr ?_ ?_)
  · exact List.forall_mem_map.mpr fun a ha => (hArms a ha).1 _ hq.deeper
  · exact List.forall_mem_map.mpr fun a ha => (hArms a ha).2 _ hq.deeper.deeper
  · exact Described.option hOtherwise hq.deeper.deeper
  · rw [children, List.cons_append, List.forall_mem_cons, forall_mem_arms_append]
    simp [Sound, ownScopes, part]
  · intro _
    rw [additions, additionsArms_eq, additionsOption_eq, List.map_map, Option.map_map]
    rfl

theorem forNum_described {var : TypedName} {first : Node} {comparator : Option String} {last : Node}
    {step : Option Node} {body : Node} (hFirst : first.Described depth) (hLast : last.Described depth)
    (hStep : ∀ s ∈ step, s.Described depth) (hBody : body.Described depth) :
    (Node.forNum var first comparator last step body span).Described depth := by
  intro p hp
  have hq := hp.descend .forNum
  rw [soundAt_iff, visit, visitOption_eq]
  refine dispatch_adds ((forNum_adds (x := first.part) (y := last.part) (z := body.part) (hFirst _ hq) (hLast _ hq)
    (Described.option hStep hq) (hBody _ hq.deeper)).congr ?_ ?_)
  · by_cases hSound : first.SoundAt depth
    · have hDeducible : Deducible var (some first) ↔ Typeable var (some first) :=
        deducible_iff (fun v hv => by rwa [← Option.some.inj hv])
      have hChildren : (∀ c ∈ [first, last] ++ step.toList ++ [body], c.SoundAt depth) ↔
          first.SoundAt depth ∧ last.SoundAt depth ∧ (∀ c ∈ step, c.SoundAt depth) ∧ body.SoundAt depth := by
        rw [List.forall_mem_append, List.forall_mem_append]
        simp [and_assoc]
      simp only [children, ownScopes, Nat.add_zero, hChildren]
      simp [Sound, part, hDeducible]
    · simp [children, ownScopes, hSound, part]
  · intro _
    rw [additions, additionsOption_eq, Option.map_map]
    rfl

theorem varDecl_described {visibility : Visibility} {mutability : Mutability} {vars : List TypedName}
    {values : List Node} (h : ∀ v ∈ values, v.Described depth) :
    (Node.varDecl visibility mutability vars values span).Described depth := by
  intro p hp
  rw [soundAt_iff, visit, visitAll_eq]
  refine dispatch_adds ((declaration_adds (Described.parts h (hp.descend .varDecl))).congr ?_ ?_)
  · have hNode : ∀ i : Nat, (values.map part)[i]?.map Part.node = values[i]? := by
      intro i
      rw [← List.getElem?_map, map_node_part]
    have hTypes : (∀ v ∈ values, v.SoundAt depth) →
        ((∀ i (h : i < vars.length), Deducible vars[i] ((values.map part)[i]?.map Part.node)) ↔
          AllTypeable vars values) := by
      intro hSound
      refine forall_congr' fun i => forall_congr' fun hi => ?_
      rw [hNode, deducible_iff]
      exact fun v hv => hSound v (List.mem_of_getElem? hv)
    simp only [Sound, children, ownScopes, List.forall_mem_map, List.map_eq_nil_iff, List.length_map, Nat.add_zero]
    refine and_congr_left fun hSound => ?_
    rw [hTypes hSound]
  · intro _
    rw [additions, additionsAll_eq, zip_map_self, List.map_map]
    rfl

theorem assign_described {targets values : List Node} (hTargets : ∀ t ∈ targets, t.Described depth)
    (hValues : ∀ v ∈ values, v.Described depth) : (Node.assign targets values span).Described depth := by
  intro p hp
  have hq := hp.descend .assign
  rw [soundAt_iff, visit, visitAll_eq, visitAll_eq]
  refine dispatch_adds ((assignment_adds (Described.parts hTargets hq) (Described.parts hValues hq)).congr ?_ ?_)
  · rw [map_node_part, map_node_part]
    simp [Sound, children, ownScopes, part, mem_alternate, or_imp, forall_and]
  · intro _
    rw [additions, additionsAll_eq, additionsAll_eq, List.map_map, List.map_map]
    rfl

theorem funcDef_described {visibility : Visibility} {name : String} {params : List TypedName} {returns : List String}
    {body : Node} (h : body.Described (depth + 1)) :
    (Node.funcDef visibility name params returns body span).Described depth := by
  intro p hp
  have hq := hp.descend .funcDef
  rw [soundAt_iff, visit]
  refine dispatch_adds ?_
  by_cases hTop : depth = 1
  · refine (function_adds (h _ (.inFunction hTop))).congr ?_ (fun _ => rfl)
    have hIsTop : (p.descend .funcDef).isTop = true := hq.top.mpr hTop
    simp [Sound, children, ownScopes, tag, hIsTop, hTop]
  · refine (function_refused (Bool.eq_false_iff.mpr fun h => hTop (hq.top.mp h))).congr ?_ (fun _ => rfl)
    simp [Sound, hTop]

end Cases

/-- Every node is described. By induction over the tree, with one case for each kind of node. -/
theorem visit_adds (n : Node) : ∀ depth, n.Described depth := by
  induction n using childInduction with
  | step n ih =>
    intro depth
    have hBelow : ∀ c ∈ n.children, c.Described (depth + n.ownScopes) := fun c hc => ih c hc _
    cases n
    case call callee args span =>
      exact call_described (hBelow callee (by simp [children])) (fun a ha => hBelow a (by simp [children, ha]))
    case block statements span => exact block_described hBelow
    case ret values span => exact ret_described hBelow
    case cond branches otherwise span =>
      obtain ⟨hArms, hOtherwise⟩ := forall_mem_arms_append.mp hBelow
      exact cond_described hArms hOtherwise
    case switch subject cases otherwise span =>
      obtain ⟨hSubject, hRest⟩ := List.forall_mem_cons.mp hBelow
      obtain ⟨hArms, hOtherwise⟩ := forall_mem_arms_append.mp hRest
      exact switch_described hSubject hArms hOtherwise
    case forNum var first comparator last step body span =>
      exact forNum_described (hBelow first (by simp [children])) (hBelow last (by simp [children]))
        (fun s hs => hBelow s (by simp [children]; tauto)) (hBelow body (by simp [children]))
    case varDecl visibility mutability vars values span => exact varDecl_described hBelow
    case assign targets values span =>
      exact assign_described (fun t ht => hBelow t (mem_alternate.mpr (Or.inl ht)))
        (fun v hv => hBelow v (mem_alternate.mpr (Or.inr hv)))
    case funcDef visibility name params returns body span => exact funcDef_described (hBelow body (by simp [children]))
    all_goals
      intro p hp
      have hq := hp.descend
      rw [soundAt_iff, visit]
      refine dispatch_adds ?_
    case number form suffix span => exact (number_adds form suffix span).congr (by simp [Sound, children]) (fun _ => rfl)
    case string value span => exact (string_adds value span).congr (by simp [Sound, children]) (fun _ => rfl)
    case boolean value span => exact (boolean_adds value).congr (by simp [Sound, children]) (fun _ => rfl)
    case nil span => exact null_adds.congr (by simp [Sound, children]) (fun _ => rfl)
    case varargs span => exact (Adds.fail span .varargs () _).congr (by simp [Sound]) (fun _ => rfl)
    case forIn vars exprs body span => exact (Adds.fail span .forIn () _).congr (by simp [Sound]) (fun _ => rfl)
    case id name span => exact (Adds.write _).congr (by simp [Sound, children]) (fun _ => rfl)
    case breakLoop span => exact (Adds.writeIndentedLine _).congr (by simp [Sound, children]) (fun _ => rfl)
    case continueLoop span => exact (Adds.writeIndentedLine _).congr (by simp [Sound, children]) (fun _ => rfl)
    case label name span => exact (Adds.writeIndentedLine _).congr (by simp [Sound, children]) (fun _ => rfl)
    case goto target span => exact (Adds.writeIndentedLine _).congr (by simp [Sound, children]) (fun _ => rfl)
    case paren inner span =>
      exact (paren_adds (hBelow inner (by simp [children]) _ (hq _))).congr (by simp [Sound, children]) (fun _ => rfl)
    case dotIndex base field span =>
      exact (field_adds (hBelow base (by simp [children]) _ (hq _)) field).congr (by simp [Sound, children])
        (fun _ => rfl)
    case arrayIndex base index span =>
      exact (element_adds (hBelow base (by simp [children]) _ (hq _)) (hBelow index (by simp [children]) _ (hq _))).congr
        (by simp [Sound, children]) (fun _ => rfl)
    case unaryOp op operand span =>
      exact (unary_adds (hBelow operand (by simp [children]) _ (hq _))).congr (by simp [Sound, children]) (fun _ => rfl)
    case binaryOp op lhs rhs span =>
      exact (binary_adds (hBelow lhs (by simp [children]) _ (hq _)) (hBelow rhs (by simp [children]) _ (hq _))).congr
        (by simp [Sound, children]) (fun _ => rfl)
    case ternaryOp op first second third span =>
      exact (ternary_adds (hBelow first (by simp [children]) _ (hq _)) (hBelow second (by simp [children]) _ (hq _))
        (hBelow third (by simp [children]) _ (hq _))).congr (by simp [Sound, children]) (fun _ => rfl)
    case «scoped» body span =>
      exact (braced_adds (hBelow body (by simp [children]) _ (hq _).deeper)).congr (by simp [Sound, children])
        (fun _ => rfl)
    case whileLoop guard body span =>
      exact (whileLoop_adds (hBelow guard (by simp [children]) _ (hq _))
        (hBelow body (by simp [children]) _ (hq _).deeper)).congr (by simp [Sound, children]) (fun _ => rfl)
    case repeatLoop body guard span =>
      exact (repeatLoop_adds (hBelow body (by simp [children]) _ (hq _).deeper)
        (hBelow guard (by simp [children]) _ (hq _))).congr (by simp [Sound, children]) (fun _ => rfl)

end Node

end Lowering
