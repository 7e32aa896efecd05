import Lowering.Proofs.Draft.Requests
import Lowering.Proofs.Emit.Filing

/-!
# What the nodes of a tree need

A request for a header or for support code is made in many places: where the type of a variable, a parameter or a result is
looked up, where a literal is written, where its type is asked for, where an argument is printed. Still it can be told from
the nodes of the tree, each looked at by itself, which requests are made.

* `Node.annotations` — the types that are given to variables, parameters and results.
* `Node.needs` — the requests that a node makes by itself.
* `Node.mem_additions_iff` — the requests of a tree.
* `Node.HeadersFor`, `Node.headersFor_additions` — which nodes the headers of a program are for.
* `Node.string_mem_supports_iff`, `Node.stringPrint_mem_supports_iff` — which nodes the support code is for.
-/

namespace Lowering

-- ---------------------------------------------------------------------------
-- Requests among additions
-- ---------------------------------------------------------------------------

/-- Whether an addition asks for a header or for support code. -/
def Addition.isRequest : Addition → Bool
  | .header _ | .support _ => true
  | _ => false

section Requests

open Addition

variable {r : Addition} (hr : r.isRequest = true)
include hr

theorem ne_of_isRequest {a : Addition} (h : a.isRequest = false) : r ≠ a := by
  rintro rfl
  rw [h] at hr
  exact absurd hr (by decide)

theorem ne_text_of_isRequest (s : String) : r ≠ .text s :=
  ne_of_isRequest hr rfl

theorem mem_closed_iff (as : List Addition) : r ∈ closed as ↔ r ∈ as := by
  simp [closed, ne_of_isRequest hr (a := .returned) rfl]

theorem mem_filed_iff (as : List Addition) : r ∈ filed as ↔ r ∈ as := by
  have hFiled : r.isFiled = true := by
    cases r <;> simp_all [isRequest, isFiled]
  simp [filed, hFiled]

theorem mem_commaSeparated_iff (parts : List (List Addition)) : r ∈ commaSeparated parts ↔ ∃ as ∈ parts, r ∈ as := by
  fun_induction commaSeparated parts with
  | case1 => simp
  | case2 as => simp
  | case3 as rest _ ih => simp [ih, ne_text_of_isRequest hr]

section Places

variable (p : Place)

theorem mem_line_iff (s : String) : r ∈ p.line s ↔ False := by
  simp [Place.line, ne_text_of_isRequest hr]

theorem mem_wrapped_iff (as : List Addition) : r ∈ p.wrapped as ↔ r ∈ as := by
  unfold Place.wrapped
  split <;> simp [ne_text_of_isRequest hr]

theorem mem_guarded_iff (before after : String) (as : List Addition) : r ∈ p.guarded before as after ↔ r ∈ as := by
  simp [Place.guarded, ne_text_of_isRequest hr]

theorem mem_braced_iff (as : List Addition) : r ∈ p.braced as ↔ r ∈ as := by
  simp [Place.braced, mem_line_iff hr]

theorem mem_statement_iff (n : Node) (as : List Addition) : r ∈ p.statement n as ↔ r ∈ as := by
  unfold Place.statement
  split
  · simp [ne_text_of_isRequest hr]
  · split
    · exact mem_braced_iff hr p as
    · rfl

theorem mem_block_iff (as : List Addition) : r ∈ p.block as ↔ r ∈ as := by
  unfold Place.block
  split
  · split <;> simp [ne_text_of_isRequest hr, mem_closed_iff hr, mem_line_iff hr]
  · exact mem_closed_iff hr as

theorem mem_ret_iff {values : List (List Addition)} (h : values.length ≤ 1) :
    r ∈ p.ret values ↔ ∃ as ∈ values, r ∈ as := by
  have hReturned : r ≠ .returned := ne_of_isRequest hr rfl
  match values, h with
  | [], _ => simp [Place.ret, ne_text_of_isRequest hr, hReturned]
  | [value], _ => simp [Place.ret, ne_text_of_isRequest hr, hReturned]

theorem mem_branch_iff (before : String) (arm : Arm (List Addition)) :
    r ∈ p.branch before arm ↔ r ∈ arm.guard ∨ r ∈ arm.body := by
  simp [Place.branch, mem_guarded_iff hr]

theorem mem_cond_iff {arms : List (Arm (List Addition))} (h : arms ≠ []) (otherwise : Option (List Addition)) :
    r ∈ p.cond arms otherwise ↔ (∃ a ∈ arms, r ∈ a.guard ∨ r ∈ a.body) ∨ ∃ as ∈ otherwise, r ∈ as := by
  cases arms with
  | nil => exact absurd rfl h
  | cons first rest =>
    cases otherwise <;>
      simp [Place.cond, Place.otherwise, mem_branch_iff hr, mem_line_iff hr, or_assoc]

theorem mem_switch_iff (subject : List Addition) (arms : List (Arm (List Addition)))
    (otherwise : Option (List Addition)) :
    r ∈ p.switch subject arms otherwise ↔
      r ∈ subject ∨ (∃ a ∈ arms, r ∈ a.guard ∨ r ∈ a.body) ∨ ∃ as ∈ otherwise, r ∈ as := by
  cases otherwise <;>
    simp [Place.switch, Place.switchArm, Place.armBody, Place.defaultArm, mem_guarded_iff hr, mem_line_iff hr]

theorem mem_forNum_iff (type name : String) (first last : List Addition) (step : Option (List Addition))
    (body : List Addition) :
    r ∈ p.forNum type name first last step body ↔
      r ∈ typeNeeds type ∨ r ∈ first ∨ r ∈ last ∨ (∃ as ∈ step, r ∈ as) ∨ r ∈ body := by
  cases step <;>
    simp [Place.forNum, stepAdditions, declaratorAdditions, ne_text_of_isRequest hr, mem_line_iff hr]

theorem mem_declareVariable_iff (qualifier : String) (var : TypedName) (value : Option (Node × List Addition)) :
    r ∈ p.declareVariable qualifier var value ↔
      r ∈ typeNeeds ((typeName? var (value.map Prod.fst)).getD "") ∨ ∃ v ∈ value, r ∈ v.2 := by
  cases value <;> simp [Place.declareVariable, ne_text_of_isRequest hr]

theorem mem_stores_iff {targets values : List (List Addition)} (h : targets.length = values.length) :
    r ∈ p.stores targets values ↔ ∃ as ∈ Node.alternate targets values, r ∈ as := by
  induction targets generalizing values with
  | nil =>
    obtain rfl := List.length_eq_zero_iff.mp h.symm
    simp [Place.stores, Node.alternate]
  | cons t ts ih =>
    cases values with
    | nil => simp at h
    | cons v vs => simp [Place.stores, Node.alternate, ne_text_of_isRequest hr, ih (Nat.succ.inj h)]

end Places

end Requests

-- ---------------------------------------------------------------------------
-- One node
-- ---------------------------------------------------------------------------

namespace Node

/-- The types that a node gives to variables, parameters and results. -/
def annotations : Node → List String
  | .varDecl _ _ vars _ _ | .forIn vars _ _ _ => vars.filterMap TypedName.type
  | .forNum var _ _ _ _ _ _ => var.type.toList
  | .funcDef _ _ params returns _ _ => returns ++ params.filterMap TypedName.type
  | _ => []

/-- The requests that a literal makes. -/
def literalNeeds : Node → List Addition
  | .number form suffix _ => (resolveNumber form suffix).toOption.elim [] (fun n => typeNeeds n.type.name)
  | .string .. => [.support .string]
  | .boolean .. => [.header "stdbool.h"]
  | .nil _ => [.header "stddef.h"]
  | _ => []

/-- The requests that a node makes by itself: as a literal, as a print call, and for the types it names. -/
def needs (n : Node) : List Addition :=
  n.literalNeeds ++ n.printArgs?.elim [] (fun args => .header "stdio.h" :: args.flatMap slotNeeds)
    ++ n.annotations.flatMap typeNeeds

theorem exists_mem_nodes {P : Node → Prop} {n : Node} :
    (∃ m ∈ n.nodes, P m) ↔ P n ∨ ∃ c ∈ n.children, ∃ m ∈ c.nodes, P m := by
  rw [nodes_eq, List.exists_mem_cons_iff]
  simp only [List.mem_flatMap]
  refine or_congr Iff.rfl ⟨?_, ?_⟩
  · rintro ⟨m, ⟨c, hc, hm⟩, hP⟩
    exact ⟨c, hc, m, hm, hP⟩
  · rintro ⟨c, hc, m, hm, hP⟩
    exact ⟨m, ⟨c, hc, hm⟩, hP⟩

theorem exists_mem_arms_append {P : Node → Prop} {arms : List (Arm Node)} {otherwise : Option Node} :
    (∃ c ∈ arms.flatMap (fun a => [a.guard, a.body]) ++ otherwise.toList, P c) ↔
      (∃ a ∈ arms, P a.guard ∨ P a.body) ∨ ∃ c ∈ otherwise, P c := by
  simp only [List.mem_append, or_and_right, exists_or, Option.mem_toList, List.mem_flatMap, List.mem_cons,
    List.not_mem_nil, or_false]
  refine or_congr ⟨?_, ?_⟩ Iff.rfl
  · rintro ⟨c, ⟨a, ha, rfl | rfl⟩, hP⟩
    · exact ⟨a, ha, Or.inl hP⟩
    · exact ⟨a, ha, Or.inr hP⟩
  · rintro ⟨a, ha, hP | hP⟩
    · exact ⟨a.guard, ⟨a, ha, Or.inl rfl⟩, hP⟩
    · exact ⟨a.body, ⟨a, ha, Or.inr rfl⟩, hP⟩

section Lists

variable {r : Addition} {R : Node → Prop} {q : Place}

theorem exists_mem_additionsAll {cs : List Node} (h : ∀ c ∈ cs, r ∈ c.additions q ↔ R c) :
    (∃ as ∈ additionsAll q cs, r ∈ as) ↔ ∃ c ∈ cs, R c := by
  rw [additionsAll_eq]
  simp only [List.mem_map, exists_exists_and_eq_and]
  exact exists_congr fun c => and_congr_right fun hc => h c hc

theorem exists_mem_additionsOption {o : Option Node} (h : ∀ c ∈ o, r ∈ c.additions q ↔ R c) :
    (∃ as ∈ additionsOption q o, r ∈ as) ↔ ∃ c ∈ o, R c := by
  cases o with
  | none => simp [additionsOption]
  | some c => simp [additionsOption, h c rfl]

theorem exists_mem_additionsArms {arms : List (Arm Node)}
    (h : ∀ a ∈ arms, (r ∈ a.guard.additions q ↔ R a.guard) ∧ (r ∈ a.body.additions q.deeper ↔ R a.body)) :
    (∃ a ∈ additionsArms q arms, r ∈ a.guard ∨ r ∈ a.body) ↔ ∃ a ∈ arms, R a.guard ∨ R a.body := by
  rw [additionsArms_eq]
  simp only [List.mem_map, exists_exists_and_eq_and]
  exact exists_congr fun a => and_congr_right fun ha => or_congr (h a ha).1 (h a ha).2

end Lists

theorem mem_typeNeeds_getD {r : Addition} (type : Option String) :
    r ∈ typeNeeds (type.getD "") ↔ ∃ t ∈ type, r ∈ typeNeeds t := by
  cases type with
  | none => simp [show typeNeeds "" = [] from rfl]
  | some t => simp

theorem exists_mem_types {P : String → Prop} (vars : List TypedName) :
    (∃ t ∈ vars.filterMap TypedName.type, P t) ↔ ∃ var ∈ vars, ∃ t ∈ var.type, P t := by
  simp only [List.mem_filterMap]
  constructor
  · rintro ⟨t, ⟨var, hVar, ht⟩, hP⟩
    exact ⟨var, hVar, t, ht, hP⟩
  · rintro ⟨var, hVar, t, ht, hP⟩
    exact ⟨t, ⟨var, hVar, ht⟩, hP⟩

/-- A type that is looked up because a literal shows it is needed by that literal anyway. -/
theorem exists_mem_needs_of_literalType? {v : Node} {type : String} (h : v.literalType? = some type) {r : Addition}
    (hr : r ∈ typeNeeds type) : ∃ m ∈ v.nodes, r ∈ m.needs := by
  induction v using childInduction with
  | step v ih =>
    cases v with
    | number form suffix span =>
      refine ⟨_, self_mem_nodes _, ?_⟩
      cases hResolve : resolveNumber form suffix with
      | error cause => simp [literalType?, hResolve, Except.toOption] at h
      | ok n =>
        have hType : n.type.name = type := by simpa [literalType?, hResolve, Except.toOption] using h
        simp [needs, literalNeeds, hResolve, Except.toOption, hType, hr]
    | boolean value span =>
      obtain rfl : "boolean" = type := by simpa [literalType?] using h
      exact ⟨_, self_mem_nodes _, hr⟩
    | string value span =>
      obtain rfl : "string" = type := by simpa [literalType?] using h
      exact ⟨_, self_mem_nodes _, hr⟩
    | paren inner span =>
      obtain ⟨m, hm, hNeeds⟩ := ih inner (by simp [children]) h
      exact ⟨m, nodes_subset (mem_nodes_of_mem_children (by simp [children])) hm, hNeeds⟩
    | _ => simp [literalType?] at h

variable {r : Addition} (hr : r.isRequest = true)
include hr

omit hr in
/-- The type of a variable is the one it is given, or one that its value needs anyway. -/
theorem mem_typeNeeds_or {R : Node → Prop} (var : TypedName) (value : Option Node)
    (h : ∀ v ∈ value, ∀ type ∈ v.literalType?, r ∈ typeNeeds type → R v) :
    (r ∈ typeNeeds ((typeName? var value).getD "") ∨ ∃ v ∈ value, R v) ↔
      (∃ type ∈ var.type, r ∈ typeNeeds type) ∨ ∃ v ∈ value, R v := by
  unfold typeName?
  cases var.type with
  | some type => simp
  | none =>
    have hInferred : r ∈ typeNeeds ((value.bind literalType?).getD "") → ∃ v ∈ value, R v := by
      cases hType : value.bind literalType? with
      | none => exact fun hMem => absurd hMem (List.not_mem_nil)
      | some type =>
        obtain ⟨v, hv, hLiteral⟩ := Option.bind_eq_some_iff.mp hType
        exact fun hMem => ⟨v, hv, h v hv type hLiteral hMem⟩
    simpa using hInferred

/-- The requests of declared variables: for the types they are given, and those of their values. -/
theorem mem_declareVariables_iff (p : Place) (qualifier : String) {R : Node → Prop} {vars : List TypedName}
    {values : List Node} {F : Node → List Addition} (hCount : values = [] ∨ values.length = vars.length)
    (h : ∀ v ∈ values, r ∈ F v ↔ R v) (hLiteral : ∀ v ∈ values, ∀ type ∈ v.literalType?, r ∈ typeNeeds type → R v) :
    r ∈ p.declareVariables qualifier vars (values.map fun v => (v, F v)) ↔
      (∃ var ∈ vars, ∃ type ∈ var.type, r ∈ typeNeeds type) ∨ ∃ v ∈ values, R v := by
  induction vars generalizing values with
  | nil =>
    obtain rfl : values = [] := hCount.elim (fun hNil => hNil) List.length_eq_zero_iff.mp
    simp [Place.declareVariables]
  | cons var vars ih =>
    cases values with
    | nil =>
      have hOne := mem_typeNeeds_or (r := r) (R := R) var none (by simp)
      have hRest := @ih [] (Or.inl rfl) (by simp) (by simp)
      simp only [List.map_nil] at hRest
      simp only [List.map_nil, Place.declareVariables, List.mem_append, mem_declareVariable_iff hr, hRest]
      simp at hOne ⊢
      rw [hOne]
    | cons v rest =>
      obtain ⟨hv, hRest⟩ := List.forall_mem_cons.mp h
      obtain ⟨hLiteral', hLiterals⟩ := List.forall_mem_cons.mp hLiteral
      have hLength : rest.length = vars.length := by simpa using hCount
      have hOne := mem_typeNeeds_or (r := r) (R := R) var (some v) (by simpa using hLiteral')
      have hMore := ih (Or.inr hLength) hRest hLiterals
      simp only [List.map_cons, Place.declareVariables, List.mem_append, mem_declareVariable_iff hr, hMore]
      simp [hv] at hOne ⊢
      rw [← or_assoc, hOne, or_assoc, or_or_or_comm, or_assoc]

theorem mem_additions_step {depth : Nat} {n : Node} (hSound : n.Sound depth) (p : Place) {R : Node → Prop}
    (h : ∀ c ∈ n.children, ∀ q : Place, r ∈ c.additions q ↔ R c)
    (hLiteral : ∀ c ∈ n.children, ∀ type ∈ c.literalType?, r ∈ typeNeeds type → R c) :
    r ∈ n.additions p ↔ r ∈ n.needs ∨ ∃ c ∈ n.children, R c := by
  have hText : ∀ text, r ≠ .text text := fun _ => ne_of_isRequest hr rfl
  have hSymbol : ∀ name owner, r ≠ .symbol name owner := fun _ _ => ne_of_isRequest hr rfl
  have hForward : ∀ line, r ≠ .forward line := fun _ => ne_of_isRequest hr rfl
  have hHelper : ∀ text, r ≠ .helper text := fun _ => ne_of_isRequest hr rfl
  have hFunction : ∀ signature body, r ≠ .function signature body := fun _ _ => ne_of_isRequest hr rfl
  cases n
  case number form suffix span =>
    cases hResolve : resolveNumber form suffix <;>
      simp [additions, numberAdditions, needs, literalNeeds, printArgs?, annotations, children, hResolve,
        Except.toOption, hText]
  case string value span =>
    simp [additions, stringAdditions, needs, literalNeeds, printArgs?, annotations, children, hText, hSymbol, hForward]
  case boolean => simp [additions, needs, literalNeeds, printArgs?, annotations, children, hText]
  case nil => simp [additions, needs, literalNeeds, printArgs?, annotations, children, hText]
  case varargs => exact hSound.elim
  case forIn => exact hSound.elim
  case id => simp [additions, needs, literalNeeds, printArgs?, annotations, children, hText]
  case breakLoop => simp [additions, needs, literalNeeds, printArgs?, annotations, children, mem_line_iff hr]
  case continueLoop => simp [additions, needs, literalNeeds, printArgs?, annotations, children, mem_line_iff hr]
  case label => simp [additions, needs, literalNeeds, printArgs?, annotations, children, mem_line_iff hr]
  case goto => simp [additions, needs, literalNeeds, printArgs?, annotations, children, mem_line_iff hr]
  case paren inner span =>
    simp [additions, needs, literalNeeds, printArgs?, annotations, children, hText,
      h inner (by simp [children])]
  case dotIndex base field span =>
    simp [additions, needs, literalNeeds, printArgs?, annotations, children, hText, h base (by simp [children])]
  case arrayIndex base index span =>
    simp [additions, needs, literalNeeds, printArgs?, annotations, children, hText, h base (by simp [children]),
      h index (by simp [children])]
  case call callee args span =>
    have hArgs := exists_mem_additionsAll fun c (hc : c ∈ args) => h c (by simp [children, hc]) (p.descend .call)
    cases hCallee : Expression.intrinsic? callee with
    | none =>
      have hPrint : printArgs? (.call callee args span) = none := by
        rw [printArgs?_call, hCallee]
        rfl
      simp [additions, hCallee, needs, literalNeeds, hPrint, annotations, children, hText, mem_commaSeparated_iff hr, hArgs,
        h callee (by simp [children])]
    | some intrinsic =>
      cases intrinsic
      obtain ⟨nameSpan, rfl⟩ := intrinsic?_eq_print_iff.mp hCallee
      have hName : ¬ R (.id "print" nameSpan) := by
        rw [← h (.id "print" nameSpan) (by simp [children]) p]
        simp [additions, hText]
      simp [additions, hCallee, printAdditions, needs, literalNeeds, printArgs?, annotations, children, hText, hSymbol,
        hForward, hHelper, hName, mem_commaSeparated_iff hr, hArgs]
      rw [or_left_comm, or_assoc]
  case unaryOp op operand span =>
    simp [additions, needs, literalNeeds, printArgs?, annotations, children, hText, mem_wrapped_iff hr,
      h operand (by simp [children])]
  case binaryOp op lhs rhs span =>
    simp [additions, needs, literalNeeds, printArgs?, annotations, children, hText, mem_wrapped_iff hr,
      h lhs (by simp [children]), h rhs (by simp [children])]
  case ternaryOp op first second third span =>
    simp [additions, needs, literalNeeds, printArgs?, annotations, children, hText, mem_wrapped_iff hr,
      h first (by simp [children]), h second (by simp [children]), h third (by simp [children])]
  case block statements span =>
    have hNeeds : (Node.block statements span).needs = [] := rfl
    rw [additions, mem_block_iff hr, statementsAdditions_eq, List.mem_flatMap, hNeeds]
    simp only [mem_statement_iff hr, List.not_mem_nil, false_or]
    exact exists_congr fun c => and_congr_right fun hc => h c hc _
  case ret values span =>
    rw [additions, mem_ret_iff hr _ (by rw [additionsAll_eq, List.length_map]; exact hSound),
      exists_mem_additionsAll fun c (hc : c ∈ values) => h c hc _]
    simp [needs, literalNeeds, printArgs?, annotations, children]
  case cond branches otherwise span =>
    have hNonempty : additionsArms (p.descend .cond) branches ≠ [] := by
      rw [additionsArms_eq, ne_eq, List.map_eq_nil_iff]
      exact hSound
    obtain ⟨hMem, hMem'⟩ := forall_mem_arms_append.mp fun c (hc : c ∈ children (.cond branches otherwise span)) => hc
    have hNeeds : (Node.cond branches otherwise span).needs = [] := rfl
    rw [additions, mem_cond_iff hr _ hNonempty,
      exists_mem_additionsArms fun a ha => ⟨h _ (hMem a ha).1 _, h _ (hMem a ha).2 _⟩,
      exists_mem_additionsOption fun c hc => h c (hMem' c hc) _, hNeeds, children, exists_mem_arms_append]
    simp only [List.not_mem_nil, false_or]
  case switch subject cases otherwise span =>
    have hNeeds : (Node.switch subject cases otherwise span).needs = [] := rfl
    have hChildren : (Node.switch subject cases otherwise span).children =
      subject :: (cases.flatMap (fun a => [a.guard, a.body]) ++ otherwise.toList) := rfl
    obtain ⟨hMem, hMem'⟩ := forall_mem_arms_append.mp fun c hc => hChildren ▸ List.mem_cons_of_mem subject hc
    rw [additions, mem_switch_iff hr, h subject (by simp [children]),
      exists_mem_additionsArms fun a ha => ⟨h _ (hMem a ha).1 _, h _ (hMem a ha).2 _⟩,
      exists_mem_additionsOption fun c hc => h c (hMem' c hc) _, hNeeds, hChildren, ← exists_mem_arms_append]
    simp only [List.not_mem_nil, false_or, List.exists_mem_cons_iff]
  case «scoped» body span =>
    simp [additions, needs, literalNeeds, printArgs?, annotations, children, mem_braced_iff hr,
      h body (by simp [children])]
  case whileLoop guard body span =>
    simp [additions, Place.whileLoop, needs, literalNeeds, printArgs?, annotations, children, mem_guarded_iff hr,
      mem_line_iff hr, h guard (by simp [children]), h body (by simp [children])]
  case repeatLoop body guard span =>
    simp [additions, Place.repeatLoop, needs, literalNeeds, printArgs?, annotations, children, mem_guarded_iff hr,
      mem_line_iff hr, h guard (by simp [children]), h body (by simp [children])]
  case forNum var first comparator last step body span =>
    have hStep : ∀ c ∈ step, c ∈ children (.forNum var first comparator last step body span) := by
      intro c hc
      simp only [children, List.mem_append, Option.mem_toList]
      exact Or.inl (Or.inr hc)
    have hType := mem_typeNeeds_or (r := r) var (some first) (by simpa using hLiteral first (by simp [children]))
    rw [additions, mem_forNum_iff hr, h first (by simp [children]), h last (by simp [children]), h body (by simp [children]),
      exists_mem_additionsOption fun c hc => h c (hStep c hc) _]
    simp [needs, literalNeeds, printArgs?, annotations, children] at hType ⊢
    rw [← or_assoc, hType, or_assoc]
  case varDecl visibility mutability vars values span =>
    have hPairs : values.zip (additionsAll (p.descend .varDecl) values) =
        values.map (fun v => (v, v.additions (p.descend .varDecl))) := by
      rw [additionsAll_eq, zip_map_self]
    rw [additions, hPairs, mem_declareVariables_iff hr _ _ hSound.2.2.1 (fun v hv => h v hv _) hLiteral]
    simp [needs, literalNeeds, printArgs?, annotations, exists_mem_types, -List.mem_filterMap, children]
  case assign targets values span =>
    have hNeeds : (Node.assign targets values span).needs = [] := rfl
    have hLength : (additionsAll (p.descend .assign) targets).length
        = (additionsAll (p.descend .assign) values).length := by
      rw [additionsAll_eq, additionsAll_eq, List.length_map, List.length_map]
      exact hSound.1
    rw [additions, mem_stores_iff hr _ hLength, additionsAll_eq, additionsAll_eq, map_alternate, ← additionsAll_eq,
      exists_mem_additionsAll fun c (hc : c ∈ alternate targets values) => h c hc _, hNeeds]
    simp only [List.not_mem_nil, false_or, children]
  case funcDef visibility name params returns body span =>
    have hBody := h body (by simp [children]) (p.descend .funcDef).inFunction
    simp [additions, functionAdditions, needs, literalNeeds, printArgs?, annotations, exists_mem_types, mem_typeNeeds_getD,
      children, -List.mem_filterMap, mem_filed_iff hr, hForward, hFunction, hBody, or_assoc]

/-- A sound tree makes a request exactly when one of its nodes needs it. -/
theorem mem_additions_iff {depth : Nat} {n : Node} (hSound : n.SoundAt depth) (p : Place) :
    r ∈ n.additions p ↔ ∃ m ∈ n.nodes, r ∈ m.needs := by
  induction n using childInduction generalizing depth p with
  | step n ih =>
    obtain ⟨hHere, hBelow⟩ := soundAt_iff.mp hSound
    have hChild : ∀ c ∈ n.children, ∀ q : Place, r ∈ c.additions q ↔ ∃ m ∈ c.nodes, r ∈ m.needs :=
      fun c hc q => ih c hc (hBelow c hc) q
    rw [mem_additions_step hr hHere p hChild fun c _ type hType => exists_mem_needs_of_literalType? hType, exists_mem_nodes]

end Node

-- ---------------------------------------------------------------------------
-- Headers and support code
-- ---------------------------------------------------------------------------

open Addition

/-- The names of the integer types. -/
def integerTypes : List String :=
  ["int", "isize", "int8", "int16", "int32", "int64", "uint", "usize", "uint8", "uint16", "uint32", "uint64"]

/-- The header and the support code of a source type. -/
theorem requests_typeNeeds (type : String) :
    (typeNeeds type).flatMap headers =
        (if type ∈ "string" :: integerTypes then ["stdint.h"]
          else if type ∈ ["boolean", "bool"] then ["stdbool.h"] else []) ∧
      (typeNeeds type).flatMap supports = if type = "string" then [.string] else [] := by
  by_cases hKnown : type ∈ Target.primitiveTypes.map Prod.fst
  · revert type
    decide
  · have hFind : Target.primitiveTypes.find? type = none := by
      refine List.lookup_eq_none_iff.mpr fun e he => bne_iff_ne.mpr ?_
      rintro rfl
      exact hKnown (List.mem_map_of_mem he)
    have hNames : ∀ name ∈ ["boolean", "bool"] ++ "string" :: integerTypes, type ≠ name := by
      have hTable : ∀ name ∈ ["boolean", "bool"] ++ "string" :: integerTypes,
          name ∈ Target.primitiveTypes.map Prod.fst := by decide
      rintro name hName rfl
      exact hKnown (hTable _ hName)
    have hNot : ∀ names ⊆ ["boolean", "bool"] ++ "string" :: integerTypes, type ∉ names :=
      fun names hSub hMem => hNames type (hSub hMem) rfl
    rw [typeNeeds, hFind, if_neg (hNot _ (List.subset_append_right _ _)), if_neg (hNot _ (List.subset_append_left _ _)),
      if_neg (hNames "string" (by simp))]
    exact ⟨rfl, rfl⟩

theorem mem_headers_typeNeeds {type header : String} :
    header ∈ (typeNeeds type).flatMap headers ↔
      header = "stdint.h" ∧ type ∈ "string" :: integerTypes ∨ header = "stdbool.h" ∧ type ∈ ["boolean", "bool"] := by
  have hApart : type ∈ "string" :: integerTypes → type ∉ ["boolean", "bool"] := by
    revert type
    decide
  rw [(requests_typeNeeds type).1]
  split
  · rename_i hInteger
    simp only [List.mem_singleton, hInteger, hApart hInteger, and_true, and_false, or_false]
  · rename_i hInteger
    split
    · rename_i hBoolean
      simp only [List.mem_singleton, hInteger, hBoolean, and_true, and_false, false_or]
    · rename_i hBoolean
      simp only [List.not_mem_nil, hInteger, hBoolean, and_false, or_false]

theorem mem_supports_typeNeeds {type : String} {s : Support} :
    s ∈ (typeNeeds type).flatMap supports ↔ s = .string ∧ type = "string" := by
  rw [(requests_typeNeeds type).2]
  split
  · rename_i hString
    simp only [List.mem_singleton, hString, and_true]
  · rename_i hString
    simp only [List.not_mem_nil, hString, and_false]

theorem name_mem_integerTypes (t : Numeric) : t.name ∈ "string" :: integerTypes ↔ t.isReal = false := by
  rcases t with (_ | _ | _ | _ | _) | (_ | _ | _ | _ | _) | (_ | _ | _) <;> decide

theorem name_not_mem (t : Numeric) : t.name ∉ ["boolean", "bool"] ∧ t.name ≠ "string" := by
  rcases t with (_ | _ | _ | _ | _) | (_ | _ | _ | _ | _) | (_ | _ | _) <;> decide

namespace Node

/-- The node is a number of an integer type. -/
def isInteger : Node → Bool
  | .number form suffix _ => (resolveNumber form suffix).toOption.any (fun n => !n.type.isReal)
  | _ => false

theorem mem_headers_literalNeeds {n : Node} {header : String} :
    header ∈ n.literalNeeds.flatMap headers ↔
      header = "stdint.h" ∧ (n.isInteger = true ∨ n.tag = .string) ∨ header = "stdbool.h" ∧ n.tag = .boolean ∨
        header = "stddef.h" ∧ n.tag = .nil := by
  cases n with
  | number form suffix span =>
    cases hResolve : resolveNumber form suffix with
    | error cause => simp [literalNeeds, isInteger, hResolve, Except.toOption, tag]
    | ok m =>
      have hNumeric := name_mem_integerTypes m.type
      simp only [literalNeeds, isInteger, hResolve, Except.toOption, Option.elim, mem_headers_typeNeeds,
        (name_not_mem m.type).1, hNumeric, tag]
      simp
  | _ => simp [literalNeeds, isInteger, tag, headers, Support.headers]

theorem mem_supports_literalNeeds {n : Node} {s : Support} :
    s ∈ n.literalNeeds.flatMap supports ↔ s = .string ∧ n.tag = .string := by
  cases n with
  | number form suffix span =>
    cases hResolve : resolveNumber form suffix with
    | error cause => simp [literalNeeds, hResolve, Except.toOption, tag]
    | ok m =>
      simp only [literalNeeds, hResolve, Except.toOption, Option.elim, mem_supports_typeNeeds, (name_not_mem m.type).2, tag]
      simp
  | _ => simp [literalNeeds, tag, supports, Support.closure]

theorem mem_headers_slotNeeds {n : Node} {header : String} :
    header ∈ (slotNeeds n).flatMap headers ↔
      (header = "stdint.h" ∨ header = "inttypes.h") ∧ n.isInteger = true ∨
        (header = "stdint.h" ∨ header = "stdio.h") ∧ n.tag = .string := by
  cases n with
  | number form suffix span =>
    rw [slotNeeds_number]
    cases hResolve : resolveNumber form suffix with
    | error cause => simp [isInteger, hResolve, Except.toOption, tag]
    | ok m =>
      have hNumeric := name_mem_integerTypes m.type
      have hDirective : (m.type.directive.header.elim [] fun h => [Addition.header h]).flatMap headers =
          if m.type.isReal then [] else ["inttypes.h"] := by
        rcases m.type with w | w | (_ | _ | _) <;> rfl
      simp only [List.flatMap_append, List.mem_append, mem_headers_typeNeeds, hDirective, hNumeric, isInteger, hResolve,
        Except.toOption, (name_not_mem m.type).1, tag]
      cases hReal : m.type.isReal <;> simp [hReal]
  | _ => simp [slotNeeds, isInteger, tag, headers, Support.headers]

theorem mem_supports_slotNeeds {n : Node} {s : Support} : s ∈ (slotNeeds n).flatMap supports ↔ n.tag = .string := by
  cases n with
  | number form suffix span =>
    rw [slotNeeds_number]
    cases hResolve : resolveNumber form suffix with
    | error cause => simp [tag]
    | ok m =>
      have hDirective : (m.type.directive.header.elim [] fun h => [Addition.header h]).flatMap supports = [] := by
        rcases m.type with w | w | (_ | _ | _) <;> rfl
      simp only [List.flatMap_append, List.mem_append, mem_supports_typeNeeds, hDirective, (name_not_mem m.type).2, tag]
      simp
  | string value span => cases s <;> simp [slotNeeds, tag, supports, Support.closure]
  | _ => simp [slotNeeds, tag]

-- ---------------------------------------------------------------------------
-- Whole trees
-- ---------------------------------------------------------------------------

theorem mem_children_of_printArgs? {n : Node} {args : List Node} (h : n.printArgs? = some args) :
    ∀ a ∈ args, a ∈ n.children := by
  intro a ha
  cases n with
  | call callee args' span =>
    rw [printArgs?_call] at h
    split at h
    · obtain rfl := Option.some.inj h
      simp [children, ha]
    · cases h
  | _ => cases h

section Requests

variable {β : Type} {g : Addition → List β} {b : β}

theorem mem_flatMap_needs {n : Node} :
    b ∈ n.needs.flatMap g ↔
      b ∈ n.literalNeeds.flatMap g ∨
        (∃ args ∈ n.printArgs?, b ∈ g (.header "stdio.h") ∨ ∃ a ∈ args, b ∈ (slotNeeds a).flatMap g) ∨
          ∃ type ∈ n.annotations, b ∈ (typeNeeds type).flatMap g := by
  have hPrint : b ∈ (n.printArgs?.elim [] fun args => .header "stdio.h" :: args.flatMap slotNeeds).flatMap g ↔
      ∃ args ∈ n.printArgs?, b ∈ g (.header "stdio.h") ∨ ∃ a ∈ args, b ∈ (slotNeeds a).flatMap g := by
    cases n.printArgs? with
    | none => simp
    | some args => simp only [Option.elim, List.flatMap_cons, List.flatMap_assoc, List.mem_append, List.mem_flatMap,
        Option.mem_def, Option.some.injEq, exists_eq_left']
  have hTypes : b ∈ (n.annotations.flatMap typeNeeds).flatMap g ↔
      ∃ type ∈ n.annotations, b ∈ (typeNeeds type).flatMap g := by
    rw [List.flatMap_assoc, List.mem_flatMap]
  rw [needs, List.flatMap_append, List.flatMap_append, List.mem_append, List.mem_append, hPrint, hTypes, or_assoc]

/-- What is read off the requests of a tree is read off its nodes one by one. -/
theorem mem_flatMap_additions_iff (hg : ∀ a : Addition, a.isRequest = false → g a = []) {n : Node} {depth : Nat}
    (hSound : n.SoundAt depth) (p : Place) :
    b ∈ (n.additions p).flatMap g ↔ ∃ m ∈ n.nodes, b ∈ m.needs.flatMap g := by
  have hRequest : ∀ a : Addition, b ∈ g a → a.isRequest = true := by
    intro a hMem
    cases hKind : a.isRequest with
    | true => rfl
    | false => simp [hg a hKind] at hMem
  simp only [List.mem_flatMap]
  constructor
  · rintro ⟨a, ha, hMem⟩
    obtain ⟨m, hm, hNeeds⟩ := (mem_additions_iff (hRequest a hMem) hSound p).mp ha
    exact ⟨m, hm, a, hNeeds, hMem⟩
  · rintro ⟨m, hm, a, hNeeds, hMem⟩
    exact ⟨a, (mem_additions_iff (hRequest a hMem) hSound p).mpr ⟨m, hm, hNeeds⟩, hMem⟩

end Requests

/-- What the headers of a program are for. -/
structure HeadersFor (root : Node) (headers : List String) : Prop where
  distinct : headers.Nodup
  known : ∀ header ∈ headers, header ∈ knownHeaders
  stddef : "stddef.h" ∈ headers ↔ ∃ n ∈ root.nodes, n.tag = .nil
  stdbool : "stdbool.h" ∈ headers ↔
    ∃ n ∈ root.nodes, n.tag = .boolean ∨ ∃ type ∈ n.annotations, type = "boolean" ∨ type = "bool"
  stdio : "stdio.h" ∈ headers ↔ ∃ n ∈ root.nodes, ∃ args, n.printArgs? = some args
  inttypes : "inttypes.h" ∈ headers ↔
    ∃ n ∈ root.nodes, ∃ args, n.printArgs? = some args ∧ ∃ a ∈ args, a.isInteger = true
  stdint : "stdint.h" ∈ headers ↔
    ∃ n ∈ root.nodes, n.isInteger = true ∨ n.tag = .string ∨
      ∃ type ∈ n.annotations, type ∈ integerTypes ∨ type = "string"

/-- Strings are written, or variables, parameters or results have their type. -/
def UsesStrings (root : Node) : Prop :=
  ∃ n ∈ root.nodes, n.tag = .string ∨ "string" ∈ n.annotations

/-- Strings are printed. -/
def PrintsStrings (root : Node) : Prop :=
  ∃ n ∈ root.nodes, ∃ args ∈ n.printArgs?, ∃ a ∈ args, a.tag = .string

instance (root : Node) : Decidable root.UsesStrings :=
  inferInstanceAs (Decidable (∃ n ∈ root.nodes, _))

instance (root : Node) : Decidable root.PrintsStrings :=
  inferInstanceAs (Decidable (∃ n ∈ root.nodes, _))

/-- The headers that a node asks for. -/
theorem mem_headers_needs {n : Node} {header : String} :
    header ∈ n.needs.flatMap headers ↔
      (header = "stdint.h" ∧ (n.isInteger = true ∨ n.tag = .string) ∨ header = "stdbool.h" ∧ n.tag = .boolean ∨
        header = "stddef.h" ∧ n.tag = .nil) ∨
      (∃ args, n.printArgs? = some args ∧ (header = "stdio.h" ∨ ∃ a ∈ args,
        (header = "stdint.h" ∨ header = "inttypes.h") ∧ a.isInteger = true ∨
          (header = "stdint.h" ∨ header = "stdio.h") ∧ a.tag = .string)) ∨
      ∃ type ∈ n.annotations,
        header = "stdint.h" ∧ type ∈ "string" :: integerTypes ∨ header = "stdbool.h" ∧ type ∈ ["boolean", "bool"] := by
  rw [mem_flatMap_needs, mem_headers_literalNeeds]
  simp only [mem_headers_slotNeeds, mem_headers_typeNeeds, headers, List.mem_singleton, Option.mem_def]

section Programs

variable {root : Node} {depth : Nat} (hSound : root.SoundAt depth) (p : Place)
include hSound

theorem mem_headers_iff {header : String} :
    header ∈ (root.additions p).flatMap headers ↔ ∃ n ∈ root.nodes, header ∈ n.needs.flatMap headers :=
  mem_flatMap_additions_iff (by rintro (_ | _ | _ | _ | _ | _ | _ | _) h <;> first | rfl | cases h) hSound p

theorem mem_supports_iff {s : Support} :
    s ∈ (root.additions p).flatMap supports ↔ ∃ n ∈ root.nodes, s ∈ n.needs.flatMap supports :=
  mem_flatMap_additions_iff (by rintro (_ | _ | _ | _ | _ | _ | _ | _) h <;> first | rfl | cases h) hSound p

theorem headersFor_additions : root.HeadersFor ((root.additions p).flatMap headers).eraseDups := by
  have hMem : ∀ header, header ∈ ((root.additions p).flatMap headers).eraseDups ↔
      ∃ n ∈ root.nodes, header ∈ n.needs.flatMap headers := fun header =>
    List.mem_eraseDups.trans (mem_headers_iff hSound p)
  simp only [mem_headers_needs] at hMem
  refine ⟨nodup_eraseDups _, fun header hHeader => ?_, ?_, ?_, ?_, ?_, ?_⟩
  · obtain ⟨n, -, (⟨rfl, -⟩ | ⟨rfl, -⟩ | ⟨rfl, -⟩) | ⟨_, -, hPrint⟩ | ⟨_, -, ⟨rfl, -⟩ | ⟨rfl, -⟩⟩⟩ := (hMem header).mp hHeader
    on_goal 4 => obtain rfl | ⟨_, -, ⟨rfl | rfl, -⟩ | ⟨rfl | rfl, -⟩⟩ := hPrint
    all_goals decide
  · rw [hMem]
    simp
  · rw [hMem]
    simp
  · rw [hMem]
    simp
  · rw [hMem]
    simp
  · rw [hMem]
    constructor
    · rintro ⟨n, hn, (⟨-, h⟩ | ⟨h, -⟩ | ⟨h, -⟩) | ⟨args, hArgs, h⟩ | ⟨type, hType, ⟨-, h⟩ | ⟨h, -⟩⟩⟩
      · exact ⟨n, hn, h.imp_right Or.inl⟩
      · exact absurd h (by decide)
      · exact absurd h (by decide)
      · -- a printed number or string is a node of the program, too
        obtain ⟨a, ha, h⟩ := h.resolve_left (by decide)
        have hNode := nodes_subset hn (mem_nodes_of_mem_children (mem_children_of_printArgs? hArgs a ha))
        exact ⟨a, hNode, (h.imp And.right And.right).imp_right Or.inl⟩
      · exact ⟨n, hn, Or.inr (Or.inr ⟨type, hType, (List.mem_cons.mp h).symm⟩)⟩
      · exact absurd h (by decide)
    · rintro ⟨n, hn, h | h | ⟨type, hType, h⟩⟩
      · exact ⟨n, hn, Or.inl (Or.inl ⟨rfl, Or.inl h⟩)⟩
      · exact ⟨n, hn, Or.inl (Or.inl ⟨rfl, Or.inr h⟩)⟩
      · exact ⟨n, hn, Or.inr (Or.inr ⟨type, hType, Or.inl ⟨rfl, List.mem_cons.mpr h.symm⟩⟩)⟩

/-- The record type is there if strings are used. -/
theorem string_mem_supports_iff : .string ∈ (root.additions p).flatMap supports ↔ root.UsesStrings := by
  rw [mem_supports_iff hSound p, UsesStrings]
  simp only [mem_flatMap_needs, mem_supports_literalNeeds, mem_supports_slotNeeds, mem_supports_typeNeeds, supports,
    List.not_mem_nil, false_or, true_and, Option.mem_def, exists_eq_right]
  constructor
  · rintro ⟨n, hn, h | ⟨args, hArgs, a, ha, h⟩ | h⟩
    · exact ⟨n, hn, Or.inl h⟩
    · exact ⟨a, nodes_subset hn (mem_nodes_of_mem_children (mem_children_of_printArgs? hArgs a ha)), Or.inl h⟩
    · exact ⟨n, hn, Or.inr h⟩
  · rintro ⟨n, hn, h | h⟩
    · exact ⟨n, hn, Or.inl h⟩
    · exact ⟨n, hn, Or.inr (Or.inr h)⟩

/-- The function that prints strings is there if one is printed. -/
theorem stringPrint_mem_supports_iff : .stringPrint ∈ (root.additions p).flatMap supports ↔ root.PrintsStrings := by
  rw [mem_supports_iff hSound p, PrintsStrings]
  simp [mem_flatMap_needs, mem_supports_literalNeeds, mem_supports_slotNeeds, mem_supports_typeNeeds, supports,
    -List.mem_flatMap]

end Programs

end Node

end Lowering
