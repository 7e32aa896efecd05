import Mathlib.Data.List.Basic
import Lowering.Proofs.Emit.Visit

/-!
# What a tree adds to the file

Names, forward declarations and definitions are added by strings, print calls and functions only. Read off the additions
of a tree, they are therefore what these nodes add by themselves, node after node in the order of the census.

* `Node.filterMap_additions` — one node: what it adds to the file by itself, and what the nodes below it add.
* `Node.filterMap_additions_census` — a whole tree.
-/

namespace Lowering

-- ---------------------------------------------------------------------------
-- Reading additions
-- ---------------------------------------------------------------------------

/-- The headers that programs ask for. -/
def knownHeaders : List String :=
  ["stdint.h", "stdbool.h", "stddef.h", "inttypes.h", "stdio.h"]

/-- What is read off the additions has nothing to do with text on the page and requests. -/
structure Reading {α : Type} (f : Addition → Option α) : Prop where
  text : ∀ s, f (.text s) = none
  header : ∀ name ∈ knownHeaders, f (.header name) = none
  support : ∀ s, f (.support s) = none

/-- What is read off the additions has nothing to do with returns, either. -/
structure Filing {α : Type} (f : Addition → Option α) : Prop extends Reading f where
  returned : f .returned = none

section Readings

variable {α : Type} {f : Addition → Option α}

namespace Filing

theorem closed (hf : Filing f) (as : List Addition) : (Addition.closed as).filterMap f = as.filterMap f := by
  rw [Addition.closed, List.filterMap_filter]
  congr 1
  funext a
  cases a <;> simp [hf.returned]

theorem filed (hf : Filing f) (as : List Addition) : (Addition.filed as).filterMap f = as.filterMap f := by
  rw [Addition.filed, List.filterMap_filter]
  congr 1
  funext a
  cases a <;> simp [hf.returned, hf.text, Addition.isFiled]

end Filing

namespace Reading

theorem typeNeeds (hf : Reading f) (name : String) : (typeNeeds name).filterMap f = [] := by
  unfold Lowering.typeNeeds
  cases hFind : Target.primitiveTypes.find? name with
  | none => rfl
  | some type =>
    have hTable : ∀ e ∈ Target.primitiveTypes, ∀ h ∈ e.2.header, h ∈ knownHeaders := by decide
    have hKnown := hTable _ (mem_of_find? hFind)
    have hHeader : (type.header.elim [] (fun h => [Addition.header h])).filterMap f = [] := by
      cases hType : type.header with
      | none => rfl
      | some h => simp [hf.header h (hKnown h hType)]
    have hSupport : (type.support.elim [] (fun support =>
        (Support.ofName? support).elim [] (fun s => [Addition.support s]))).filterMap f = [] := by
      cases type.support with
      | none => rfl
      | some support => cases hName : Support.ofName? support <;> simp [hf.support, hName]
    rw [List.filterMap_append, hHeader, hSupport, List.nil_append]

theorem number (hf : Reading f) (form : NumberForm) (suffix : Option String) :
    (numberAdditions form suffix).filterMap f = [] := by
  unfold numberAdditions
  cases resolveNumber form suffix with
  | error => rfl
  | ok n => simp [hf.typeNeeds, hf.text]

theorem slotNeeds (hf : Reading f) (n : Node) : (slotNeeds n).filterMap f = [] := by
  cases n with
  | string =>
    show [Addition.support .stringPrint].filterMap f = []
    simp [hf.support]
  | number form suffix span =>
    rw [slotNeeds_number]
    cases resolveNumber form suffix with
    | error => rfl
    | ok m =>
      have hHeader : (m.type.directive.header.elim [] (fun h => [Addition.header h])).filterMap f = [] := by
        rcases m.type with w | w | q
        · simp [Numeric.directive, hf.header "inttypes.h" (by decide)]
        · simp [Numeric.directive, hf.header "inttypes.h" (by decide)]
        · cases q <;> rfl
      rw [List.filterMap_append, hf.typeNeeds, hHeader, List.nil_append]
  | _ => rfl

theorem commaSeparated (hf : Reading f) (parts : List (List Addition)) :
    (commaSeparated parts).filterMap f = parts.flatMap (List.filterMap f) := by
  fun_induction Lowering.commaSeparated parts with
  | case1 => rfl
  | case2 as => simp
  | case3 as rest _ ih => simp [hf.text, ih]

section Places

variable (hf : Reading f) (p : Place)
include hf

theorem line (s : String) : (p.line s).filterMap f = [] := by
  simp [Place.line, hf.text]

theorem wrapped (as : List Addition) : (p.wrapped as).filterMap f = as.filterMap f := by
  unfold Place.wrapped
  split <;> simp [hf.text]

theorem guarded (before after : String) (as : List Addition) :
    (p.guarded before as after).filterMap f = as.filterMap f := by
  simp [Place.guarded, hf.text]

theorem braced (as : List Addition) : (p.braced as).filterMap f = as.filterMap f := by
  simp [Place.braced, hf.line]

theorem statement (n : Node) (as : List Addition) : (p.statement n as).filterMap f = as.filterMap f := by
  unfold Place.statement
  split
  · simp [hf.text]
  · split
    · exact hf.braced p as
    · rfl

theorem ret {values : List (List Addition)} (h : values.length ≤ 1) :
    (p.ret values).filterMap f = values.flatMap (List.filterMap f) ++ [.returned].filterMap f := by
  match values, h with
  | [], _ => simp [Place.ret, hf.text]
  | [value], _ => simp [Place.ret, hf.text]

theorem branch (before : String) (arm : Arm (List Addition)) :
    (p.branch before arm).filterMap f = arm.guard.filterMap f ++ arm.body.filterMap f := by
  simp [Place.branch, hf.guarded]

theorem cond {arms : List (Arm (List Addition))} (h : arms ≠ []) (otherwise : Option (List Addition)) :
    (p.cond arms otherwise).filterMap f =
      arms.flatMap (fun a => a.guard.filterMap f ++ a.body.filterMap f)
        ++ otherwise.toList.flatMap (List.filterMap f) := by
  cases arms with
  | nil => exact absurd rfl h
  | cons first rest =>
    cases otherwise <;>
      simp [Place.cond, Place.otherwise, hf.branch, hf.line, List.filterMap_flatMap]

theorem armBody (as : List Addition) : (p.armBody as).filterMap f = as.filterMap f := by
  simp [Place.armBody, hf.line]

theorem switchArm (arm : Arm (List Addition)) :
    (p.switchArm arm).filterMap f = arm.guard.filterMap f ++ arm.body.filterMap f := by
  simp [Place.switchArm, hf.guarded, hf.armBody]

theorem switch (subject : List Addition) (arms : List (Arm (List Addition))) (otherwise : Option (List Addition)) :
    (p.switch subject arms otherwise).filterMap f =
      subject.filterMap f ++ arms.flatMap (fun a => a.guard.filterMap f ++ a.body.filterMap f)
        ++ otherwise.toList.flatMap (List.filterMap f) := by
  cases otherwise <;>
    simp [Place.switch, Place.defaultArm, hf.guarded, hf.switchArm, hf.armBody, hf.line, List.filterMap_flatMap]

theorem forNum (type name : String) (first last : List Addition) (step : Option (List Addition)) (body : List Addition) :
    (p.forNum type name first last step body).filterMap f =
      first.filterMap f ++ last.filterMap f ++ step.toList.flatMap (List.filterMap f) ++ body.filterMap f := by
  cases step <;>
    simp [Place.forNum, stepAdditions, declaratorAdditions, hf.typeNeeds, hf.text, hf.line]

theorem declareVariable (qualifier : String) (var : TypedName) (value : Option (Node × List Addition)) :
    (p.declareVariable qualifier var value).filterMap f = value.toList.flatMap (fun v => v.2.filterMap f) := by
  cases value <;> simp [Place.declareVariable, hf.typeNeeds, hf.text]

theorem declareVariables (qualifier : String) {vars : List TypedName} {values : List (Node × List Addition)}
    (h : values = [] ∨ values.length = vars.length) :
    (p.declareVariables qualifier vars values).filterMap f = values.flatMap (fun v => v.2.filterMap f) := by
  induction vars generalizing values with
  | nil =>
    have hNil : values = [] := h.elim id List.length_eq_zero_iff.mp
    rw [hNil]
    rfl
  | cons var vars ih =>
    cases values with
    | nil => simp [Place.declareVariables, hf.declareVariable, ih (Or.inl rfl)]
    | cons v rest =>
      have hLength : rest.length = vars.length := by simpa using h
      simp [Place.declareVariables, hf.declareVariable, ih (Or.inr hLength)]

theorem stores {targets values : List (List Addition)} (h : targets.length = values.length) :
    (p.stores targets values).filterMap f = (Node.alternate targets values).flatMap (List.filterMap f) := by
  induction targets generalizing values with
  | nil =>
    obtain rfl := List.length_eq_zero_iff.mp h.symm
    rfl
  | cons t ts ih =>
    cases values with
    | nil => simp at h
    | cons v vs => simp [Place.stores, Node.alternate, hf.text, ih (Nat.succ.inj h)]

end Places

theorem function (hf : Reading f) (name : String) (params : List TypedName) (returns : List String)
    (body : List Addition) :
    (functionAdditions name params returns body).filterMap f =
      [.forward (functionSignature name params returns ++ ";\n")].filterMap f ++ (Addition.filed body).filterMap f
        ++ [.function (functionSignature name params returns) (Addition.pageText body)].filterMap f := by
  have hReturns : (returns.flatMap Lowering.typeNeeds).filterMap f = [] := by
    rw [List.filterMap_flatMap, List.flatMap_eq_nil_iff]
    exact fun type _ => hf.typeNeeds type
  have hParams : (params.flatMap (fun q => Lowering.typeNeeds (q.type.getD ""))).filterMap f = [] := by
    rw [List.filterMap_flatMap, List.flatMap_eq_nil_iff]
    exact fun q _ => hf.typeNeeds _
  simp only [functionAdditions, List.filterMap_append, hReturns, hParams, List.nil_append]

end Reading

theorem Filing.block (hf : Filing f) (p : Place) (as : List Addition) : (p.block as).filterMap f = as.filterMap f := by
  unfold Place.block
  split
  · split <;> simp [hf.text, hf.closed, hf.line]
  · exact hf.closed as

end Readings

-- ---------------------------------------------------------------------------
-- One node
-- ---------------------------------------------------------------------------

/-- The indentation width of new pages is the same everywhere. -/
theorem Place.width_inBlock (p : Place) : p.inBlock.width = p.width := by
  unfold Place.inBlock
  split <;> rfl

theorem Place.width_ofStatement (p : Place) (n : Node) : (p.ofStatement n).width = p.width := by
  unfold Place.ofStatement
  split <;> rfl

namespace Node

/-- What a node adds to the file by itself, before the nodes below it add anything. -/
def own (width : Nat) : Node → List Addition
  | .string value span =>
    [.symbol (Literal.recordName span) span, .forward (Literal.record (Literal.recordName span) value)]
  | .call callee args span =>
    match Expression.intrinsic? callee with
    | some .print =>
      [.symbol (Print.helperName span) span,
       .forward (Print.signature (Print.helperName span) (slotsFrom 1 args) ++ ";\n"),
       .helper (Print.helper width (Print.helperName span) (slotsFrom 1 args))]
    | none => []
  | .funcDef _ name params returns _ _ => [.forward (functionSignature name params returns ++ ";\n")]
  | _ => []

/-- What a node adds to the file by itself, after the nodes below it. -/
def ownAfter (p : Place) : Node → List Addition
  | .funcDef _ name params returns body _ =>
    [.function (functionSignature name params returns)
      (Addition.pageText (body.additions (p.descend .funcDef).inFunction))]
  | _ => []

/-- The note that a return leaves in the scope around it. -/
def ownReturn : Node → List Addition
  | .ret .. => [.returned]
  | _ => []

theorem map_alternate {α β : Type} (f : α → β) (as bs : List α) :
    alternate (as.map f) (bs.map f) = (alternate as bs).map f := by
  fun_induction alternate as bs with
  | case1 a as b bs ih => rw [List.map_cons, List.map_cons, alternate, ih, List.map_cons, List.map_cons]
  | case2 bs => simp [alternate]
  | case3 as h => cases as <;> simp [alternate]

variable {α : Type} {f : Addition → Option α}

/-- What one node adds that opens no scope: its own additions around those of the nodes below it. -/
theorem filterMap_additions_of_reading (hf : Reading f) {depth : Nat} {n : Node} (hSound : n.Sound depth)
    (hOwn : n.ownScopes = 0) {p : Place} {G : Node → List α}
    (h : ∀ c ∈ n.children, ∀ q : Place, q.width = p.width → (c.additions q).filterMap f = G c) :
    (n.additions p).filterMap f =
      (n.own p.width).filterMap f ++ n.children.flatMap G ++ n.ownReturn.filterMap f := by
  have hAll : ∀ (cs : List Node) (q : Place), (∀ c ∈ cs, c ∈ n.children) → q.width = p.width →
      (additionsAll q cs).flatMap (List.filterMap f) = cs.flatMap G := by
    intro cs q hcs hq
    rw [additionsAll_eq, List.flatMap_map]
    exact List.flatMap_congr fun c hc => h c (hcs c hc) q hq
  have hArms : ∀ (arms : List (Arm Node)) (q : Place), (∀ c ∈ arms.flatMap (fun a => [a.guard, a.body]), c ∈ n.children) →
      q.width = p.width → (additionsArms q arms).flatMap (fun a => a.guard.filterMap f ++ a.body.filterMap f) =
        (arms.flatMap (fun a => [a.guard, a.body])).flatMap G := by
    intro arms q hcs hq
    rw [additionsArms_eq, List.flatMap_map, List.flatMap_assoc]
    refine List.flatMap_congr fun a ha => ?_
    obtain ⟨hGuard, hBody⟩ := forall_mem_arms.mp hcs a ha
    simp [h a.guard hGuard q hq, h a.body hBody q.deeper hq]
  have hOption : ∀ (o : Option Node) (q : Place), (∀ c ∈ o.toList, c ∈ n.children) → q.width = p.width →
      (additionsOption q o).toList.flatMap (List.filterMap f) = o.toList.flatMap G := by
    intro o q hcs hq
    cases o with
    | none => rfl
    | some c => simp [additionsOption, h c (hcs c (by simp)) q hq]
  cases n
  case number form suffix span => simp [additions, own, ownReturn, children, hf.number]
  case string value span =>
    have hSplit : stringAdditions value span = [Addition.support .string] ++ own p.width (.string value span)
        ++ [Addition.text (recordText span)] := rfl
    rw [additions, hSplit, List.filterMap_append, List.filterMap_append]
    simp [ownReturn, children, hf.text, hf.support]
  case boolean => simp [additions, own, ownReturn, children, hf.text, hf.header "stdbool.h" (by decide)]
  case nil => simp [additions, own, ownReturn, children, hf.text, hf.header "stddef.h" (by decide)]
  case varargs => exact hSound.elim
  case forIn => exact hSound.elim
  case id => simp [additions, own, ownReturn, children, hf.text]
  case breakLoop => simp [additions, own, ownReturn, children, hf.line]
  case continueLoop => simp [additions, own, ownReturn, children, hf.line]
  case label => simp [additions, own, ownReturn, children, hf.line]
  case goto => simp [additions, own, ownReturn, children, hf.line]
  case paren inner span =>
    simp [additions, own, ownReturn, children, hf.text, h inner (by simp [children]) (p.descend .paren) rfl]
  case dotIndex base field span =>
    simp [additions, own, ownReturn, children, hf.text, h base (by simp [children]) (p.descend .dotIndex) rfl]
  case arrayIndex base index span =>
    simp [additions, own, ownReturn, children, hf.text, h base (by simp [children]) (p.descend .arrayIndex) rfl,
      h index (by simp [children]) (p.descend .arrayIndex) rfl]
  case call callee args span =>
    cases hCallee : Expression.intrinsic? callee with
    | none =>
      simp [additions, own, ownReturn, children, hCallee, hf.text, hf.commaSeparated,
        h callee (by simp [children]) (p.descend .call) rfl,
        hAll args (p.descend .call) (fun a ha => by simp [children, ha]) rfl]
    | some intrinsic =>
      cases intrinsic
      obtain ⟨nameSpan, rfl⟩ := intrinsic?_eq_print_iff.mp hCallee
      have hName : G (.id "print" nameSpan) = [] := by
        rw [← h (.id "print" nameSpan) (by simp [children]) p rfl]
        simp [additions, hf.text]
      have hArgs := hAll args (p.descend .call) (fun a ha => by simp [children, ha]) rfl
      have hSlots : (args.flatMap slotNeeds).filterMap f = [] := by
        rw [List.filterMap_flatMap, List.flatMap_eq_nil_iff]
        exact fun a _ => hf.slotNeeds a
      have hHead : ∀ (s t u : Addition) (text : String),
          [s].filterMap f ++ [.header "stdio.h", t, u, .text text].filterMap f = [s, t, u].filterMap f := by
        intro s t u text
        rw [show [s, t, u] = [s] ++ [t, u] from rfl,
          show [.header "stdio.h", t, u, .text text] = [Addition.header "stdio.h"] ++ [t, u] ++ [Addition.text text] from rfl]
        simp only [List.filterMap_append]
        simp [hf.header "stdio.h" (by decide), hf.text]
      rw [additions, hCallee]
      simp only [printAdditions, List.filterMap_append, hSlots, hf.commaSeparated, hArgs, List.append_nil, hHead]
      simp [own, ownReturn, hCallee, children, hName, hf.text]
  case unaryOp op operand span =>
    simp [additions, own, ownReturn, children, hf.text, hf.wrapped, h operand (by simp [children]) (p.descend .unaryOp) rfl]
  case binaryOp op lhs rhs span =>
    simp [additions, own, ownReturn, children, hf.text, hf.wrapped, h lhs (by simp [children]) (p.descend .binaryOp) rfl,
      h rhs (by simp [children]) (p.descend .binaryOp) rfl]
  case ternaryOp op first second third span =>
    simp [additions, own, ownReturn, children, hf.text, hf.wrapped,
      h first (by simp [children]) (p.descend .ternaryOp) rfl, h second (by simp [children]) (p.descend .ternaryOp) rfl,
      h third (by simp [children]) (p.descend .ternaryOp) rfl]
  case block => simp [ownScopes] at hOwn
  case ret values span =>
    rw [additions, hf.ret _ (by rw [additionsAll_eq, List.length_map]; exact hSound),
      hAll values (p.descend .ret) (fun c hc => hc) rfl]
    simp [own, ownReturn, children]
  case cond branches otherwise span =>
    have hNonempty : additionsArms (p.descend .cond) branches ≠ [] := by
      rw [additionsArms_eq, ne_eq, List.map_eq_nil_iff]
      exact hSound
    rw [additions, hf.cond _ hNonempty, hArms branches (p.descend .cond) (fun c hc => List.mem_append_left _ hc) rfl,
      hOption otherwise (p.descend .cond).deeper (fun c hc => List.mem_append_right _ hc) rfl]
    simp [own, ownReturn, children]
  case switch subject cases otherwise span =>
    rw [additions, hf.switch, h subject (by simp [children]) (p.descend .switch) rfl,
      hArms cases (p.descend .switch).deeper (fun c hc => List.mem_append_left _ (List.mem_cons_of_mem _ hc)) rfl,
      hOption otherwise (p.descend .switch).deeper.deeper (fun c hc => List.mem_append_right _ hc) rfl]
    simp [own, ownReturn, children]
  case «scoped» body span =>
    simp [additions, own, ownReturn, children, hf.braced, h body (by simp [children]) (p.descend .scoped).deeper rfl]
  case whileLoop guard body span =>
    simp [additions, own, ownReturn, children, Place.whileLoop, hf.guarded, hf.line,
      h guard (by simp [children]) (p.descend .whileLoop) rfl,
      h body (by simp [children]) (p.descend .whileLoop).deeper rfl]
  case repeatLoop body guard span =>
    simp [additions, own, ownReturn, children, Place.repeatLoop, hf.guarded, hf.line,
      h guard (by simp [children]) (p.descend .repeatLoop) rfl,
      h body (by simp [children]) (p.descend .repeatLoop).deeper rfl]
  case forNum var first comparator last step body span =>
    rw [additions, hf.forNum, h first (by simp [children]) (p.descend .forNum) rfl,
      h last (by simp [children]) (p.descend .forNum) rfl, h body (by simp [children]) (p.descend .forNum).deeper rfl,
      hOption step (p.descend .forNum) (fun c hc => by simp [children] at hc ⊢; tauto) rfl]
    simp [own, ownReturn, children]
  case varDecl visibility mutability vars values span =>
    have hCount : values.zip (additionsAll (p.descend .varDecl) values) = [] ∨
        (values.zip (additionsAll (p.descend .varDecl) values)).length = vars.length := by
      rw [additionsAll_eq]
      rcases hSound.2.2.1 with rfl | hLength
      · exact Or.inl rfl
      · exact Or.inr (by simpa using hLength)
    have hPairs : values.zip (additionsAll (p.descend .varDecl) values) =
        values.map (fun v => (v, v.additions (p.descend .varDecl))) := by
      rw [additionsAll_eq, zip_map_self]
    rw [additions, hf.declareVariables _ _ hCount, hPairs, List.flatMap_map]
    simp only [own, ownReturn, children, List.filterMap_nil, List.nil_append, List.append_nil]
    exact List.flatMap_congr fun v hv => h v hv _ rfl
  case assign targets values span =>
    have hLength : (additionsAll (p.descend .assign) targets).length
        = (additionsAll (p.descend .assign) values).length := by
      rw [additionsAll_eq, additionsAll_eq, List.length_map, List.length_map]
      exact hSound.1
    rw [additions, hf.stores _ hLength, additionsAll_eq, additionsAll_eq, map_alternate, ← additionsAll_eq,
      hAll (alternate targets values) (p.descend .assign) (fun c hc => hc) rfl]
    simp [own, ownReturn, children]
  case funcDef => simp [ownScopes] at hOwn

/-- What one node adds to the file: its own additions around those of the nodes below it. -/
theorem filterMap_additions (hf : Filing f) {depth : Nat} {n : Node} (hSound : n.Sound depth) {p : Place}
    {G : Node → List α} (h : ∀ c ∈ n.children, ∀ q : Place, q.width = p.width → (c.additions q).filterMap f = G c) :
    (n.additions p).filterMap f =
      (n.own p.width).filterMap f ++ n.children.flatMap G ++ (n.ownAfter p).filterMap f := by
  cases n
  case block statements span =>
    rw [additions, hf.block, statementsAdditions_eq, List.filterMap_flatMap]
    simp only [hf.statement, own, ownAfter, children, List.filterMap_nil, List.nil_append, List.append_nil]
    refine List.flatMap_congr fun s hs => h s hs _ ?_
    rw [Place.width_ofStatement, Place.width_inBlock]
    rfl
  case funcDef visibility name params returns body span =>
    rw [additions, hf.function, hf.filed]
    simp [own, ownAfter, children, h body (by simp [children]) (p.descend .funcDef).inFunction rfl]
  all_goals
    rw [filterMap_additions_of_reading hf.toReading hSound rfl h]
    simp [ownReturn, ownAfter, hf.returned]

-- ---------------------------------------------------------------------------
-- Whole trees
-- ---------------------------------------------------------------------------

/-- What a tree adds to the file, apart from functions: what its nodes add by themselves, in the order of the census. -/
theorem filterMap_additions_census (hf : Filing f) (hFunction : ∀ signature body, f (.function signature body) = none)
    (n : Node) : ∀ {depth : Nat} {p : Place}, n.SoundAt depth →
      (n.additions p).filterMap f = (n.census depth).flatMap (fun e => (e.2.own p.width).filterMap f) := by
  induction n using childInduction with
  | step n ih =>
    intro depth p hSoundAt
    obtain ⟨hSound, hBelow⟩ := soundAt_iff.mp hSoundAt
    have hAfter : (n.ownAfter p).filterMap f = [] := by
      cases n <;> simp [ownAfter, hFunction]
    have hChildren : ∀ c ∈ n.children, ∀ q : Place, q.width = p.width → (c.additions q).filterMap f =
        (c.census (depth + n.ownScopes)).flatMap (fun e => (e.2.own p.width).filterMap f) := by
      intro c hc q hq
      rw [ih c hc (hBelow c hc), hq]
    rw [filterMap_additions hf hSound hChildren, hAfter, List.append_nil, census_eq, List.flatMap_cons,
      List.flatMap_assoc]

/-- What holds of all that the nodes of a tree add to the file by themselves holds of all that the tree adds. -/
theorem forall_mem_additions {P : Addition → Prop} (hText : ∀ s, P (.text s))
    (hHeader : ∀ name ∈ knownHeaders, P (.header name)) (hSupport : ∀ s, P (.support s)) (hReturned : P .returned)
    {depth : Nat} {n : Node} (hSoundAt : n.SoundAt depth) (p : Place)
    (h : ∀ m ∈ n.nodes, ∀ q : Place, q.width = p.width → ∀ a ∈ m.own q.width ++ m.ownAfter q, P a) :
    ∀ a ∈ n.additions p, P a := by
  classical
  -- What does not have the property is read off the additions; there is nothing of the kind.
  let f : Addition → Option Addition := fun a => if P a then none else some a
  have hf : Filing f := ⟨⟨fun s => if_pos (hText s), fun s hs => if_pos (hHeader s hs), fun s => if_pos (hSupport s)⟩,
    if_pos hReturned⟩
  have hNil : ∀ as : List Addition, as.filterMap f = [] ↔ ∀ a ∈ as, P a := by
    intro as
    simp [f, List.filterMap_eq_nil_iff]
  induction n using childInduction generalizing depth p with
  | step n ih =>
    obtain ⟨hSound, hBelow⟩ := soundAt_iff.mp hSoundAt
    obtain ⟨hSelf, hNodes⟩ := forall_mem_nodes.mp h
    have hChildren : ∀ c ∈ n.children, ∀ q : Place, q.width = p.width → (c.additions q).filterMap f = [] := by
      intro c hc q hq
      refine (hNil _).mpr (ih c hc (hBelow c hc) q ?_)
      rw [hq]
      exact hNodes c hc
    obtain ⟨hOwn, hAfter⟩ := List.forall_mem_append.mp (hSelf p rfl)
    refine (hNil _).mp ?_
    rw [filterMap_additions hf hSound hChildren, (hNil _).mpr hOwn, (hNil _).mpr hAfter]
    simp

end Node

end Lowering
