import Mathlib.Data.List.Flatten
import Lowering.Proofs.Emit.Checks
import Lowering.Proofs.Emit.Names

/-!
# Whom a fault blames

The fault of a program has the span of one of its nodes, and that node breaks a rule of the kind of the fault. The rules
speak of the nodes and the vocabulary only; nothing of how programs are written is in them.

* `Node.Breaks` — the rules that a node can break by itself.
* `Node.Guilty` — these, and the ones that concern the tree as a whole.
* `fault_blames_guilty_node` — the theorem.
-/

namespace Lowering

-- ---------------------------------------------------------------------------
-- Rules
-- ---------------------------------------------------------------------------

namespace Node

/-- The node breaks a rule of the given kind where it stands, inside `depth` blocks and functions. The cause says which
rule, and names what is wrong. -/
inductive Breaks (depth : Nat) : Node → FaultKind → Cause → Prop where
  -- Words that mean nothing.
  | digits {digits : String} {suffix : Option String} {span : Span} (h : ¬ (NumberForm.binary digits).Spellable) :
      Breaks depth (.number (.binary digits) suffix span) .unknownConstruct (.invalidBinary digits)
  | suffix {form : NumberForm} {suffix : String} {span : Span} (h : Numeric.ofSuffix? suffix = none) :
      Breaks depth (.number form (some suffix) span) .unknownConstruct (.unknownSuffix suffix form.text)
  | unaryName {op : String} {operand : Node} {span : Span} (h : UnaryOp.ofName? op = none) :
      Breaks depth (.unaryOp op operand span) .unknownConstruct (.unknownOperator .unary op)
  | binaryName {op : String} {lhs rhs : Node} {span : Span} (h : BinaryOp.ofName? op = none) :
      Breaks depth (.binaryOp op lhs rhs span) .unknownConstruct (.unknownOperator .binary op)
  | ternaryName {op : String} {first second third : Node} {span : Span} (h : TernaryOp.ofName? op = none) :
      Breaks depth (.ternaryOp op first second third span) .unknownConstruct (.unknownOperator .ternary op)
  | variableType {visibility : Visibility} {mutability : Mutability} {vars : List TypedName} {values : List Node}
      {span : Span} {var : TypedName} {type : String} (hVar : var ∈ vars) (hType : var.type = some type)
      (h : ¬ KnownType type) :
      Breaks depth (.varDecl visibility mutability vars values span) .unknownConstruct (.unknownType type)
  | loopType {var : TypedName} {first : Node} {comparator : Option String} {last : Node} {step : Option Node}
      {body : Node} {span : Span} {type : String} (hType : var.type = some type) (h : ¬ KnownType type) :
      Breaks depth (.forNum var first comparator last step body span) .unknownConstruct (.unknownType type)
  | returnType {visibility : Visibility} {name : String} {params : List TypedName} {returns : List String} {body : Node}
      {span : Span} {type : String} (hType : type ∈ returns) (h : ¬ KnownType type) :
      Breaks depth (.funcDef visibility name params returns body span) .unknownConstruct (.unknownType type)
  | paramType {visibility : Visibility} {name : String} {params : List TypedName} {returns : List String} {body : Node}
      {span : Span} {param : TypedName} {type : String} (hParam : param ∈ params) (hType : param.type = some type)
      (h : ¬ KnownType type) :
      Breaks depth (.funcDef visibility name params returns body span) .unknownConstruct (.unknownType type)
  -- What has a meaning, but not in C.
  | unarySpelling {op : String} {operand : Node} {span : Span} {known : UnaryOp} (hName : UnaryOp.ofName? op = some known)
      (h : known.spelling? = none) :
      Breaks depth (.unaryOp op operand span) .unimplemented (.unwritableOperator .unary op)
  | binarySpelling {op : String} {lhs rhs : Node} {span : Span} {known : BinaryOp}
      (hName : BinaryOp.ofName? op = some known) (h : known.spelling? = none) :
      Breaks depth (.binaryOp op lhs rhs span) .unimplemented (.unwritableOperator .binary op)
  | ternarySpelling {op : String} {first second third : Node} {span : Span} {known : TernaryOp}
      (hName : TernaryOp.ofName? op = some known) (h : known.spelling? = none) :
      Breaks depth (.ternaryOp op first second third span) .unimplemented (.unwritableOperator .ternary op)
  | varargs {span : Span} : Breaks depth (.varargs span) .unimplemented .varargs
  | forIn {vars : List TypedName} {exprs : List Node} {body : Node} {span : Span} :
      Breaks depth (.forIn vars exprs body span) .unimplemented .forIn
  | comparator {var : TypedName} {first : Node} {comparator : String} {last : Node} {step : Option Node} {body : Node}
      {span : Span} (h : comparator ≠ "le") :
      Breaks depth (.forNum var first (some comparator) last step body span) .unimplemented (.loopComparator comparator)
  | untypedLoop {var : TypedName} {first : Node} {comparator : Option String} {last : Node} {step : Option Node}
      {body : Node} {span : Span} (hType : var.type = none) (h : first.isLiteral = false) :
      Breaks depth (.forNum var first comparator last step body span) .unimplemented (.untypedLoop var.name)
  | returnCount {values : List Node} {span : Span} (h : 1 < values.length) :
      Breaks depth (.ret values span) .unimplemented .multipleReturns
  | globalVariables {mutability : Mutability} {vars : List TypedName} {values : List Node} {span : Span} :
      Breaks depth (.varDecl .global mutability vars values span) .unimplemented .globalVariables
  | immutable {visibility : Visibility} {vars : List TypedName} {values : List Node} {span : Span} :
      Breaks depth (.varDecl visibility .immutable vars values span) .unimplemented .immutableDeclarations
  | untypedVariable {visibility : Visibility} {mutability : Mutability} {vars : List TypedName} {values : List Node}
      {span : Span} {i : Nat} {var : TypedName} (hVar : vars[i]? = some var) (hType : var.type = none)
      (h : ∀ value, values[i]? = some value → value.isLiteral = false) :
      Breaks depth (.varDecl visibility mutability vars values span) .unimplemented (.untypedVariable var.name)
  /-- A later target or value mentions the variable that `target` stores to. -/
  | readAfterStore {targets values : List Node} {span : Span} {before after : List Node} {target : Node} {root : String}
      (hTargets : targets = before ++ target :: after) (hRoot : Assignment.root? target = some root)
      (h : ∃ later ∈ after ++ values.drop (before.length + 1), Mentions root later) :
      Breaks depth (.assign targets values span) .unimplemented (.readAfterStore root)
  | globalFunction {name : String} {params : List TypedName} {returns : List String} {body : Node} {span : Span} :
      Breaks depth (.funcDef .global name params returns body span) .unimplemented .globalFunctions
  | nested {visibility : Visibility} {name : String} {params : List TypedName} {returns : List String} {body : Node}
      {span : Span} (h : depth ≠ 1) :
      Breaks depth (.funcDef visibility name params returns body span) .unimplemented .nestedFunctions
  | returnTypes {visibility : Visibility} {name : String} {params : List TypedName} {returns : List String} {body : Node}
      {span : Span} (h : 1 < returns.length) :
      Breaks depth (.funcDef visibility name params returns body span) .unimplemented .multipleReturns
  | untypedParam {visibility : Visibility} {name : String} {params : List TypedName} {returns : List String} {body : Node}
      {span : Span} {param : TypedName} (hParam : param ∈ params) (hType : param.type = none) :
      Breaks depth (.funcDef visibility name params returns body span) .unimplemented (.untypedParameter param.name)
  -- Arguments, counts and branches.
  | unprintable {n : Node} {args : List Node} {i : Nat} {arg : Node} (hArgs : n.printArgs? = some args)
      (hArg : args[i]? = some arg) (hString : arg.tag ≠ .string) (hNumber : arg.tag ≠ .number) :
      Breaks depth n .unsupportedArgument (.unprintable (i + 1) arg.tag)
  | declarationCount {visibility : Visibility} {mutability : Mutability} {vars : List TypedName} {values : List Node}
      {span : Span} (hValues : values ≠ []) (h : values.length ≠ vars.length) :
      Breaks depth (.varDecl visibility mutability vars values span) .arityMismatch
        (.declarationCount vars.length values.length)
  | assignmentCount {targets values : List Node} {span : Span} (h : targets.length ≠ values.length) :
      Breaks depth (.assign targets values span) .arityMismatch (.assignmentCount targets.length values.length)
  | noBranches {otherwise : Option Node} {span : Span} : Breaks depth (.cond [] otherwise span) .internal .noBranches

/-- The node of the tree breaks a rule of the given kind: one by itself, or one that concerns the whole tree. -/
inductive Guilty (root : Node) : Node → FaultKind → Cause → Prop where
  | breaks {depth : Nat} {n : Node} {kind : FaultKind} {cause : Cause} (hMem : (depth, n) ∈ root.census 0)
      (h : n.Breaks depth kind cause) : Guilty root n kind cause
  /-- Only a block is a program. -/
  | rootNotBlock (h : root.tag ≠ .block) : Guilty root root .unknownConstruct (.rootNotBlock root.tag)
  /-- The later of two strings that start at the same place. -/
  | sharedString {earlier later : Node} {start : Nat} (hOrder : [earlier, later].Sublist root.nodes)
      (hEarlier : earlier.stringStart? = some start) (hLater : later.stringStart? = some start) :
      Guilty root later .internal (.symbolTaken (stringName start) earlier.span)
  /-- The later of two print calls that start at the same place. -/
  | sharedPrint {earlier later : Node} {start : Nat} (hOrder : [earlier, later].Sublist root.nodes)
      (hEarlier : earlier.printStart? = some start) (hLater : later.printStart? = some start) :
      Guilty root later .internal (.symbolTaken (printName start) earlier.span)

-- ---------------------------------------------------------------------------
-- Refusals
-- ---------------------------------------------------------------------------

/-- The fault has the span of a node of the tree that breaks a rule by itself. -/
def Blamed (depth : Nat) (n : Node) (fault : Fault) : Prop :=
  ∃ e ∈ n.census depth, e.2.span = fault.span ∧ e.2.Breaks e.1 fault.cause.kind fault.cause

variable {depth : Nat} {n : Node} {fault : Fault}

theorem blamed_self {cause : Cause} (h : n.Breaks depth cause.kind cause) : n.Blamed depth ⟨n.span, cause⟩ := by
  refine ⟨(depth, n), ?_, rfl, h⟩
  rw [census_eq]
  exact List.mem_cons_self ..

theorem blamed_of_child {c : Node} (hc : c ∈ n.children) (h : c.Blamed (depth + n.ownScopes) fault) :
    n.Blamed depth fault := by
  obtain ⟨e, he, hFault⟩ := h
  refine ⟨e, ?_, hFault⟩
  rw [census_eq]
  exact List.mem_cons_of_mem _ (List.mem_flatMap.mpr ⟨c, hc, he⟩)

/-- Each of the checks refuses for a reason. -/
def Licensed (cs : List Check) (P : Fault → Prop) : Prop :=
  ∀ fault, .refuse fault ∈ cs → P fault

section Licenses

variable {P : Fault → Prop} {cs cs' : List Check}

theorem licensed_nil : Licensed [] P :=
  fun _ h => absurd h List.not_mem_nil

theorem Licensed.append (h : Licensed cs P) (h' : Licensed cs' P) : Licensed (cs ++ cs') P :=
  fun fault hMem => (List.mem_append.mp hMem).elim (h fault) (h' fault)

theorem licensed_flatMap {α : Type} {l : List α} {F : α → List Check} (h : ∀ a ∈ l, Licensed (F a) P) :
    Licensed (l.flatMap F) P := by
  intro fault hMem
  obtain ⟨a, ha, hRefused⟩ := List.mem_flatMap.mp hMem
  exact h a ha fault hRefused

theorem licensed_refuse {fault : Fault} (h : P fault) : Licensed [.refuse fault] P := by
  intro fault' hMem
  obtain rfl := Check.refuse.inj (List.mem_singleton.mp hMem)
  exact h

theorem licensed_refuseIf {c : Prop} [Decidable c] {span : Span} {cause : Cause} (h : c → P ⟨span, cause⟩) :
    Licensed (Check.refuseIf c span cause) P := by
  unfold Check.refuseIf
  split
  · rename_i hHolds
    exact licensed_refuse (h hHolds)
  · exact licensed_nil

theorem licensed_elim {α : Type} {o : Option α} {F : α → List Check} (h : ∀ a, o = some a → Licensed (F a) P) :
    Licensed (o.elim [] F) P := by
  cases o with
  | none => exact licensed_nil
  | some a => exact h a rfl

end Licenses

/-- A number that cannot be resolved has bad digits or a bad suffix. -/
theorem breaks_of_resolveNumber {form : NumberForm} {suffix : Option String} {cause : Cause}
    (h : resolveNumber form suffix = .error cause) (span : Span) :
    (Node.number form suffix span).Breaks depth cause.kind cause := by
  unfold resolveNumber at h
  cases hSpelling : form.spelling with
  | error spelled =>
    rw [hSpelling] at h
    obtain rfl := Except.error.inj h
    have hNot : ¬ form.Spellable := by
      rw [← NumberForm.spelling_ok_iff, hSpelling]
      simp
    cases form with
    | binary digits =>
      rw [NumberForm.spelling] at hSpelling
      split at hSpelling
      · cases hSpelling
      · obtain rfl := Except.error.inj hSpelling
        exact .digits hNot
    | integer | decimal | scientific | hex => cases hSpelling
  | ok spelling =>
    rw [hSpelling] at h
    cases suffix with
    | none => cases h
    | some suffix =>
      cases hSuffix : Numeric.ofSuffix? suffix with
      | none =>
        simp only [hSuffix] at h
        obtain rfl := Except.error.inj h
        exact .suffix hSuffix
      | some type =>
        simp only [hSuffix] at h
        cases h

theorem licensed_number (form : NumberForm) (suffix : Option String) (span : Span) :
    Licensed (numberChecks form suffix span) (Blamed depth (.number form suffix span)) := by
  unfold numberChecks
  cases hNumber : resolveNumber form suffix with
  | ok m => exact licensed_nil
  | error cause => exact licensed_refuse (blamed_self (breaks_of_resolveNumber hNumber span))

theorem licensed_type {P : Fault → Prop} {type : String} {span : Span}
    (h : ¬ KnownType type → P ⟨span, .unknownType type⟩) : Licensed (typeChecks type span) P :=
  licensed_refuseIf fun hNone => h (by rw [KnownType, hNone]; simp)

/-- A literal whose type is asked for is blamed as a number would be. -/
theorem licensed_literal (n : Node) : Licensed (literalChecks n) (n.Blamed depth) := by
  induction n using childInduction with
  | step n ih =>
    cases n
    case number form suffix span => exact licensed_number form suffix span
    case paren inner span =>
      exact fun fault hMem => blamed_of_child (by simp [children]) (ih inner (by simp [children]) fault hMem)
    all_goals exact licensed_nil

theorem licensed_variable {P : Fault → Prop} {untyped : String → Cause} {span : Span} {var : TypedName}
    {value : Option Node} (hType : ∀ type, var.type = some type → ¬ KnownType type → P ⟨span, .unknownType type⟩)
    (hUntyped : var.type = none → (∀ v, value = some v → v.isLiteral = false) → P ⟨span, untyped var.name⟩)
    (hValue : ∀ v, value = some v → Licensed (literalChecks v) P) :
    Licensed (variableChecks untyped span var value) P := by
  unfold variableChecks
  cases hVar : var.type with
  | some type => exact licensed_type (hType type hVar)
  | none =>
    refine (licensed_elim hValue).append (licensed_refuseIf fun hNone => hUntyped hVar fun v hv => ?_)
    rwa [hv] at hNone

theorem licensed_operator {κ μ : Type} {P : Fault → Prop} {arity : Arity} {op : String} {known : Option κ}
    {spelling? : κ → Option μ} {span : Span} (hName : known = none → P ⟨span, .unknownOperator arity op⟩)
    (hSpelling : ∀ k, known = some k → spelling? k = none → P ⟨span, .unwritableOperator arity op⟩) :
    Licensed (operatorChecks arity op known spelling? span) P :=
  (licensed_refuseIf hName).append (licensed_elim fun k hk => licensed_refuseIf (hSpelling k hk))

theorem licensed_slots {P : Fault → Prop} {call : Span} {index : Nat} {args : List Node}
    (hNumber : ∀ arg ∈ args, ∀ form suffix span, arg = .number form suffix span →
      Licensed (numberChecks form suffix span) P)
    (hOther : ∀ i arg, args[i]? = some arg → arg.tag ≠ .string → arg.tag ≠ .number →
      P ⟨call, .unprintable (index + i) arg.tag⟩) :
    Licensed (slotsChecks call index args) P := by
  induction args generalizing index with
  | nil => exact licensed_nil
  | cons arg rest ih =>
    rw [slotsChecks]
    refine Licensed.append ?_ (ih (fun a ha => hNumber a (List.mem_cons_of_mem _ ha)) fun i a ha hs hn => ?_)
    · have hHere := hOther 0 arg rfl
      cases arg with
      | string value span => exact licensed_nil
      | number form suffix span => exact hNumber _ (List.mem_cons_self ..) form suffix span rfl
      | _ => exact licensed_refuse (hHere (by simp [tag]) (by simp [tag]))
    · have hThere := hOther (i + 1) a ha hs hn
      rwa [Nat.add_comm i 1, ← Nat.add_assoc] at hThere

/-- The search for a variable that is read after a store finds one. -/
theorem exists_readAfterStore {targets values : List Node} {root : String}
    (h : Assignment.readAfterStore? targets values = some root) :
    ∃ (before : List Node) (target : Node) (after : List Node), targets = before ++ target :: after ∧
      Assignment.root? target = some root ∧ ∃ later ∈ after ++ values.drop (before.length + 1), Mentions root later := by
  induction targets generalizing values with
  | nil => simp [Assignment.readAfterStore?] at h
  | cons t ts ih =>
    cases values with
    | nil => simp [Assignment.readAfterStore?] at h
    | cons v vs =>
      rw [Assignment.readAfterStore?] at h
      cases hFilter : (Assignment.root? t).filter fun root => Assignment.anyReads root (ts ++ vs) with
      | some found =>
        rw [hFilter] at h
        obtain rfl := Option.some.inj h
        obtain ⟨hRoot, hReads⟩ := Option.filter_eq_some_iff.mp hFilter
        obtain ⟨m, hm, hReads⟩ := anyReads_iff.mp hReads
        exact ⟨[], t, ts, rfl, hRoot, m, hm, (reads_iff_mentions m).mp hReads⟩
      | none =>
        rw [hFilter] at h
        obtain ⟨before, target, after, rfl, hRoot, hLater⟩ := ih h
        exact ⟨t :: before, target, after, rfl, hRoot, hLater⟩

theorem licensed_params {visibility : Visibility} {name : String} {params : List TypedName} {returns : List String}
    {body : Node} {span : Span} :
    Licensed (params.flatMap (paramChecks span)) (Blamed depth (.funcDef visibility name params returns body span)) := by
  refine licensed_flatMap fun param hParam => ?_
  refine Licensed.append ?_ ?_
  · exact licensed_refuseIf fun hType => blamed_self (.untypedParam hParam hType)
  · exact licensed_elim fun type hType => licensed_type fun h => blamed_self (.paramType hParam hType h)

theorem licensed_returns {visibility : Visibility} {name : String} {params : List TypedName} {returns : List String}
    {body : Node} {span : Span} :
    Licensed (returnChecks returns span) (Blamed depth (.funcDef visibility name params returns body span)) := by
  match returns with
  | [] => exact licensed_nil
  | [type] => exact licensed_type fun h => blamed_self (.returnType (List.mem_singleton_self type) h)
  | _ :: _ :: _ => exact licensed_refuse (blamed_self (.returnTypes (by simp)))

/-- What a node refuses before anything below it is written. -/
theorem licensed_ownChecks (n : Node) : Licensed (n.ownChecks depth) (n.Blamed depth) := by
  cases n
  case number form suffix span => exact licensed_number form suffix span
  case varargs span => exact licensed_refuse (blamed_self .varargs)
  case call callee args span =>
    rw [ownChecks]
    split
    · rename_i hPrint
      have hArgs : printArgs? (.call callee args span) = some args := by rw [printArgs?_call, if_pos hPrint]
      have hSlots : Licensed (slotsChecks span 1 args) (Blamed depth (.call callee args span)) := by
        refine licensed_slots (fun arg hArg form suffix argSpan hNumber fault hMem => ?_) fun i arg hArg hs hn => ?_
        · subst hNumber
          exact blamed_of_child (List.mem_cons_of_mem _ hArg) (licensed_number form suffix argSpan fault hMem)
        · rw [Nat.add_comm]
          exact blamed_self (.unprintable hArgs hArg hs hn)
      exact fun fault hMem => hSlots fault (by simpa using hMem)
    · exact licensed_nil
  case unaryOp op operand span =>
    exact licensed_operator (fun h => blamed_self (.unaryName h)) fun k hk h => blamed_self (.unarySpelling hk h)
  case binaryOp op lhs rhs span =>
    exact licensed_operator (fun h => blamed_self (.binaryName h)) fun k hk h => blamed_self (.binarySpelling hk h)
  case ternaryOp op first second third span =>
    exact licensed_operator (fun h => blamed_self (.ternaryName h)) fun k hk h => blamed_self (.ternarySpelling hk h)
  case ret values span => exact licensed_refuseIf fun h => blamed_self (.returnCount h)
  case cond branches otherwise span =>
    refine licensed_refuseIf fun h => ?_
    obtain rfl := List.length_eq_zero_iff.mp h
    exact blamed_self .noBranches
  case forNum var first comparator last step body span =>
    refine (licensed_elim fun c hc => licensed_refuseIf fun h => ?_).append (licensed_variable ?_ ?_ ?_)
    · subst hc
      refine blamed_self (.comparator fun hEq => ?_)
      rw [(isInclusive_iff c).mpr hEq] at h
      cases h
    · exact fun type hType h => blamed_self (.loopType hType h)
    · exact fun hType h => blamed_self (.untypedLoop hType (h first rfl))
    · intro v hv fault hMem
      obtain rfl := Option.some.inj hv
      exact blamed_of_child (by simp [children]) (licensed_literal first fault hMem)
  case forIn vars exprs body span => exact licensed_refuse (blamed_self .forIn)
  case varDecl visibility mutability vars values span =>
    refine ((licensed_refuseIf fun h => ?_).append (licensed_refuseIf fun h => ?_)).append (licensed_refuseIf fun h => ?_)
    · subst h
      exact blamed_self .globalVariables
    · cases mutability with
      | immutable => exact blamed_self .immutable
      | mutable | constant => cases h
    · exact blamed_self (.declarationCount h.1 h.2)
  case assign targets values span =>
    refine Licensed.append ?_ (licensed_elim fun root hRoot => ?_)
    · exact licensed_refuseIf fun h => blamed_self (.assignmentCount h)
    obtain ⟨before, target, after, hTargets, hTarget, hLater⟩ := exists_readAfterStore hRoot
    exact licensed_refuse (blamed_self (.readAfterStore hTargets hTarget hLater))
  case funcDef visibility name params returns body span =>
    refine (((licensed_refuseIf fun h => ?_).append (licensed_refuseIf fun h => ?_)).append licensed_returns).append
      licensed_params
    · subst h
      exact blamed_self .globalFunction
    · exact blamed_self (.nested h)
  case string value span => exact fun fault hMem => by simp [ownChecks] at hMem
  all_goals exact licensed_nil

/-- What a declaration refuses for the sake of its variables. -/
theorem licensed_declarationSteps {P : Fault → Prop} {span : Span} {vars : List TypedName} {values : List Node}
    (hType : ∀ var ∈ vars, ∀ type, var.type = some type → ¬ KnownType type → P ⟨span, .unknownType type⟩)
    (hUntyped : ∀ (i : Nat) (var : TypedName), vars[i]? = some var → var.type = none →
      (∀ value, values[i]? = some value → value.isLiteral = false) → P ⟨span, .untypedVariable var.name⟩)
    (hValue : ∀ v ∈ values, Licensed (literalChecks v) P) :
    ∀ fault, .inl (.refuse fault) ∈ declarationSteps span vars values → P fault := by
  induction vars generalizing values with
  | nil => simp [declarationSteps]
  | cons var vars ih =>
    intro fault hMem
    have hFirst : Licensed (variableChecks .untypedVariable span var values[0]?) P :=
      licensed_variable (hType var (List.mem_cons_self ..)) (hUntyped 0 var rfl)
        fun v hv => hValue v (List.mem_of_getElem? hv)
    have hRest : ∀ fault, .inl (.refuse fault) ∈ declarationSteps span vars values.tail → P fault :=
      ih (fun v hv => hType v (List.mem_cons_of_mem _ hv)) (fun i v hv => by simpa using hUntyped (i + 1) v hv)
        fun v hv => hValue v (List.mem_of_mem_tail hv)
    cases values with
    | nil =>
      rw [declarationSteps, List.mem_append] at hMem
      rcases hMem with hMem | hMem
      · exact hFirst fault (by simpa using hMem)
      · exact hRest fault hMem
    | cons value values =>
      rw [declarationSteps, List.mem_append, List.mem_cons] at hMem
      rcases hMem with hMem | hMem | hMem
      · exact hFirst fault (by simpa using hMem)
      · cases hMem
      · exact hRest fault hMem

/-- What a node refuses at any time. -/
theorem blamed_of_mem_steps (h : .inl (.refuse fault) ∈ n.steps depth) : n.Blamed depth fault := by
  unfold steps at h
  rcases List.mem_append.mp h with h | h
  · exact licensed_ownChecks n fault (by simpa using h)
  · split at h
    · rename_i visibility mutability vars values span
      refine licensed_declarationSteps ?_ ?_ ?_ fault h
      · exact fun var hVar type hType hUnknown => blamed_self (.variableType hVar hType hUnknown)
      · exact fun i var hVar hType hLiteral => blamed_self (.untypedVariable hVar hType hLiteral)
      · exact fun v hv fault hMem => blamed_of_child hv (licensed_literal v fault hMem)
    · simp at h

/-- Whatever is refused while a tree is written is refused because of one of its nodes. -/
theorem blamed_of_mem_checks (h : .refuse fault ∈ n.checks depth) : n.Blamed depth fault := by
  induction n using childInduction generalizing depth with
  | step n ih =>
    rw [checks_eq] at h
    obtain ⟨s, hs, hMem⟩ := List.mem_flatMap.mp h
    cases s with
    | inl c =>
      obtain rfl := List.mem_singleton.mp hMem
      exact blamed_of_mem_steps hs
    | inr m =>
      have hChild := mem_children_of_inr_mem_steps hs
      exact blamed_of_child hChild (ih m hChild hMem)

-- ---------------------------------------------------------------------------
-- Names
-- ---------------------------------------------------------------------------

/-- The generated name that a node needs, with the node as its owner. -/
def symbol? (n : Node) : Option (String × Span) :=
  n.symbolName?.map (·, n.span)

@[simp]
theorem reserved_refuseIf (c : Prop) [Decidable c] (span : Span) (cause : Cause) :
    Check.reserved (Check.refuseIf c span cause) = [] := by
  unfold Check.refuseIf
  split <;> rfl

@[simp]
theorem reserved_number (form : NumberForm) (suffix : Option String) (span : Span) :
    Check.reserved (numberChecks form suffix span) = [] := by
  unfold numberChecks
  split <;> rfl

@[simp]
theorem reserved_type (type : String) (span : Span) : Check.reserved (typeChecks type span) = [] :=
  reserved_refuseIf ..

theorem reserved_elim {α : Type} (o : Option α) {F : α → List Check} (h : ∀ a, Check.reserved (F a) = []) :
    Check.reserved (o.elim [] F) = [] := by
  cases o with
  | none => rfl
  | some a => exact h a

theorem reserved_literal (n : Node) : Check.reserved (literalChecks n) = [] := by
  induction n using childInduction with
  | step n ih =>
    cases n
    case number form suffix span => exact reserved_number form suffix span
    case paren inner span => exact ih inner (by simp [children])
    all_goals rfl

@[simp]
theorem reserved_variable (untyped : String → Cause) (span : Span) (var : TypedName) (value : Option Node) :
    Check.reserved (variableChecks untyped span var value) = [] := by
  unfold variableChecks
  split
  · exact reserved_type _ span
  · rw [Check.reserved_append, reserved_elim value reserved_literal, reserved_refuseIf, List.append_nil]

theorem reserved_slots (call : Span) (index : Nat) (args : List Node) :
    Check.reserved (slotsChecks call index args) = [] := by
  induction args generalizing index with
  | nil => rfl
  | cons arg rest ih =>
    rw [slotsChecks, Check.reserved_append, ih, List.append_nil]
    cases arg <;> first | rfl | exact reserved_number ..

theorem reserved_params (span : Span) (params : List TypedName) :
    Check.reserved (params.flatMap (paramChecks span)) = [] := by
  rw [Check.reserved, List.filterMap_flatMap, List.flatMap_eq_nil_iff]
  intro p _
  refine (Check.reserved_append ..).trans ?_
  rw [reserved_refuseIf, reserved_elim _ fun type => reserved_type type span, List.append_nil]

theorem reserved_returns (returns : List String) (span : Span) : Check.reserved (returnChecks returns span) = [] := by
  unfold returnChecks
  split
  · rfl
  · exact reserved_type _ span
  · rfl

/-- Only strings and print calls ask for a name, and they do so first of all. -/
theorem reserved_ownChecks (n : Node) : Check.reserved (n.ownChecks depth) = n.symbol?.toList := by
  cases n
  case call callee args span =>
    rw [ownChecks]
    split
    · rename_i hPrint
      rw [symbol?, symbolName?_print hPrint]
      exact congrArg (_ :: ·) (reserved_slots span 1 args)
    · rename_i hPrint
      rw [symbol?, symbolName?, printStart?, printArgs?_call, if_neg hPrint]
      rfl
  case number form suffix span => exact reserved_number form suffix span
  case unaryOp | binaryOp | ternaryOp =>
    all_goals
      refine (Check.reserved_append ..).trans ?_
      rw [reserved_refuseIf, reserved_elim _ fun k => reserved_refuseIf .., List.append_nil]
      rfl
  case ret | cond => all_goals exact reserved_refuseIf ..
  case forNum =>
    refine (Check.reserved_append ..).trans ?_
    rw [reserved_elim _ fun c => reserved_refuseIf .., reserved_variable, List.append_nil]
    rfl
  case varDecl =>
    rw [ownChecks]
    simp only [Check.reserved_append, reserved_refuseIf]
    rfl
  case assign targets values span =>
    refine (Check.reserved_append ..).trans ?_
    rw [reserved_refuseIf, reserved_elim _ fun root => rfl, List.append_nil]
    rfl
  case funcDef =>
    rw [ownChecks]
    simp only [Check.reserved_append, reserved_refuseIf, reserved_returns, reserved_params]
    rfl
  all_goals rfl

theorem reserved_flatMap {α : Type} (l : List α) (F : α → List Check) :
    Check.reserved (l.flatMap F) = l.flatMap fun a => Check.reserved (F a) :=
  List.filterMap_flatMap

theorem reserved_declarationSteps {F : Node → List Check} (span : Span) (vars : List TypedName) (values : List Node) :
    (Check.reserved ((declarationSteps span vars values).flatMap (stepChecks F))).Sublist
      (values.flatMap fun v => Check.reserved (F v)) := by
  induction vars generalizing values with
  | nil => exact List.nil_sublist _
  | cons var vars ih =>
    cases values with
    | nil =>
      rw [declarationSteps, List.flatMap_append, flatMap_stepChecks_inl, Check.reserved_append, reserved_variable]
      exact ih []
    | cons value values =>
      rw [declarationSteps, List.flatMap_append, flatMap_stepChecks_inl, Check.reserved_append, reserved_variable,
        List.nil_append, List.flatMap_cons, Check.reserved_append, List.flatMap_cons]
      exact (List.Sublist.refl _).append (ih values)

/-- Names are asked for in the order of the nodes. -/
theorem reserved_checks (n : Node) (depth : Nat) :
    (Check.reserved (n.checks depth)).Sublist (n.nodes.filterMap symbol?) := by
  induction n using childInduction generalizing depth with
  | step n ih =>
    have hOwn : n.nodes.filterMap symbol? = n.symbol?.toList ++ n.children.flatMap fun c => c.nodes.filterMap symbol? := by
      rw [nodes_eq, List.filterMap_cons, List.filterMap_flatMap]
      cases n.symbol? <;> rfl
    have hBelow : (n.children.flatMap fun c => Check.reserved (c.checks (depth + n.ownScopes))).Sublist
        (n.children.flatMap fun c => c.nodes.filterMap symbol?) :=
      List.Sublist.flatMap_right _ fun c hc => ih c hc _
    rw [checks_eq, hOwn]
    by_cases hTag : n.tag = .varDecl
    · cases n <;> simp only [tag, reduceCtorEq] at hTag
      rename_i visibility mutability vars values span
      rw [steps, List.flatMap_append, flatMap_stepChecks_inl, Check.reserved_append, reserved_ownChecks]
      exact (List.Sublist.refl _).append ((reserved_declarationSteps span vars values).trans hBelow)
    · rw [steps_eq hTag, flatMap_stepChecks, Check.reserved_append, reserved_ownChecks, reserved_flatMap]
      exact (List.Sublist.refl _).append hBelow

theorem symbol?_eq_some {name : String} {owner : Span} (h : n.symbol? = some (name, owner)) :
    n.span = owner ∧ ((∃ start, n.stringStart? = some start ∧ name = stringName start) ∨
      ∃ start, n.printStart? = some start ∧ name = printName start) := by
  obtain ⟨found, hName, hPair⟩ := Option.map_eq_some_iff.mp h
  obtain ⟨rfl, rfl⟩ := Prod.mk.inj hPair
  refine ⟨rfl, ?_⟩
  rw [symbolName?, Option.or_eq_some_iff] at hName
  rcases hName with hString | ⟨-, hPrint⟩
  · obtain ⟨start, hStart, rfl⟩ := Option.map_eq_some_iff.mp hString
    exact Or.inl ⟨start, hStart, rfl⟩
  · obtain ⟨start, hStart, rfl⟩ := Option.map_eq_some_iff.mp hPrint
    exact Or.inr ⟨start, hStart, rfl⟩

/-- Two nodes that need the same name are two strings or two print calls that start at the same place. -/
theorem guilty_of_symbols {root earlier later : Node} {name : String} {first owner : Span}
    (hOrder : [earlier, later].Sublist root.nodes) (hEarlier : earlier.symbol? = some (name, first))
    (hLater : later.symbol? = some (name, owner)) :
    later.span = owner ∧ root.Guilty later .internal (.symbolTaken name first) := by
  obtain ⟨rfl, hFirst⟩ := symbol?_eq_some hEarlier
  obtain ⟨rfl, hSecond⟩ := symbol?_eq_some hLater
  refine ⟨rfl, ?_⟩
  rcases hFirst with ⟨a, ha, rfl⟩ | ⟨a, ha, rfl⟩ <;> rcases hSecond with ⟨b, hb, hName⟩ | ⟨b, hb, hName⟩
  · obtain rfl := stringName_inj.mp hName
    exact .sharedString hOrder ha hb
  · exact absurd hName (stringName_ne_printName a b)
  · exact absurd hName.symm (stringName_ne_printName b a)
  · obtain rfl := printName_inj.mp hName
    exact .sharedPrint hOrder ha hb

/-- What is read off two members of a list is read off in their order. -/
theorem exists_sublist_of_filterMap {α β : Type} {f : α → Option β} {l : List α} {x y : β}
    (h : [x, y].Sublist (l.filterMap f)) : ∃ a b, [a, b].Sublist l ∧ f a = some x ∧ f b = some y := by
  obtain ⟨l', hSublist, hRead⟩ := List.sublist_filterMap_iff.mp h
  obtain ⟨before, a, rest, rfl, -, ha, hRest⟩ := List.filterMap_eq_cons_iff.mp hRead.symm
  obtain ⟨between, b, after, rfl, -, hb, -⟩ := List.filterMap_eq_cons_iff.mp hRest
  refine ⟨a, b, List.Sublist.trans ?_ hSublist, ha, hb⟩
  refine (List.Sublist.cons_cons a ?_).trans (List.sublist_append_right before _)
  exact (List.singleton_sublist.mpr (List.mem_cons_self ..)).trans (List.sublist_append_right between _)

/-- The fault that the checks of a tree end in. -/
theorem guilty_of_fault? {root : Node} (h : Check.fault? [] (root.checks 0) = some fault) :
    ∃ n ∈ root.nodes, n.span = fault.span ∧ root.Guilty n fault.cause.kind fault.cause := by
  rcases Check.fault?_eq_some h with hRefused | ⟨name, first, hCause, ⟨hGiven, -⟩ | hReserved⟩
  · obtain ⟨⟨depth, n⟩, hMem, hSpan, hBreaks⟩ := blamed_of_mem_checks hRefused
    exact ⟨n, List.mem_map_of_mem hMem, hSpan, .breaks hMem hBreaks⟩
  · cases hGiven
  · obtain ⟨earlier, later, hOrder, hEarlier, hLater⟩ :=
      exists_sublist_of_filterMap (hReserved.trans (root.reserved_checks 0))
    obtain ⟨hSpan, hGuilty⟩ := guilty_of_symbols hOrder hEarlier hLater
    refine ⟨later, hOrder.subset (by simp), hSpan, ?_⟩
    rw [hCause]
    exact hGuilty

end Node

/-- **Blame.** The fault of a program has the span of one of its nodes, and this node breaks a rule of the kind of the
fault. -/
theorem fault_blames_guilty_node (width : Nat) {root : Node} {fault : Fault}
    (h : (generate { width } root).result = .error fault) :
    ∃ n ∈ root.nodes, n.span = fault.span ∧ root.Guilty n fault.cause.kind fault.cause := by
  have hFault := generate_eq_error_iff.mp h
  rw [Node.fault?] at hFault
  by_cases hBlock : root.tag ≠ .block
  · rw [if_pos hBlock] at hFault
    obtain rfl := Option.some.inj hFault
    exact ⟨root, root.self_mem_nodes, rfl, .rootNotBlock hBlock⟩
  · rw [if_neg hBlock] at hFault
    exact Node.guilty_of_fault? hFault

/-- The type of the variable is asked of a number in parentheses, and the number is blamed. -/
theorem fault_blames_guilty_node_digits :
    let number : Node := .number (.binary "12") none ⟨9, 13⟩
    let root : Node := .block [.varDecl .scoped .mutable [⟨"x", none⟩] [.paren number ⟨8, 14⟩] ⟨0, 14⟩] ⟨0, 14⟩
    (generate { width := 2 } root).result = .error ⟨⟨9, 13⟩, .invalidBinary "12"⟩ ∧
      ∃ n ∈ root.nodes, n.span = ⟨9, 13⟩ ∧ root.Guilty n .unknownConstruct (.invalidBinary "12") := by
  intro number root
  have hFault : (generate { width := 2 } root).result = .error ⟨⟨9, 13⟩, .invalidBinary "12"⟩ := rfl
  exact ⟨hFault, fault_blames_guilty_node 2 hFault⟩

end Lowering
