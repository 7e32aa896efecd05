import Lowering.Emit.Program
import Lowering.Proofs.Draft.Check
import Lowering.Proofs.Emit.Visit

/-!
# What can stop the writing of a tree

The checks that are made while a tree is written, as data. Most nodes make all their checks before anything below them is
written. Only a declaration asks for the type of each variable right before the value of that variable is written, so the
steps of a node are a list of checks and nodes.

No check looks at the text that has been written, nor at the width of the indentation.

* `Node.checks` — the checks of a tree, in the order in which they are made.
* `Node.visit_checks` — a tree cannot be written exactly if these checks end in a fault, and this is then its fault.
* `generate_eq_error_iff` — the same of a program.
-/

namespace Lowering

open Gen

-- ---------------------------------------------------------------------------
-- The checks of a construct
-- ---------------------------------------------------------------------------

/-- The checks on a number. -/
def numberChecks (form : NumberForm) (suffix : Option String) (span : Span) : List Check :=
  match resolveNumber form suffix with
  | .ok _ => []
  | .error cause => [.refuse ⟨span, cause⟩]

/-- The check on the name of a type. -/
def typeChecks (name : String) (span : Span) : List Check :=
  Check.refuseIf (Target.primitiveTypes.find? name = none) span (.unknownType name)

/-- The checks on an expression whose type is asked for. -/
def literalChecks : Node → List Check
  | .number form suffix span => numberChecks form suffix span
  | .paren inner _ => literalChecks inner
  | _ => []

/-- The checks on the type of a variable: the one it is given, or that of its value. -/
def variableChecks (untyped : String → Cause) (span : Span) (var : TypedName) (value : Option Node) : List Check :=
  match var.type with
  | some type => typeChecks type span
  | none =>
    value.elim [] literalChecks ++ Check.refuseIf (value.any Node.isLiteral = false) span (untyped var.name)

/-- The checks on an operator: its name must be known, and C must have it. -/
def operatorChecks {κ μ : Type} (arity : Arity) (op : String) (known : Option κ) (spelling? : κ → Option μ)
    (span : Span) : List Check :=
  Check.refuseIf (known = none) span (.unknownOperator arity op) ++
    known.elim [] fun k => Check.refuseIf (spelling? k = none) span (.unwritableOperator arity op)

/-- The checks on one argument of a print call. -/
def slotChecks (call : Span) (index : Nat) : Node → List Check
  | .string .. => []
  | .number form suffix span => numberChecks form suffix span
  | other => [.refuse ⟨call, .unprintable index other.tag⟩]

/-- The checks on the arguments of a print call from a given index on. -/
def slotsChecks (call : Span) : Nat → List Node → List Check
  | _, [] => []
  | index, arg :: rest => slotChecks call index arg ++ slotsChecks call (index + 1) rest

/-- The checks on the types that a function returns. -/
def returnChecks (returns : List String) (span : Span) : List Check :=
  match returns with
  | [] => []
  | [type] => typeChecks type span
  | _ => [.refuse ⟨span, .multipleReturns⟩]

/-- The checks on a parameter of a function. -/
def paramChecks (span : Span) (p : TypedName) : List Check :=
  Check.refuseIf (p.type = none) span (.untypedParameter p.name) ++ p.type.elim [] fun type => typeChecks type span

/-- The steps of the variables of a declaration, each with its value as long as there are values. -/
def declarationSteps (span : Span) : List TypedName → List Node → List (Check ⊕ Node)
  | [], _ => []
  | var :: vars, [] =>
    (variableChecks .untypedVariable span var none).map .inl ++ declarationSteps span vars []
  | var :: vars, value :: values =>
    (variableChecks .untypedVariable span var (some value)).map .inl ++ .inr value :: declarationSteps span vars values

namespace Node

/-- The checks that a node makes before anything below it is written, inside `depth` blocks and functions. -/
def ownChecks (depth : Nat) : Node → List Check
  | .number form suffix span => numberChecks form suffix span
  | .string _ span => [.reserve (Literal.recordName span) span]
  | .varargs span => [.refuse ⟨span, .varargs⟩]
  | .call callee args span =>
    if Expression.intrinsic? callee = some .print then
      .reserve (Print.helperName span) span :: slotsChecks span 1 args
    else []
  | .unaryOp op _ span => operatorChecks .unary op (UnaryOp.ofName? op) UnaryOp.spelling? span
  | .binaryOp op _ _ span => operatorChecks .binary op (BinaryOp.ofName? op) BinaryOp.spelling? span
  | .ternaryOp op _ _ _ span => operatorChecks .ternary op (TernaryOp.ofName? op) TernaryOp.spelling? span
  | .ret values span => Check.refuseIf (1 < values.length) span .multipleReturns
  | .cond branches _ span => Check.refuseIf (branches.length = 0) span .noBranches
  | .forNum var first comparator _ _ _ span =>
    comparator.elim [] (fun c => Check.refuseIf (Loop.isInclusive c = false) span (.loopComparator c)) ++
      variableChecks .untypedLoop span var (some first)
  | .forIn _ _ _ span => [.refuse ⟨span, .forIn⟩]
  | .varDecl visibility mutability vars values span =>
    Check.refuseIf (visibility = .global) span .globalVariables ++
      Check.refuseIf (Declaration.qualifier? mutability = none) span .immutableDeclarations ++
      Check.refuseIf (values ≠ [] ∧ values.length ≠ vars.length) span (.declarationCount vars.length values.length)
  | .assign targets values span =>
    Check.refuseIf (targets.length ≠ values.length) span (.assignmentCount targets.length values.length) ++
      (Assignment.readAfterStore? targets values).elim [] (fun root => [.refuse ⟨span, .readAfterStore root⟩])
  | .funcDef visibility _ params returns _ span =>
    Check.refuseIf (visibility = .global) span .globalFunctions ++ Check.refuseIf (depth ≠ 1) span .nestedFunctions ++
      returnChecks returns span ++ params.flatMap (paramChecks span)
  | _ => []

/-- What the writing of a node consists of: checks and the nodes directly below it. -/
def steps (depth : Nat) (n : Node) : List (Check ⊕ Node) :=
  (n.ownChecks depth).map .inl ++
    match n with
    | .varDecl _ _ vars values span => declarationSteps span vars values
    | n => n.children.map .inr

theorem mem_of_inr_mem_declarationSteps {m : Node} {span : Span} {vars : List TypedName} {values : List Node}
    (h : .inr m ∈ declarationSteps span vars values) : m ∈ values := by
  induction vars generalizing values with
  | nil => simp [declarationSteps] at h
  | cons var vars ih =>
    cases values with
    | nil =>
      simp only [declarationSteps, List.mem_append, List.mem_map, reduceCtorEq, and_false, exists_false, false_or] at h
      exact ih h
    | cons value values =>
      simp only [declarationSteps, List.mem_append, List.mem_map, reduceCtorEq, and_false, exists_false, false_or,
        List.mem_cons, Sum.inr.injEq] at h ⊢
      exact h.imp_right ih

theorem mem_children_of_inr_mem_steps {depth : Nat} {m n : Node} (h : .inr m ∈ n.steps depth) : m ∈ n.children := by
  simp only [steps, List.mem_append, List.mem_map, reduceCtorEq, and_false, exists_false, false_or] at h
  split at h
  · exact mem_of_inr_mem_declarationSteps h
  · simpa using h

/-- The checks that are made while a tree is written, inside `depth` blocks and functions. -/
def checks (depth : Nat) (n : Node) : List Check :=
  (n.steps depth).attach.flatMap fun s =>
    match s with
    | ⟨.inl c, _⟩ => [c]
    | ⟨.inr m, _⟩ => checks (depth + n.ownScopes) m
termination_by sizeOf n
decreasing_by
  rename_i h
  exact sizeOf_lt_of_mem_children (mem_children_of_inr_mem_steps h)

/-- The checks of steps, given those of the nodes among them. -/
def stepChecks (F : Node → List Check) (s : Check ⊕ Node) : List Check :=
  s.elim (fun c => [c]) F

theorem checks_eq (depth : Nat) (n : Node) :
    n.checks depth = (n.steps depth).flatMap (stepChecks (checks (depth + n.ownScopes))) := by
  rw [checks, List.flatMap_subtype (g := stepChecks (checks (depth + n.ownScopes))), List.unattach_attach]
  rintro (c | m) _ <;> rfl

theorem flatMap_stepChecks_inl (F : Node → List Check) (cs : List Check) :
    (cs.map Sum.inl).flatMap (stepChecks F) = cs := by
  simp [List.flatMap_map, stepChecks]

theorem flatMap_stepChecks (F : Node → List Check) (cs : List Check) (ns : List Node) :
    (cs.map Sum.inl ++ ns.map Sum.inr).flatMap (stepChecks F) = cs ++ ns.flatMap F := by
  rw [List.flatMap_append, flatMap_stepChecks_inl, List.flatMap_map]
  rfl

end Node

-- ---------------------------------------------------------------------------
-- Types and literals
-- ---------------------------------------------------------------------------

namespace Gen.Checks

variable {α : Type} {depth : Nat} {cs : List Check}

/-- The support code that the type table asks for exists, so only the name of a type can be wrong. -/
theorem cType (name : String) (span : Span) : Checks (cType name span) depth (typeChecks name span) := by
  refine look fun d hReady => ?_
  rw [hReady.types]
  rw [typeChecks, ← List.append_nil (Check.refuseIf ..)]
  refine orFail fun type hType => ?_
  have hSupport : ∀ name, type.support = some name → Checks (needSupportNamed name span) depth [] := by
    intro name hName
    obtain ⟨s, hs⟩ := support_known hType hName
    rw [needSupportNamed, hs]
    exact (pure s).first fun s => needSupport s
  cases hHeader : type.header <;> cases hName : type.support
  · exact pure _
  · exact (hSupport _ hName).first fun _ => pure _
  · exact (needHeader _).first fun _ => pure _
  · exact (needHeader _).first fun _ => (hSupport _ hName).first fun _ => pure _

/-- A type that the table has. -/
theorem knownCType {name : String} (h : KnownType name) (span : Span) : Checks (Gen.cType name span) depth [] := by
  refine (cType name span).congr ?_
  rw [typeChecks, Check.refuseIf, if_neg]
  exact Option.isSome_iff_ne_none.mp h

theorem resolve (form : NumberForm) (suffix : Option String) (span : Span) :
    Checks (Literal.resolve form suffix span) depth (numberChecks form suffix span) := by
  unfold Literal.resolve numberChecks
  cases resolveNumber form suffix with
  | error cause => exact fail span cause
  | ok n => exact pure n

theorem number (form : NumberForm) (suffix : Option String) (span : Span) :
    Checks (Literal.number form suffix span) depth (numberChecks form suffix span) := by
  refine (resolve form suffix span).last fun n => ?_
  refine (knownCType (knownType_numeric n.type) span).first fun type => ?_
  split
  · exact write _
  · exact write _

theorem string (value : String) (span : Span) :
    Checks (Literal.string value span) depth [.reserve (Literal.recordName span) span] :=
  (needSupport .string).first fun _ => (reserveSymbol _ span).last fun _ => (addTo _ _).first fun _ => write _

/-- An expression whose type is asked for. It has one if it is a literal. -/
theorem literalType (n : Node) {f : Option String → Gen α} {cs' : List Check}
    (h : ∀ type, Checks (f (some type)) depth cs) (h' : Checks (f none) depth cs') :
    Checks (Literal.type? n >>= f) depth (literalChecks n ++ if n.isLiteral then cs else cs') := by
  have hKnown : ∀ {name : String} (_ : KnownType name) (span : Span),
      Checks ((Gen.cType name span >>= fun type => Pure.pure (some type)) >>= f) depth cs := by
    intro name hName span
    rw [bind_assoc]
    exact (knownCType hName span).first fun type => h type
  induction n using Node.childInduction with
  | step n ih =>
    cases n
    case number form suffix span =>
      rw [Literal.type?, bind_assoc]
      exact (resolve form suffix span).bind fun m => hKnown (knownType_numeric m.type) span
    case boolean value span => exact hKnown (by decide) span
    case string value span => exact hKnown (by decide) span
    case paren inner span => exact ih inner (by simp [Node.children])
    all_goals exact h'

/-- A variable whose type is asked for. -/
theorem variableType {untyped : String → Cause} {var : TypedName} {value : Option Node} {span : Span}
    {act : Gen (Option String)}
    (h : ∀ cs' : List Check, ∀ f : Option String → Gen String, (∀ type, Checks (f (some type)) depth []) →
      Checks (f none) depth cs' →
      Checks (act >>= f) depth (value.elim [] literalChecks ++ if value.any Node.isLiteral then [] else cs')) :
    Checks (match var.type with
      | some type => Gen.cType type span
      | none => act >>= fun inferred => Gen.orFail inferred span (untyped var.name)) depth
      (variableChecks untyped span var value) := by
  unfold variableChecks
  cases var.type with
  | some type => exact cType type span
  | none =>
    refine (h [.refuse ⟨span, untyped var.name⟩] _ (fun type => pure type) (fail _ _)).congr ?_
    rw [Check.refuseIf]
    cases value.any Node.isLiteral <;> rfl

theorem loopType (var : TypedName) (first : Node) (span : Span) :
    Checks (Loop.varType var first span) depth (variableChecks .untypedLoop span var (some first)) :=
  variableType fun _ _ h h' => literalType first h h'

theorem declaredType (var : TypedName) (value : Option Node) (span : Span) :
    Checks (Declaration.variableType var (value.map Node.part) span) depth
      (variableChecks .untypedVariable span var value) := by
  cases value with
  | none => exact variableType fun _ _ _ h' => h'.of_run_eq fun _ _ => rfl
  | some n => exact variableType fun _ _ h h' => literalType n h h'

-- ---------------------------------------------------------------------------
-- Expressions
-- ---------------------------------------------------------------------------

variable {F : Node → List Check} {a b c : Node} {ns : List Node}

theorem commaList (h : ∀ n ∈ ns, Checks (visit .standard n) depth (F n)) :
    Checks (commaList (ns.map Node.part)) depth (ns.flatMap F) := by
  induction ns with
  | nil => exact pure ()
  | cons n rest ih =>
    have hHead := h n (List.mem_cons_self ..)
    have hTail := ih fun m hm => h m (List.mem_cons_of_mem _ hm)
    cases rest with
    | nil => exact hHead.congr (by simp)
    | cons m rest => exact hHead.bind fun _ => (write ", ").first fun _ => hTail

theorem slot (call : Span) (index : Nat) (n : Node) :
    Checks (Print.slot call index n) depth (slotChecks call index n) := by
  cases n with
  | string value span => exact (needSupport .stringPrint).first fun _ => pure _
  | number form suffix span =>
    refine (resolve form suffix span).last fun m => ?_
    refine (knownCType (knownType_numeric m.type) span).first fun type => ?_
    dsimp only
    cases m.type.directive.header with
    | none => exact pure _
    | some header => exact (needHeader header).first fun _ => pure _
  | _ => exact fail call _

theorem slots (call : Span) (index : Nat) (ns : List Node) :
    Checks (Print.slots call index ns) depth (slotsChecks call index ns) := by
  induction ns generalizing index with
  | nil => exact pure []
  | cons n rest ih => exact (slot call index n).bind fun _ => (ih (index + 1)).last fun _ => pure _

theorem print (span : Span) (h : ∀ n ∈ ns, Checks (visit .standard n) depth (F n)) :
    Checks (Print.call span (ns.map Node.part)) depth
      (.reserve (Print.helperName span) span :: slotsChecks span 1 ns ++ ns.flatMap F) := by
  have hNodes : (ns.map Node.part).map Part.node = ns := by
    rw [List.map_map]
    exact List.map_id ns
  have hRest : ∀ ss : List Print.Slot, Checks (do
      Gen.needHeader "stdio.h"
      Gen.addTo .forwardDeclarations (Print.signature (Print.helperName span) ss ++ ";\n")
      Gen.addDefinition (Print.helper (← get).width (Print.helperName span) ss)
      Gen.write (Print.helperName span ++ "(")
      Lowering.commaList (ns.map Node.part)
      Gen.write ")") depth (ns.flatMap F) := fun ss =>
    (needHeader _).first fun _ => (addTo _ _).first fun _ => look fun d _ => (addDefinition _).first fun _ =>
      (write _).first fun _ => (commaList h).last fun _ => write ")"
  unfold Print.call
  rw [hNodes]
  exact (reserveSymbol _ span).bind fun _ => (slots span 1 ns).bind hRest

theorem call {span : Span} (hName : Expression.intrinsic? a ≠ some .print) (h : Checks (visit .standard a) depth (F a))
    (hArgs : ∀ n ∈ ns, Checks (visit .standard n) depth (F n)) :
    Checks (Expression.call a.part (ns.map Node.part) span) depth ((a :: ns).flatMap F) := by
  unfold Expression.call
  split
  · rename_i hPrint
    exact absurd hPrint hName
  · exact h.bind fun _ => (write "(").first fun _ => (commaList hArgs).last fun _ => write ")"

theorem operator {act : Gen Unit} (h : Checks act depth cs) : Checks (Expression.operator act) depth cs := by
  refine site fun s _ => ?_
  split
  · exact (write "(").first fun _ => h.last fun _ => write ")"
  · exact h

/-- The two looks at the name of an operator. -/
theorem spelled {κ μ : Type} {arity : Arity} {op : String} {known : Option κ} {spelling? : κ → Option μ} {span : Span}
    {f : μ → Gen Unit} (h : ∀ mark, Checks (f mark) depth cs) :
    Checks (Gen.orFail known span (.unknownOperator arity op) >>= fun k =>
      Gen.orFail (spelling? k) span (.unwritableOperator arity op) >>= f) depth
      (operatorChecks arity op known spelling? span ++ cs) := by
  unfold operatorChecks
  cases known with
  | none => exact of_refused fun _ => rfl
  | some k =>
    exact (orFail (o := spelling? k) fun mark _ => h mark).of_run_eq fun _ _ => rfl

theorem unary (op : String) (span : Span) (h : Checks (visit .standard a) depth (F a)) :
    Checks (Expression.unary op a.part span) depth
      (operatorChecks .unary op (UnaryOp.ofName? op) UnaryOp.spelling? span ++ [a].flatMap F) := by
  refine spelled fun mark => operator ?_
  exact ((write mark).first fun _ => h).congr (by simp)

theorem binary (op : String) (span : Span) (h : Checks (visit .standard a) depth (F a))
    (h' : Checks (visit .standard b) depth (F b)) :
    Checks (Expression.binary op a.part b.part span) depth
      (operatorChecks .binary op (BinaryOp.ofName? op) BinaryOp.spelling? span ++ [a, b].flatMap F) := by
  refine spelled fun mark => operator ?_
  exact (h.bind fun _ => (write _).first fun _ => h').congr (by simp)

theorem ternary (op : String) (span : Span) (h : Checks (visit .standard a) depth (F a))
    (h' : Checks (visit .standard b) depth (F b)) (h'' : Checks (visit .standard c) depth (F c)) :
    Checks (Expression.ternary op a.part b.part c.part span) depth
      (operatorChecks .ternary op (TernaryOp.ofName? op) TernaryOp.spelling? span ++ [b, a, c].flatMap F) := by
  refine spelled fun marks => operator ?_
  exact (h'.bind fun _ => (write _).first fun _ => h.bind fun _ => (write _).first fun _ => h'').congr (by simp)

-- ---------------------------------------------------------------------------
-- Statements
-- ---------------------------------------------------------------------------

theorem guarded (before after : String) (h : Checks (visit .standard a) depth cs) :
    Checks (guarded before a.part after) depth cs :=
  writeIndent.first fun _ => (write before).first fun _ => h.last fun _ => writeLine after

theorem braced (h : Checks (visit .standard a) depth cs) : Checks (Block.braced a.part) depth cs :=
  (writeIndentedLine _).first fun _ => h.indented.last fun _ => writeIndentedLine _

theorem statement (h : Checks (visit .standard a) depth cs) : Checks (Block.statement a.part) depth cs := by
  unfold Block.statement
  split
  · exact writeIndent.first fun _ => h.last fun _ => writeLine ";"
  · split
    · exact braced h
    · exact h

theorem block (span : Span) (h : ∀ n ∈ ns, Checks (visit .standard n) (depth + 1) (F n)) :
    Checks (Block.emit (ns.map Node.part) span) depth (ns.flatMap F) := by
  have hBody : Checks ((ns.map Node.part).forM Block.statement >>= fun _ => Block.endMain) (depth + 1) (ns.flatMap F) := by
    have hAll := forM (f := Block.statement) (F := fun p : Part => F p.node) (l := ns.map Node.part)
      (List.forall_mem_map.mpr fun n hn => statement (h n hn))
    rw [List.flatMap_map] at hAll
    refine hAll.last fun _ => site fun s _ => ?_
    split
    · exact writeIndentedLine _
    · exact pure ()
  have hScoped : ∀ c : Scope, (∀ s : Site, (s.enter c).Inside (depth + 1)) →
      Checks (Block.scopedBlock c (ns.map Node.part) span) depth (ns.flatMap F) := by
    intro c hInside
    have hInner := hBody.inOpened span hInside
    simp only [bind_assoc] at hInner
    exact hInner
  refine site fun s hSite => ?_
  split
  · rename_i hDepth
    have hZero := hSite.outermost.mp hDepth
    exact (writeLine _).first fun _ => ((hScoped .top fun _ => .top_of_zero hZero).pushed (writeLine _)).congr
      (List.append_nil _).symm
  · rename_i hDepth
    have hPos : depth ≠ 0 := fun hZero => hDepth (hSite.outermost.mpr hZero)
    exact hScoped .nested fun _ => .nested hPos

/-- A part of a tree with a guard and a body. -/
theorem arms (f : Arm Part → Gen Unit) (arms : List (Arm Node))
    (h : ∀ a ∈ arms, Checks (f ⟨a.guard.part, a.body.part⟩) depth (F a.guard ++ F a.body)) :
    Checks ((arms.map fun a => (⟨a.guard.part, a.body.part⟩ : Arm Part)).forM f) depth
      ((arms.flatMap fun a => [a.guard, a.body]).flatMap F) := by
  have hAll := forM (f := f) (F := fun a : Arm Part => F a.guard.node ++ F a.body.node)
    (l := arms.map fun a => (⟨a.guard.part, a.body.part⟩ : Arm Part)) (List.forall_mem_map.mpr h)
  refine hAll.congr ?_
  rw [List.flatMap_map, List.flatMap_assoc]
  simp [Node.part]

theorem branch (before : String) (h : Checks (visit .standard a) depth (F a))
    (h' : Checks (visit .standard b) depth (F b)) :
    Checks (Branch.branch before ⟨a.part, b.part⟩) depth (F a ++ F b) :=
  (guarded before _ h).bind fun _ => h'.indented

theorem cond (arms : List (Arm Node)) (otherwise : Option Node) (span : Span)
    (h : ∀ n ∈ arms.flatMap (fun a => [a.guard, a.body]) ++ otherwise.toList, Checks (visit .standard n) depth (F n)) :
    Checks (Branch.cond (arms.map fun a => ⟨a.guard.part, a.body.part⟩) (otherwise.map Node.part) span) depth
      (Check.refuseIf (arms.length = 0) span .noBranches ++
        (arms.flatMap (fun a => [a.guard, a.body]) ++ otherwise.toList).flatMap F) := by
  obtain ⟨hArms, hOtherwise⟩ := Node.forall_mem_arms_append.mp h
  cases arms with
  | nil => exact fail span _
  | cons first rest =>
    have hClose : Checks (Gen.writeIndentedLine "\x7d") depth [] := writeIndentedLine _
    have hFirst := branch "if (" (hArms first (List.mem_cons_self ..)).1 (hArms first (List.mem_cons_self ..)).2
    have hRest := Checks.arms (Branch.branch "\x7d else if (") rest fun a ha =>
      branch _ (hArms a (List.mem_cons_of_mem _ ha)).1 (hArms a (List.mem_cons_of_mem _ ha)).2
    cases otherwise with
    | none =>
      exact (hFirst.bind fun _ => hRest.last fun _ => hClose).congr (by simp [Check.refuseIf])
    | some block =>
      have hElse := (writeIndentedLine "\x7d else \x7b").first fun _ =>
        (hOtherwise block rfl).indented.last fun _ => hClose
      exact (hFirst.bind fun _ => hRest.bind fun _ => hElse).congr (by simp [Check.refuseIf])

theorem armBody (h : Checks (visit .standard a) depth cs) : Checks (Branch.armBody a.part) depth cs :=
  h.indented.last fun _ => (writeIndentedLine "break;").indented.first fun _ => writeIndentedLine _

theorem switch (subject : Node) (arms : List (Arm Node)) (otherwise : Option Node)
    (hSubject : Checks (visit .standard subject) depth (F subject))
    (h : ∀ n ∈ arms.flatMap (fun a => [a.guard, a.body]) ++ otherwise.toList, Checks (visit .standard n) depth (F n)) :
    Checks (Branch.switch subject.part (arms.map fun a => ⟨a.guard.part, a.body.part⟩) (otherwise.map Node.part)) depth
      ((subject :: (arms.flatMap (fun a => [a.guard, a.body]) ++ otherwise.toList)).flatMap F) := by
  obtain ⟨hArms, hOtherwise⟩ := Node.forall_mem_arms_append.mp h
  have hClose : Checks (Gen.writeIndentedLine "\x7d") depth [] := writeIndentedLine _
  have hSwitch := Checks.arms Branch.switchArm arms fun a ha =>
    (guarded "case " ": \x7b" (hArms a ha).1).bind fun _ => armBody (hArms a ha).2
  cases otherwise with
  | none =>
    exact ((guarded "switch (" _ hSubject).bind fun _ => hSwitch.pushed hClose).congr (by simp)
  | some block =>
    have hDefault := (writeIndentedLine "default: \x7b").first fun _ => armBody (hOtherwise block rfl)
    have hInner := (hSwitch.bind fun _ => hDefault).pushed hClose
    simp only [bind_assoc] at hInner
    exact ((guarded "switch (" _ hSubject).bind fun _ => hInner).congr (by simp)

theorem whileLoop (h : Checks (visit .standard a) depth (F a)) (h' : Checks (visit .standard b) depth (F b)) :
    Checks (Loop.whileLoop a.part b.part) depth ([a, b].flatMap F) :=
  ((guarded _ _ h).bind fun _ => h'.indented.last fun _ => writeIndentedLine _).congr (by simp)

theorem repeatLoop (h : Checks (visit .standard a) depth (F a)) (h' : Checks (visit .standard b) depth (F b)) :
    Checks (Loop.repeatLoop a.part b.part) depth ([a, b].flatMap F) :=
  ((writeIndentedLine _).first fun _ => h.indented.bind fun _ => guarded _ _ h').congr (by simp)

theorem loopHeader (type name : String) (step : Option Node) (h : Checks (visit .standard a) depth (F a))
    (h' : Checks (visit .standard b) depth (F b)) (hStep : ∀ n ∈ step, Checks (visit .standard n) depth (F n)) :
    Checks (Loop.header type name a.part b.part (step.map Node.part)) depth
      (F a ++ (F b ++ step.toList.flatMap F)) := by
  have hEnd : ∀ increment : String, Checks (do
      Gen.write (", " ++ name ++ " = " ++ Loop.temporary name "begin")
      Gen.write ("; " ++ name ++ " <= " ++ Loop.temporary name "end" ++ "; " ++ increment)
      Gen.writeLine ") \x7b") depth [] :=
    fun _ => (write _).first fun _ => (write _).first fun _ => writeLine _
  have hDeclarator : ∀ {n : Node} (name : String), Checks (visit .standard n) depth (F n) →
      Checks (Loop.declarator name n.part) depth (F n) := fun _ hn => (write _).first fun _ => hn
  have hPart : Checks (Loop.stepPart name (step.map Node.part)) depth (step.toList.flatMap F) := by
    cases step with
    | none => exact pure _
    | some n => exact ((hDeclarator _ (hStep n rfl)).last fun _ => pure _).congr (by simp)
  exact writeIndent.first fun _ => (write _).first fun _ => h.bind fun _ => (hDeclarator _ h').bind fun _ =>
    hPart.last hEnd

theorem forNum (var : TypedName) (comparator : Option String) (step : Option Node) (span : Span)
    (h : Checks (visit .standard a) depth (F a)) (h' : Checks (visit .standard b) depth (F b))
    (hStep : ∀ n ∈ step, Checks (visit .standard n) depth (F n)) (hBody : Checks (visit .standard c) depth (F c)) :
    Checks (Loop.forNum var a.part comparator b.part (step.map Node.part) c.part span) depth
      ((comparator.elim [] fun c => Check.refuseIf (Loop.isInclusive c = false) span (.loopComparator c)) ++
        variableChecks .untypedLoop span var (some a) ++ ([a, b] ++ step.toList ++ [c]).flatMap F) := by
  have hLoop := (loopType var a span).bind fun type =>
    (loopHeader type (Target.escapeName var.name) step h h' hStep).bind fun _ =>
      hBody.indented.last fun _ => writeIndentedLine "\x7d"
  have hSteps : ([a, b] ++ step.toList ++ [c]).flatMap F = F a ++ (F b ++ step.toList.flatMap F) ++ F c := by simp
  rw [hSteps, List.append_assoc]
  cases comparator with
  | none => exact hLoop
  | some name =>
    unfold Loop.forNum
    rw [Option.elim_some, Check.refuseIf, Option.filter_some]
    cases Loop.isInclusive name with
    | false => exact of_refused fun _ => rfl
    | true => exact hLoop

theorem ret (span : Span) (h : ∀ n ∈ ns, Checks (visit .standard n) depth (F n)) :
    Checks (Jump.ret (ns.map Node.part) span) depth
      (Check.refuseIf (1 < ns.length) span .multipleReturns ++ ns.flatMap F) := by
  refine writeIndent.first fun _ => ?_
  match ns with
  | [] =>
    refine site fun s _ => ?_
    split
    · exact (writeLine _).first fun _ => markReturn
    · exact (writeLine _).first fun _ => markReturn
  | [value] =>
    exact ((write _).first fun _ => (h value (List.mem_singleton_self value)).last fun _ => (writeLine _).first fun _ =>
      markReturn).congr (by simp [Check.refuseIf])
  | first :: second :: rest =>
    rw [Check.refuseIf, if_pos (by simp)]
    exact of_refused fun _ => rfl

-- ---------------------------------------------------------------------------
-- Declarations, assignments, functions
-- ---------------------------------------------------------------------------

theorem declareVariable (qualifier : String) (span : Span) (var : TypedName) (value : Option Node)
    (h : ∀ n ∈ value, Checks (visit .standard n) depth (F n)) :
    Checks (Declaration.declareVariable qualifier span var (value.map Node.part)) depth
      (variableChecks .untypedVariable span var value ++ value.toList.flatMap F) := by
  refine (declaredType var value span).bind fun _ => writeIndent.first fun _ => (write _).first fun _ => ?_
  cases value with
  | none => exact writeLine _
  | some n => exact ((h n rfl).last fun _ => writeLine _).congr (by simp)

theorem declareVariables (qualifier : String) (span : Span) (vars : List TypedName)
    (h : ∀ n ∈ ns, Checks (visit .standard n) depth (F n)) :
    Checks (Declaration.declareVariables qualifier span vars (ns.map Node.part)) depth
      ((declarationSteps span vars ns).flatMap (Node.stepChecks F)) := by
  induction vars generalizing ns with
  | nil => exact pure ()
  | cons var vars ih =>
    cases ns with
    | nil =>
      refine ((declareVariable (F := F) qualifier span var none (by simp)).bind fun _ => ih h).congr ?_
      simp only [declarationSteps, List.flatMap_append, Node.flatMap_stepChecks_inl, Option.toList_none, List.flatMap_nil,
        List.append_nil]
    | cons n rest =>
      refine ((declareVariable qualifier span var (some n) (by simpa using h n (List.mem_cons_self ..))).bind fun _ =>
        ih fun m hm => h m (List.mem_cons_of_mem _ hm)).congr ?_
      simp only [declarationSteps, List.flatMap_append, Node.flatMap_stepChecks_inl, Option.toList_some, List.flatMap_cons,
        List.flatMap_nil, List.append_nil, List.append_assoc]
      rfl

theorem declaration (visibility : Visibility) (mutability : Mutability) (vars : List TypedName) (span : Span)
    (h : ∀ n ∈ ns, Checks (visit .standard n) depth (F n)) :
    Checks (Declaration.emit visibility mutability vars (ns.map Node.part) span) depth
      (Node.ownChecks depth (.varDecl visibility mutability vars ns span) ++
        (declarationSteps span vars ns).flatMap (Node.stepChecks F)) := by
  have hCount : (!(ns.map Node.part).isEmpty && decide (ns.length ≠ vars.length)) = true ↔
      ns ≠ [] ∧ ns.length ≠ vars.length := by simp
  rw [Node.ownChecks, List.append_assoc, List.append_assoc]
  refine refuseIf fun _ => orFail fun qualifier _ => ?_
  refine (refuseIf fun _ => declareVariables qualifier span vars h).congr ?_
  simp only [Check.refuseIf, hCount, List.length_map]

theorem stores {targets values : List Node} (hLength : targets.length = values.length)
    (h : ∀ n ∈ Node.alternate targets values, Checks (visit .standard n) depth (F n)) :
    Checks (Assignment.stores (targets.map Node.part) (values.map Node.part)) depth
      ((Node.alternate targets values).flatMap F) := by
  induction targets generalizing values with
  | nil =>
    obtain rfl := List.length_eq_zero_iff.mp hLength.symm
    exact pure ()
  | cons target targets ih =>
    cases values with
    | nil => simp at hLength
    | cons value values =>
      simp only [Node.alternate, List.forall_mem_cons] at h
      have hStore : Checks (Assignment.store target.part value.part) depth (F target ++ F value) :=
        writeIndent.first fun _ => h.1.bind fun _ => (write _).first fun _ => h.2.1.last fun _ => writeLine _
      exact (hStore.bind fun _ => ih (Nat.succ.inj hLength) h.2.2).congr (by simp [Node.alternate])

theorem assignment (targets values : List Node) (span : Span)
    (h : ∀ n ∈ Node.alternate targets values, Checks (visit .standard n) depth (F n)) :
    Checks (Assignment.emit (targets.map Node.part) (values.map Node.part) span) depth
      (Node.ownChecks depth (.assign targets values span) ++ (Node.alternate targets values).flatMap F) := by
  have hNodes : ∀ ns : List Node, (ns.map Node.part).map Part.node = ns := fun ns => by
    rw [List.map_map]
    exact List.map_id ns
  unfold Assignment.emit
  rw [Node.ownChecks, List.append_assoc, hNodes, hNodes, List.length_map, List.length_map]
  refine refuseIf fun hLength => ?_
  cases Assignment.readAfterStore? targets values with
  | some root => exact of_refused fun _ => rfl
  | none => exact stores (not_not.mp hLength) h

theorem returnType (returns : List String) (span : Span) :
    Checks (FunctionDef.returnType returns span) depth (returnChecks returns span) := by
  match returns with
  | [] => exact pure _
  | [type] => exact cType type span
  | _ :: _ :: _ => exact fail span _

theorem param (span : Span) (p : TypedName) : Checks (FunctionDef.param span p) depth (paramChecks span p) := by
  unfold FunctionDef.param paramChecks
  cases p.type with
  | none => exact fail span _
  | some type => exact ((cType type span).last fun _ => pure _).of_run_eq fun _ _ => rfl

theorem function (visibility : Visibility) (name : String) (params : List TypedName) (returns : List String)
    (span : Span) (h : Checks (visit .standard a) (depth + 1) (F a)) :
    Checks (FunctionDef.emit visibility name params returns a.part span) depth
      (Node.ownChecks depth (.funcDef visibility name params returns a span) ++ F a) := by
  rw [Node.ownChecks]
  simp only [List.append_assoc]
  have hBody : depth = 1 → ∀ signature : String, Checks (Gen.onOwnPage do
      Gen.writeLine (signature ++ " \x7b")
      onPage Page.indent
      Gen.inScope .function span a.part.emit
      onPage Page.dedent
      Gen.writeLine "\x7d") depth (F a) := fun hDepth signature =>
    ((writeLine _).first fun _ => ((h.inScope span fun _ => .function hDepth).pushed (writeLine _)).congr
      (List.append_nil _).symm).onOwnPage
  refine refuseIf fun _ => site fun s hSite => ?_
  have hTop : (!s.isTop) = true ↔ depth ≠ 1 := by
    rw [Bool.not_eq_true', ← Bool.not_eq_true, hSite.top]
  simp only [Check.refuseIf, ← hTop]
  refine refuseIf fun hNot => ?_
  refine (returnType returns span).bind fun result => (mapM fun p _ => param span p).bind fun spelled => ?_
  refine (note _).first fun _ => (addTo _ _).first fun _ => ?_
  exact (hBody (not_not.mp fun hDepth => hNot (hTop.mpr hDepth)) _).last fun page => addDefinition page.text

end Gen.Checks

-- ---------------------------------------------------------------------------
-- Nodes
-- ---------------------------------------------------------------------------

namespace Node

/-- Going down to a node checks nothing. -/
theorem dispatch_checks {n : Node} {own : Gen Unit} {depth : Nat} {cs : List Check} (h : Checks own depth cs) :
    Checks (dispatch .standard n own) depth cs := by
  have hNote : Checks (noteDispatch n) depth [] := .modify fun _ => ⟨rfl, rfl, rfl⟩
  have hBelow : Checks (below n.tag ((Handler.standard n.tag).run n own)) depth cs := by
    refine Checks.below ?_ n.tag
    rw [Handler.run, if_pos rfl]
    exact h
  unfold dispatch
  rw [find?_standard]
  exact hNote.first fun _ => hBelow

theorem steps_eq {depth : Nat} {n : Node} (h : n.tag ≠ .varDecl) :
    n.steps depth = (n.ownChecks depth).map .inl ++ n.children.map .inr := by
  cases n <;> first | rfl | exact absurd rfl h

/-- The checks of a node of which those below it are known. -/
theorem checks_of_children {depth : Nat} {n : Node} {own : Gen Unit} (hTag : n.tag ≠ .varDecl)
    (h : Checks own depth (n.ownChecks depth ++ n.children.flatMap (checks (depth + n.ownScopes)))) :
    Checks (dispatch .standard n own) depth (n.checks depth) := by
  rw [checks_eq, steps_eq hTag, flatMap_stepChecks]
  exact dispatch_checks h

theorem call_checks {depth : Nat} {callee : Node} {args : List Node} {span : Span}
    (h : ∀ n ∈ callee :: args, Checks (visit .standard n) depth (n.checks depth)) :
    Checks (Expression.call callee.part (args.map part) span) depth
      (ownChecks depth (.call callee args span) ++ (callee :: args).flatMap (checks depth)) := by
  obtain ⟨hCallee, hArgs⟩ := List.forall_mem_cons.mp h
  rw [ownChecks]
  by_cases hPrint : Expression.intrinsic? callee = some .print
  · obtain ⟨nameSpan, rfl⟩ := intrinsic?_eq_print_iff.mp hPrint
    have hName : checks depth (.id "print" nameSpan) = [] := by
      rw [checks_eq]
      rfl
    rw [if_pos hPrint, List.flatMap_cons, hName]
    exact (Checks.note _).first fun _ => Checks.print span hArgs
  · rw [if_neg hPrint]
    exact Checks.call hPrint hCallee hArgs

/-- A tree stops the writing with the fault that its checks end in, and it can be written if they end in none. -/
theorem visit_checks (n : Node) (depth : Nat) : Checks (visit .standard n) depth (n.checks depth) := by
  induction n using childInduction generalizing depth with
  | step n ih =>
    have hBelow : ∀ c ∈ n.children, Checks (visit .standard c) (depth + n.ownScopes) (c.checks (depth + n.ownScopes)) :=
      fun c hc => ih c hc _
    cases n <;> rw [visit]
    case varDecl visibility mutability vars values span =>
      rw [visitAll_eq, checks_eq, steps, List.flatMap_append]
      refine dispatch_checks ((Checks.declaration visibility mutability vars span hBelow).congr ?_)
      congr 1
      exact flatMap_stepChecks_inl _ _
    all_goals refine checks_of_children (by simp [tag]) ?_
    case call callee args span =>
      rw [visitAll_eq]
      exact call_checks hBelow
    case block statements span =>
      rw [visitAll_eq]
      exact Checks.block span hBelow
    case ret values span =>
      rw [visitAll_eq]
      exact Checks.ret span hBelow
    case cond branches otherwise span =>
      rw [visitArms_eq, visitOption_eq]
      exact Checks.cond branches otherwise span hBelow
    case switch subject cases otherwise span =>
      rw [visitArms_eq, visitOption_eq]
      obtain ⟨hSubject, hRest⟩ := List.forall_mem_cons.mp hBelow
      exact Checks.switch subject cases otherwise hSubject hRest
    case forNum var first comparator last step body span =>
      rw [visitOption_eq]
      exact Checks.forNum var comparator step span (hBelow first (by simp [children])) (hBelow last (by simp [children]))
        (fun s hs => hBelow s (by simp [children]; tauto)) (hBelow body (by simp [children]))
    case assign targets values span =>
      rw [visitAll_eq, visitAll_eq]
      exact Checks.assignment targets values span hBelow
    case funcDef visibility name params returns body span =>
      exact (Checks.function visibility name params returns span (hBelow body (by simp [children]))).congr
        (by simp [children, ownScopes])
    case number form suffix span => exact (Checks.number form suffix span).congr (List.append_nil _)
    case string value span => exact Checks.string value span
    case boolean value span => exact (Checks.needHeader _).first fun _ => .write _
    case nil span => exact (Checks.needHeader _).first fun _ => .write _
    case varargs span => exact .fail span _
    case forIn vars exprs body span => exact .fail span _
    case id name span => exact .write _
    case breakLoop span => exact .writeIndentedLine _
    case continueLoop span => exact .writeIndentedLine _
    case label name span => exact .writeIndentedLine _
    case goto target span => exact .writeIndentedLine _
    all_goals simp only [children, List.forall_mem_cons] at hBelow
    case paren inner span =>
      exact ((Checks.write "(").first fun _ => hBelow.1.last fun _ => .write ")").congr (by simp [children, ownChecks])
    case dotIndex base field span =>
      exact (hBelow.1.last fun _ => .write _).congr (by simp [children, ownChecks])
    case arrayIndex base index span =>
      exact (hBelow.1.bind fun _ => (Checks.write "[").first fun _ => hBelow.2.1.last fun _ => .write "]").congr
        (by simp [children, ownChecks])
    case unaryOp op operand span => exact Checks.unary op span hBelow.1
    case binaryOp op lhs rhs span => exact Checks.binary op span hBelow.1 hBelow.2.1
    case ternaryOp op first second third span => exact Checks.ternary op span hBelow.2.1 hBelow.1 hBelow.2.2.1
    case «scoped» body span => exact (Checks.braced hBelow.1).congr (by simp [children, ownChecks])
    case whileLoop guard body span => exact Checks.whileLoop hBelow.1 hBelow.2.1
    case repeatLoop body guard span => exact Checks.repeatLoop hBelow.1 hBelow.2.1

/-- The fault of a program, if it has one. -/
def fault? (root : Node) : Option Fault :=
  if root.tag ≠ .block then some ⟨root.span, .rootNotBlock root.tag⟩ else Check.fault? [] (root.checks 0)

end Node

/-- A program cannot be written exactly if it has a fault, whatever the width of the indentation. -/
theorem generate_eq_error_iff {width : Nat} {root : Node} {fault : Fault} :
    (generate { width } root).result = .error fault ↔ root.fault? = some fault := by
  unfold generate Node.fault?
  by_cases hBlock : root.tag ≠ .block
  · simp [hBlock]
  · rw [if_neg hBlock, if_neg hBlock]
    have hReady : (Draft.blank width).Ready 0 :=
      ⟨rfl, by simp [Draft.blank, Site.depth], by simp [Draft.blank, Site.isTop, Site.scope?]⟩
    have hChecks := root.visit_checks 0 (Draft.blank width) hReady
    cases hRun : visit .standard root (Draft.blank width) with
    | ok a d =>
      rw [hRun] at hChecks
      have hNone : Check.fault? [] (root.checks 0) = none := hChecks.none
      simp [hNone]
    | error first d =>
      rw [hRun] at hChecks
      have hSome : Check.fault? [] (root.checks 0) = some first := hChecks.1
      simp [hSome]

end Lowering
