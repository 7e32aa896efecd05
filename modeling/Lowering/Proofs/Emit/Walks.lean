import Mathlib.Data.List.Basic
import Lowering.Emit.Visit
import Lowering.Proofs.Tree.Census

/-!
# What the ways of writing are made of

Nearly every way of writing a node is put together from a few kinds of steps: text at the end of the page, requests, a
generated name, a line or a definition elsewhere in the file, and the writing of the nodes below it. `Walks` says this of
a step, and which nodes it goes through in which order. A law that holds of these few kinds of steps and of their
composition then holds of all ways of writing, after faults as well as after success.

Only blocks and functions do more, because they open and close scopes. `Way` leaves these two as they are.

* `Walks` — steps that leave scopes alone.
* `Node.exists_way` — how a node is written in its own way.
-/

namespace Lowering

open Gen

/-- The node that is about to be written and its site, if the event says so. -/
def Event.dispatch? : Event → Option (Node × Site)
  | .dispatch node site => some (node, site)
  | _ => none

/-- The header that has been included, if the event says so. -/
def Event.included? : Event → Option String
  | .included header => some header
  | _ => none

/-- All that a step may look at in a draft. What has been written or asked for before is not part of it. -/
structure Draft.View where
  width : Nat
  types : Target.TypeTable
  site : Site

/-- What a step sees of a draft. -/
def Draft.view (d : Draft) : Draft.View :=
  ⟨d.width, d.types, d.site⟩

/-- A node with the step that writes it. -/
def Registry.part (r : Registry) (n : Node) : Part :=
  ⟨n, visit r n⟩

/-- The step is made of elementary steps and of the writing of the nodes `ns`, in this order and each at most once. -/
inductive Walks (r : Registry) : {α : Type} → List Node → Gen α → Prop where
  | pure {α : Type} (a : α) : Walks r [] (Pure.pure a)
  | look {α : Type} {ns : List Node} {f : Draft.View → Gen α} (h : ∀ v, Walks r ns (f v)) :
      Walks r ns (get >>= fun d => f d.view)
  | fail {α : Type} (span : Span) {cause : Cause} (h : cause ≠ .unpairedScope) : Walks r [] (fail span cause : Gen α)
  /-- The page changes by text at its end. -/
  | page {f : Page → Page} (h : ∀ page, ∃ s, f page = page.write s) : Walks r [] (onPage f)
  | note {e : Event} (h : e.dispatch? = none) (h' : e.included? = none) : Walks r [] (note e)
  | header (name : String) : Walks r [] (needHeader name)
  | support (s : Support) : Walks r [] (needSupport s)
  | symbol (name : String) (owner : Span) : Walks r [] (reserveSymbol name owner)
  | forward (line : String) : Walks r [] (addTo .forwardDeclarations line)
  | definition (text : String) : Walks r [] (addDefinition text)
  | markReturn : Walks r [] markReturn
  | node (n : Node) : Walks r [n] (visit r n)
  | bind {α β : Type} {ns ms : List Node} {act : Gen α} {f : α → Gen β} (h : Walks r ns act)
      (h' : ∀ a, Walks r ms (f a)) : Walks r (ns ++ ms) (act >>= f)
  | indented {ns : List Node} {act : Gen Unit} (h : Walks r ns act) : Walks r ns (indented act)
  /-- Lines further in, where the level stays as it is if they cannot be written. -/
  | pushed {α : Type} {ns ms : List Node} {act : Gen Unit} {rest : Gen α} (h : Walks r ns act) (h' : Walks r ms rest) :
      Walks r (ns ++ ms) (onPage Page.indent >>= fun _ => act >>= fun _ => onPage Page.dedent >>= fun _ => rest)
  /-- Nodes may be left out. -/
  | weaken {α : Type} {ns ms : List Node} {act : Gen α} (h : Walks r ns act) (hSublist : ns.Sublist ms) : Walks r ms act

namespace Walks

variable {r : Registry} {α β : Type} {ns ms : List Node}

-- ---------------------------------------------------------------------------
-- Elementary steps
-- ---------------------------------------------------------------------------

theorem write (s : String) : Walks r [] (write s) :=
  .page fun _ => ⟨s, rfl⟩

theorem writeLine (s : String) : Walks r [] (writeLine s) :=
  .page fun _ => ⟨s ++ "\n", rfl⟩

theorem writeIndent : Walks r [] writeIndent :=
  .page fun page => ⟨Page.indentation page.level page.width, rfl⟩

theorem writeIndentedLine (s : String) : Walks r [] (writeIndentedLine s) :=
  .page fun page => ⟨Page.indentation page.level page.width ++ (s ++ "\n"), by
    simp only [Page.writeIndentedLine, Page.writeLine, Page.writeIndent, Page.write, String.append_assoc]⟩

/-- A step that goes through no node, before another one. -/
theorem first {act : Gen α} {f : α → Gen β} (h : Walks r [] act) (h' : ∀ a, Walks r ns (f a)) : Walks r ns (act >>= f) :=
  h.bind h'

/-- A step that goes through no node, after another one. -/
theorem last {act : Gen α} {f : α → Gen β} (h : Walks r ns act) (h' : ∀ a, Walks r [] (f a)) :
    Walks r ns (act >>= f) := by
  simpa using h.bind h'

/-- The same nodes in other words. -/
theorem congr {act : Gen α} (h : Walks r ns act) (hEq : ns = ms) : Walks r ms act :=
  hEq ▸ h

theorem nil {act : Gen α} (h : Walks r [] act) : Walks r ns act :=
  h.weaken (List.nil_sublist ns)

theorem orFail (o : Option α) (span : Span) {cause : Cause} (h : cause ≠ .unpairedScope) :
    Walks r [] (orFail o span cause) := by
  cases o with
  | none => exact .fail span h
  | some a => exact .pure a

/-- A condition that must not hold if anything else is to be done. -/
theorem refuseIf {c : Prop} [Decidable c] (span : Span) {cause : Cause} (hCause : cause ≠ .unpairedScope) {rest : Gen α}
    (h : Walks r ns rest) : Walks r ns (if c then Gen.fail span cause >>= fun _ : Unit => rest else rest) := by
  split
  · exact (Walks.fail span hCause).first fun _ => h
  · exact h

theorem site : Walks r [] Gen.site :=
  .look (f := fun v => Pure.pure v.site) fun v => .pure v.site

/-- A step for each member of a list. -/
theorem forM {γ : Type} {f : γ → Gen Unit} {F : γ → List Node} {l : List γ} (h : ∀ x ∈ l, Walks r (F x) (f x)) :
    Walks r (l.flatMap F) (l.forM f) := by
  induction l with
  | nil => exact .pure ()
  | cons x rest ih =>
    rw [List.flatMap_cons]
    exact (h x (List.mem_cons_self ..)).bind fun _ => ih fun y hy => h y (List.mem_cons_of_mem _ hy)

theorem mapM {γ : Type} {f : γ → Gen α} {l : List γ} (h : ∀ x ∈ l, Walks r [] (f x)) : Walks r [] (l.mapM f) := by
  induction l with
  | nil => exact .pure []
  | cons x rest ih =>
    rw [List.mapM_cons]
    exact (h x (List.mem_cons_self ..)).first fun _ => (ih fun y hy => h y (List.mem_cons_of_mem _ hy)).first
      fun _ => .pure _

theorem part (n : Node) : Walks r [n] (r.part n).emit :=
  .node n

theorem guarded (before after : String) (n : Node) : Walks r [n] (guarded before (r.part n) after) :=
  writeIndent.first fun _ => (write before).first fun _ => (part n).last fun _ => writeLine after

-- ---------------------------------------------------------------------------
-- Types and literals
-- ---------------------------------------------------------------------------

theorem needSupportNamed (name : String) (span : Span) : Walks r [] (needSupportNamed name span) :=
  (orFail _ span (by simp)).first fun s => .support s

theorem cType (name : String) (span : Span) : Walks r [] (cType name span) := by
  refine .look (f := fun v => Gen.orFail (v.types.find? name) span (.unknownType name) >>= _) fun v =>
    (orFail _ span (by simp)).first fun type => ?_
  rcases type with ⟨spelling, header, support⟩
  cases header <;> cases support
  · exact .pure spelling
  · exact (needSupportNamed _ span).first fun _ => .pure spelling
  · exact (Walks.header _).first fun _ => .pure spelling
  · exact (Walks.header _).first fun _ => (needSupportNamed _ span).first fun _ => .pure spelling

/-- A number that does not resolve has bad digits or a bad suffix. -/
theorem resolveNumber_error {form : NumberForm} {suffix : Option String} {cause : Cause}
    (h : resolveNumber form suffix = .error cause) : cause ≠ .unpairedScope := by
  unfold resolveNumber at h
  cases hSpelling : form.spelling with
  | error spelled =>
    rw [hSpelling] at h
    obtain rfl := Except.error.inj h
    cases form with
    | binary digits =>
      rw [NumberForm.spelling] at hSpelling
      split at hSpelling
      · cases hSpelling
      · obtain rfl := Except.error.inj hSpelling
        simp
    | integer | decimal | scientific | hex => cases hSpelling
  | ok spelling =>
    rw [hSpelling] at h
    cases suffix with
    | none => cases h
    | some suffix =>
      cases hSuffix : Numeric.ofSuffix? suffix with
      | none =>
        simp only [hSuffix] at h
        obtain rfl := Except.error.inj h
        simp
      | some type =>
        simp only [hSuffix] at h
        cases h

theorem resolve (form : NumberForm) (suffix : Option String) (span : Span) :
    Walks r [] (Literal.resolve form suffix span) := by
  unfold Literal.resolve
  split
  · exact .pure _
  · rename_i hError
    exact .fail span (resolveNumber_error hError)

theorem number (form : NumberForm) (suffix : Option String) (span : Span) :
    Walks r [] (Literal.number form suffix span) := by
  refine (resolve form suffix span).first fun n => (cType n.type.name span).first fun type => ?_
  split
  · exact write _
  · exact write _

theorem string (value : String) (span : Span) : Walks r [] (Literal.string value span) :=
  (Walks.support .string).first fun _ => (Walks.symbol _ span).first fun _ => (Walks.forward _).first fun _ => write _

theorem boolean (value : Bool) : Walks r [] (Literal.boolean value) :=
  (Walks.header _).first fun _ => write _

theorem null : Walks r [] Literal.null :=
  (Walks.header _).first fun _ => write _

/-- A literal is only looked at when its type is asked for. -/
theorem literalType (n : Node) : Walks r [] (Literal.type? n) := by
  induction n using Node.childInduction with
  | step n ih =>
    cases n
    case number form suffix span =>
      exact (resolve form suffix span).first fun m => (cType m.type.name span).first fun _ => .pure _
    case boolean value span => exact (cType "boolean" span).first fun _ => .pure _
    case string value span => exact (cType "string" span).first fun _ => .pure _
    case paren inner span => exact ih inner (by simp [Node.children])
    all_goals exact .pure none

-- ---------------------------------------------------------------------------
-- Expressions
-- ---------------------------------------------------------------------------

theorem paren (inner : Node) : Walks r [inner] (Expression.paren (r.part inner)) :=
  (write "(").first fun _ => (part inner).last fun _ => write ")"

theorem field (base : Node) (name : String) : Walks r [base] (Expression.field (r.part base) name) :=
  (part base).last fun _ => write _

theorem element (base index : Node) : Walks r [base, index] (Expression.element (r.part base) (r.part index)) :=
  (part base).bind fun _ => (write "[").first fun _ => (part index).last fun _ => write "]"

theorem commaList (ns : List Node) : Walks r ns (commaList (ns.map r.part)) := by
  induction ns with
  | nil => exact .pure ()
  | cons n rest ih =>
    cases rest with
    | nil => exact part n
    | cons m rest => exact (part n).bind fun _ => (write ", ").first fun _ => ih

theorem slot (call : Span) (index : Nat) (n : Node) : Walks r [] (Print.slot call index n) := by
  cases n with
  | string value span => exact (Walks.support .stringPrint).first fun _ => .pure _
  | number form suffix span =>
    refine (resolve form suffix span).first fun m => (cType m.type.name span).first fun type => ?_
    dsimp only
    cases m.type.directive.header with
    | none => exact .pure _
    | some header => exact (Walks.header header).first fun _ => .pure _
  | _ => exact .fail call (by simp)

theorem slots (call : Span) (index : Nat) (ns : List Node) : Walks r [] (Print.slots call index ns) := by
  induction ns generalizing index with
  | nil => exact .pure []
  | cons n rest ih => exact (slot call index n).first fun _ => (ih (index + 1)).first fun _ => .pure _

theorem print (span : Span) (args : List Node) : Walks r args (Print.call span (args.map r.part)) :=
  (Walks.symbol _ span).first fun _ => (slots span 1 _).first fun ss => (Walks.header _).first fun _ =>
    (Walks.forward _).first fun _ =>
      .look (f := fun v => addDefinition (Print.helper v.width (Print.helperName span) ss) >>= _) fun _ =>
        (Walks.definition _).first fun _ => (write _).first fun _ => (commaList args).last fun _ => write ")"

theorem call (callee : Node) (args : List Node) (span : Span) :
    Walks r (callee :: args) (Expression.call (r.part callee) (args.map r.part) span) := by
  unfold Expression.call
  split
  · have hPrint : Walks r args _ :=
      (Walks.note (r := r) (e := .specializing Intrinsic.print.name span) rfl rfl).first fun _ => print span args
    exact hPrint.weaken (List.sublist_cons_self callee args)
  · exact (part callee).bind fun _ => (write "(").first fun _ => (commaList args).last fun _ => write ")"

theorem operator {act : Gen Unit} (h : Walks r ns act) : Walks r ns (Expression.operator act) := by
  refine site.first fun s => ?_
  split
  · exact (write "(").first fun _ => h.last fun _ => write ")"
  · exact h

theorem unary (op : String) (operand : Node) (span : Span) :
    Walks r [operand] (Expression.unary op (r.part operand) span) :=
  (orFail _ span (by simp)).first fun _ => (orFail _ span (by simp)).first fun mark =>
    operator ((write mark).first fun _ => part operand)

theorem binary (op : String) (lhs rhs : Node) (span : Span) :
    Walks r [lhs, rhs] (Expression.binary op (r.part lhs) (r.part rhs) span) :=
  (orFail _ span (by simp)).first fun _ => (orFail _ span (by simp)).first fun _ =>
    operator ((part lhs).bind fun _ => (write _).first fun _ => part rhs)

theorem ternary (op : String) (first second third : Node) (span : Span) :
    Walks r [second, first, third] (Expression.ternary op (r.part first) (r.part second) (r.part third) span) :=
  (orFail _ span (by simp)).first fun _ => (orFail _ span (by simp)).first fun _ =>
    operator ((part second).bind fun _ => (write _).first fun _ => (part first).bind fun _ => (write _).first fun _ =>
      part third)

-- ---------------------------------------------------------------------------
-- Statements
-- ---------------------------------------------------------------------------

theorem braced (n : Node) : Walks r [n] (Block.braced (r.part n)) :=
  (writeIndentedLine _).first fun _ => (part n).indented.last fun _ => writeIndentedLine _

theorem statement (n : Node) : Walks r [n] (Block.statement (r.part n)) := by
  unfold Block.statement
  split
  · exact writeIndent.first fun _ => (part n).last fun _ => writeLine ";"
  · split
    · exact braced n
    · exact part n

/-- The statements of a block, inside its scope. -/
theorem statements (ns : List Node) : Walks r ns ((ns.map r.part).forM Block.statement) := by
  have h := Walks.forM (r := r) (f := Block.statement) (F := fun p => [p.node]) (l := ns.map r.part)
    (List.forall_mem_map.mpr fun n _ => statement n)
  simpa [List.flatMap_map, Registry.part] using h

theorem endMain : Walks r [] Block.endMain := by
  refine site.first fun s => ?_
  split
  · exact writeIndentedLine _
  · exact .pure ()

/-- A node with an arm's guard and body. -/
def armPart (r : Registry) (a : Arm Node) : Arm Part :=
  ⟨r.part a.guard, r.part a.body⟩

theorem branch (before : String) (a : Arm Node) : Walks r [a.guard, a.body] (Branch.branch before (armPart r a)) :=
  (guarded before _ a.guard).bind fun _ => (part a.body).indented

/-- A step for each arm. -/
theorem arms {f : Arm Part → Gen Unit} (h : ∀ a, Walks r [a.guard, a.body] (f (armPart r a))) (as : List (Arm Node)) :
    Walks r (as.flatMap fun a => [a.guard, a.body]) ((as.map (armPart r)).forM f) := by
  have hAll := Walks.forM (r := r) (f := f) (F := fun a => [a.guard.node, a.body.node]) (l := as.map (armPart r))
    (List.forall_mem_map.mpr fun a _ => h a)
  simpa [List.flatMap_map, armPart, Registry.part] using hAll

theorem cond (as : List (Arm Node)) (otherwise : Option Node) (span : Span) :
    Walks r (as.flatMap (fun a => [a.guard, a.body]) ++ otherwise.toList)
      (Branch.cond (as.map (armPart r)) (otherwise.map r.part) span) := by
  cases as with
  | nil => exact (Walks.fail span (by simp)).nil
  | cons a rest =>
    have hClose : Walks r [] (Gen.writeIndentedLine "\x7d") := writeIndentedLine _
    cases otherwise with
    | none =>
      exact ((branch "if (" a).bind fun _ => (arms (branch "\x7d else if (") rest).bind fun _ => hClose).congr (by simp)
    | some block =>
      have hElse : Walks r [block] _ := (writeIndentedLine "\x7d else \x7b").first fun _ =>
        (part block).indented.last fun _ => hClose
      exact ((branch "if (" a).bind fun _ => (arms (branch "\x7d else if (") rest).bind fun _ => hElse).congr (by simp)

theorem armBody (n : Node) : Walks r [n] (Branch.armBody (r.part n)) :=
  (part n).indented.last fun _ => (writeIndentedLine "break;").indented.first fun _ => writeIndentedLine _

theorem switchArm (a : Arm Node) : Walks r [a.guard, a.body] (Branch.switchArm (armPart r a)) :=
  (guarded _ _ a.guard).bind fun _ => armBody a.body

theorem switch (subject : Node) (as : List (Arm Node)) (otherwise : Option Node) :
    Walks r (subject :: as.flatMap (fun a => [a.guard, a.body]) ++ otherwise.toList)
      (Branch.switch (r.part subject) (as.map (armPart r)) (otherwise.map r.part)) := by
  have hArms : Walks r _ ((as.map (armPart r)).forM Branch.switchArm) := arms switchArm as
  have hClose : Walks r [] (Gen.writeIndentedLine "\x7d") := writeIndentedLine _
  cases otherwise with
  | none =>
    exact ((guarded "switch (" _ subject).bind fun _ => hArms.pushed hClose).congr (by simp)
  | some block =>
    have hDefault : Walks r [block] _ := (writeIndentedLine "default: \x7b").first fun _ => armBody block
    have hInner := (hArms.bind fun _ => hDefault).pushed hClose
    simp only [bind_assoc] at hInner
    exact ((guarded "switch (" _ subject).bind fun _ => hInner).congr (by simp)

theorem whileLoop (guard body : Node) : Walks r [guard, body] (Loop.whileLoop (r.part guard) (r.part body)) :=
  (guarded _ _ guard).bind fun _ => (part body).indented.last fun _ => writeIndentedLine _

theorem repeatLoop (body guard : Node) : Walks r [body, guard] (Loop.repeatLoop (r.part body) (r.part guard)) :=
  (writeIndentedLine _).first fun _ => (part body).indented.bind fun _ => guarded _ _ guard

theorem varType (var : TypedName) (first : Node) (span : Span) : Walks r [] (Loop.varType var first span) := by
  unfold Loop.varType
  split
  · exact cType _ span
  · exact (literalType first).first fun _ => orFail _ span (by simp)

theorem declarator (name : String) (n : Node) : Walks r [n] (Loop.declarator name (r.part n)) :=
  (write _).first fun _ => part n

theorem stepPart (name : String) (step : Option Node) : Walks r step.toList (Loop.stepPart name (step.map r.part)) := by
  cases step with
  | none => exact .pure _
  | some n => exact (declarator _ n).last fun _ => .pure _

theorem loopHeader (type name : String) (begin last : Node) (step : Option Node) :
    Walks r ([begin, last] ++ step.toList)
      (Loop.header type name (r.part begin) (r.part last) (step.map r.part)) := by
  have hEnd : ∀ increment : String, Walks r [] (do
      Gen.write (", " ++ name ++ " = " ++ Loop.temporary name "begin")
      Gen.write ("; " ++ name ++ " <= " ++ Loop.temporary name "end" ++ "; " ++ increment)
      Gen.writeLine ") \x7b") :=
    fun _ => (write _).first fun _ => (write _).first fun _ => writeLine _
  exact (writeIndent.first fun _ => (write _).first fun _ => (part begin).bind fun _ => (declarator _ last).bind fun _ =>
    (stepPart name step).last hEnd).congr (by simp)

theorem forNum (var : TypedName) (begin : Node) (comparator : Option String) (last : Node) (step : Option Node)
    (body : Node) (span : Span) :
    Walks r ([begin, last] ++ step.toList ++ [body])
      (Loop.forNum var (r.part begin) comparator (r.part last) (step.map r.part) (r.part body) span) := by
  have hLoop : Walks r ([begin, last] ++ step.toList ++ [body]) (do
      let type ← Loop.varType var begin span
      Loop.header type (Target.escapeName var.name) (r.part begin) (r.part last) (step.map r.part)
      Gen.indented (r.part body).emit
      Gen.writeIndentedLine "\x7d") :=
    (varType var begin span).first fun type => (loopHeader type _ begin last step).bind fun _ =>
      (part body).indented.last fun _ => writeIndentedLine _
  unfold Loop.forNum
  split
  · exact (Walks.fail span (by simp)).first fun _ : Unit => hLoop
  · exact hLoop

theorem ret (values : List Node) (span : Span) : Walks r values (Jump.ret (values.map r.part) span) := by
  refine writeIndent.first fun _ => ?_
  match values with
  | [] =>
    refine site.first fun s => ?_
    split
    · exact (writeLine _).first fun _ => .markReturn
    · exact (writeLine _).first fun _ => .markReturn
  | [value] => exact (write _).first fun _ => (part value).last fun _ => (writeLine _).first fun _ => .markReturn
  | _ :: _ :: _ => exact ((Walks.fail span (by simp)).first fun _ : Unit => Walks.markReturn).nil

theorem variableType (var : TypedName) (value : Option Node) (span : Span) :
    Walks r [] (Declaration.variableType var (value.map r.part) span) := by
  unfold Declaration.variableType
  split
  · exact cType _ span
  · cases value with
    | none => exact (Walks.pure none).first fun _ => orFail _ span (by simp)
    | some n => exact (literalType n).first fun _ => orFail _ span (by simp)

theorem declareVariable (qualifier : String) (span : Span) (var : TypedName) (value : Option Node) :
    Walks r value.toList (Declaration.declareVariable qualifier span var (value.map r.part)) := by
  refine (variableType var value span).first fun _ => writeIndent.first fun _ => (write _).first fun _ => ?_
  cases value with
  | none => exact writeLine _
  | some n => exact (part n).last fun _ => writeLine _

theorem declareVariables (qualifier : String) (span : Span) (vars : List TypedName) (values : List Node) :
    Walks r values (Declaration.declareVariables qualifier span vars (values.map r.part)) := by
  induction vars generalizing values with
  | nil => exact (Walks.pure ()).nil
  | cons var vars ih =>
    cases values with
    | nil => exact (declareVariable qualifier span var none).bind fun _ => ih []
    | cons n rest => exact (declareVariable qualifier span var (some n)).bind fun _ => ih rest

theorem declaration (visibility : Visibility) (mutability : Mutability) (vars : List TypedName) (values : List Node)
    (span : Span) : Walks r values (Declaration.emit visibility mutability vars (values.map r.part) span) := by
  have hChecked : Walks r values (do
      let qualifier ← Gen.orFail (Declaration.qualifier? mutability) span .immutableDeclarations
      if !(values.map r.part).isEmpty && (values.map r.part).length ≠ vars.length then
        Gen.fail span (.declarationCount vars.length (values.map r.part).length)
      Declaration.declareVariables qualifier span vars (values.map r.part)) := by
    refine (orFail _ span (by simp)).first fun qualifier => ?_
    exact refuseIf span (by simp) (declareVariables qualifier span vars values)
  exact refuseIf span (by simp) hChecked

theorem stores (targets values : List Node) :
    Walks r (Node.alternate targets values) (Assignment.stores (targets.map r.part) (values.map r.part)) := by
  induction targets generalizing values with
  | nil => exact (Walks.pure ()).nil
  | cons target targets ih =>
    cases values with
    | nil => exact (Walks.pure ()).nil
    | cons value values =>
      have hStore : Walks r [target, value] (Assignment.store (r.part target) (r.part value)) :=
        writeIndent.first fun _ => (part target).bind fun _ => (write _).first fun _ => (part value).last fun _ =>
          writeLine _
      exact hStore.bind fun _ => ih values

theorem assignment (targets values : List Node) (span : Span) :
    Walks r (Node.alternate targets values) (Assignment.emit (targets.map r.part) (values.map r.part) span) := by
  refine refuseIf span (by simp) ?_
  split
  · exact (Walks.fail span (by simp)).first fun _ : Unit => stores targets values
  · exact stores targets values

theorem returnType (returns : List String) (span : Span) : Walks r [] (FunctionDef.returnType returns span) := by
  unfold FunctionDef.returnType
  split
  · exact .pure _
  · exact cType _ span
  · exact .fail span (by simp)

theorem param (span : Span) (p : TypedName) : Walks r [] (FunctionDef.param span p) :=
  (orFail _ span (by simp)).first fun type => (cType type span).first fun _ => .pure _

/-- A way that is used for a node of another kind goes through none of the nodes below it. -/
theorem mismatch (expected : Tag) (n : Node) : Walks r [] (mismatch expected n) := by
  unfold Lowering.mismatch
  split
  · exact null
  · exact .fail _ (by simp)
  · exact .fail _ (by simp)
  · exact writeIndentedLine _
  · exact writeIndentedLine _
  · exact .fail _ (by simp)

end Walks

-- ---------------------------------------------------------------------------
-- Nodes
-- ---------------------------------------------------------------------------

namespace Node

theorem visitAll_eq_map (r : Registry) (ns : List Node) : visitAll r ns = ns.map r.part := by
  induction ns with
  | nil => rfl
  | cons n rest ih => rw [visitAll, ih, List.map_cons, Registry.part]

theorem visitOption_eq_map (r : Registry) (o : Option Node) : visitOption r o = o.map r.part := by
  cases o with
  | none => rfl
  | some n => rw [visitOption, Option.map_some, Registry.part]

theorem visitArms_eq_map (r : Registry) (arms : List (Arm Node)) : visitArms r arms = arms.map (Walks.armPart r) := by
  induction arms with
  | nil => rfl
  | cons a rest ih => rw [visitArms, ih, List.map_cons, Walks.armPart, Registry.part, Registry.part]

/-- How nodes are written in their own way: blocks and functions in ways that open a scope, all others by going through
the nodes directly below them. -/
inductive Way (r : Registry) : Node → Gen Unit → Prop where
  | plain {n : Node} {own : Gen Unit} (hOwn : n.ownScopes = 0) (h : Walks r n.children own) : Way r n own
  | block (statements : List Node) (span : Span) :
      Way r (.block statements span) (Block.emit (statements.map r.part) span)
  | function (visibility : Visibility) (name : String) (params : List TypedName) (returns : List String) (body : Node)
      (span : Span) :
      Way r (.funcDef visibility name params returns body span)
        (FunctionDef.emit visibility name params returns (r.part body) span)

theorem exists_way (r : Registry) (n : Node) : ∃ own, visit r n = dispatch r n own ∧ n.Way r own := by
  cases n <;> rw [visit]
  case block statements span => exact ⟨_, rfl, by rw [visitAll_eq_map]; exact .block statements span⟩
  case funcDef visibility name params returns body span => exact ⟨_, rfl, .function ..⟩
  all_goals refine ⟨_, rfl, .plain rfl ?_⟩
  case number form suffix span => exact .number form suffix span
  case string value span => exact .string value span
  case boolean value span => exact .boolean value
  case nil span => exact .null
  case varargs span => exact .fail span (by simp)
  case id name span => exact .write _
  case paren inner span => exact .paren inner
  case dotIndex base field span => exact .field base field
  case arrayIndex base index span => exact .element base index
  case call callee args span => rw [visitAll_eq_map]; exact .call callee args span
  case unaryOp op operand span => exact .unary op operand span
  case binaryOp op lhs rhs span => exact .binary op lhs rhs span
  case ternaryOp op first second third span => exact .ternary op first second third span
  case ret values span => rw [visitAll_eq_map]; exact .ret values span
  case cond branches otherwise span =>
    rw [visitArms_eq_map, visitOption_eq_map]; exact .cond branches otherwise span
  case switch subject cases otherwise span =>
    rw [visitArms_eq_map, visitOption_eq_map]; exact .switch subject cases otherwise
  case «scoped» body span => exact .braced body
  case whileLoop guard body span => exact .whileLoop guard body
  case repeatLoop body guard span => exact .repeatLoop body guard
  case forNum var first comparator last step body span =>
    rw [visitOption_eq_map]; exact .forNum var first comparator last step body span
  case forIn vars exprs body span => exact (Walks.fail span (by simp)).nil
  case breakLoop span => exact .writeIndentedLine _
  case continueLoop span => exact .writeIndentedLine _
  case label name span => exact .writeIndentedLine _
  case goto target span => exact .writeIndentedLine _
  case varDecl visibility mutability vars values span =>
    rw [visitAll_eq_map]; exact .declaration visibility mutability vars values span
  case assign targets values span =>
    rw [visitAll_eq_map, visitAll_eq_map]; exact .assignment targets values span

end Node

end Lowering
