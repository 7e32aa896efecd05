import Lowering.Emit.Visit
import Lowering.Proofs.Draft.Addition

/-!
# What the nodes of a tree add

The additions of every node, as a function of the node and its place. There is no draft here and nothing can fail: where
a node cannot be written, the list says nothing of interest. What is read off the list, such as the text, the forward
declarations or the names, is therefore a matter of plain recursion over the tree.

`Lowering.Proofs.Emit.Visit` shows that writing a node adds just this.
-/

namespace Lowering

-- ---------------------------------------------------------------------------
-- Types and literals
-- ---------------------------------------------------------------------------

/-- What has to be asked for before a source type can be used. -/
def typeNeeds (name : String) : List Addition :=
  match Target.primitiveTypes.find? name with
  | none => []
  | some type =>
    type.header.elim [] (fun header => [Addition.header header])
      ++ type.support.elim [] (fun support => (Support.ofName? support).elim [] (fun s => [.support s]))

/-- Nothing of it is on the page. -/
theorem pageText_typeNeeds (name : String) : Addition.pageText (typeNeeds name) = "" := by
  unfold typeNeeds
  split
  · rfl
  · rename_i type _
    cases type.header <;> cases type.support with
    | none => rfl
    | some support =>
      simp only [Option.elim]
      cases Support.ofName? support <;> rfl

/-- The C type of a source type. -/
def typeSpelling (name : String) : String :=
  ((Target.primitiveTypes.find? name).map Target.CType.spelling).getD ""

/-- The name of the type that a literal shows. -/
def Node.literalType? : Node → Option String
  | .number form suffix _ => (resolveNumber form suffix).toOption.map (fun n => n.type.name)
  | .boolean _ _ => some "boolean"
  | .string _ _ => some "string"
  | .paren inner _ => literalType? inner
  | _ => none

/-- The name of the type of a variable: the one it is given, or the one that its value shows. -/
def typeName? (var : TypedName) (value : Option Node) : Option String :=
  match var.type with
  | some type => some type
  | none => value.bind Node.literalType?

/-- The number in place, cast if a suffix asked for a type. -/
def ResolvedNumber.text (n : ResolvedNumber) : String :=
  if n.explicit then "((" ++ typeSpelling n.type.name ++ ")" ++ n.spelling ++ ")" else n.spelling

/-- The end of a line. -/
abbrev Addition.lineEnd (s : String) : Addition :=
  .text (s ++ "\n")

def numberAdditions (form : NumberForm) (suffix : Option String) : List Addition :=
  match resolveNumber form suffix with
  | .ok n => typeNeeds n.type.name ++ [Addition.text n.text]
  | .error _ => []

/-- The expression that stands for a string. -/
def recordText (span : Span) : String :=
  "((nlstring*)&" ++ Literal.recordName span ++ ")"

def stringAdditions (value : String) (span : Span) : List Addition :=
  [.support .string, .symbol (Literal.recordName span) span,
   .forward (Literal.record (Literal.recordName span) value), .text (recordText span)]

-- ---------------------------------------------------------------------------
-- Print calls
-- ---------------------------------------------------------------------------

/-- What has to be asked for before an argument can be printed. -/
def slotNeeds : Node → List Addition
  | .string _ _ => [.support .stringPrint]
  | .number form suffix _ =>
    match resolveNumber form suffix with
    | .ok n => typeNeeds n.type.name ++ n.type.directive.header.elim [] (fun header => [Addition.header header])
    | .error _ => []
  | _ => []

/-- The slot of an argument. -/
def slotOf (index : Nat) : Node → Print.Slot
  | .string _ _ =>
    ⟨"const nlstring* " ++ Print.paramName index, "nlstring_print(" ++ Print.paramName index ++ ");"⟩
  | .number form suffix _ =>
    match resolveNumber form suffix with
    | .ok n =>
      ⟨typeSpelling n.type.name ++ " " ++ Print.paramName index,
       "printf(" ++ n.type.directive.format ++ ", " ++ Print.paramName index ++ ");"⟩
    | .error _ => ⟨"", ""⟩
  | _ => ⟨"", ""⟩

theorem slotNeeds_number (form : NumberForm) (suffix : Option String) (span : Span) :
    slotNeeds (.number form suffix span) = match resolveNumber form suffix with
      | .ok n => typeNeeds n.type.name ++ n.type.directive.header.elim [] (fun header => [Addition.header header])
      | .error _ => [] := rfl

theorem slotOf_number (index : Nat) (form : NumberForm) (suffix : Option String) (span : Span) :
    slotOf index (.number form suffix span) = match resolveNumber form suffix with
      | .ok n =>
        ⟨typeSpelling n.type.name ++ " " ++ Print.paramName index,
         "printf(" ++ n.type.directive.format ++ ", " ++ Print.paramName index ++ ");"⟩
      | .error _ => ⟨"", ""⟩ := rfl

/-- The slots of the arguments from a given index on. -/
def slotsFrom : Nat → List Node → List Print.Slot
  | _, [] => []
  | index, arg :: rest => slotOf index arg :: slotsFrom (index + 1) rest

/-- Additions with commas between them. -/
def commaSeparated : List (List Addition) → List Addition
  | [] => []
  | [as] => as
  | as :: rest => as ++ [Addition.text ", "] ++ commaSeparated rest

/-- A print call with its arguments, and what these add. -/
def printAdditions (p : Place) (span : Span) (args : List Node) (parts : List (List Addition)) : List Addition :=
  let name := Print.helperName span
  let slots := slotsFrom 1 args
  [Addition.symbol name span] ++ args.flatMap slotNeeds ++
    [Addition.header "stdio.h", .forward (Print.signature name slots ++ ";\n"),
     .helper (Print.helper p.width name slots), .text (name ++ "(")] ++
    commaSeparated parts ++ [Addition.text ")"]

-- ---------------------------------------------------------------------------
-- Operators
-- ---------------------------------------------------------------------------

/-- Parentheses around an operand. -/
def Place.wrapped (p : Place) (as : List Addition) : List Addition :=
  if p.inOperator then [Addition.text "("] ++ as ++ [Addition.text ")"] else as

/-- What is written before the operand. -/
def unaryMark (op : String) : String :=
  ((UnaryOp.ofName? op).bind UnaryOp.spelling?).getD ""

/-- What is written between the operands. -/
def binaryMark (op : String) : String :=
  ((BinaryOp.ofName? op).bind BinaryOp.spelling?).getD ""

/-- What is written between the three operands. -/
def ternaryMarks (op : String) : String × String :=
  ((TernaryOp.ofName? op).bind TernaryOp.spelling?).getD ("", "")

-- ---------------------------------------------------------------------------
-- Statements
-- ---------------------------------------------------------------------------

namespace Place

/-- A line that opens a block under a condition. -/
def guarded (p : Place) (before : String) (guard : List Addition) (after : String) : List Addition :=
  [Addition.text p.indentation, .text before] ++ guard ++ [Addition.lineEnd after]

/-- A block between braces. -/
def braced (p : Place) (block : List Addition) : List Addition :=
  p.line "\x7b" ++ block ++ p.line "\x7d"

/-- The place of a statement of a block. -/
def ofStatement (p : Place) (statement : Node) : Place :=
  if statement.tag = .block then p.deeper else p

/-- A statement of a block. -/
def statement (p : Place) (node : Node) (as : List Addition) : List Addition :=
  if node.tag.isExpression then [Addition.text p.indentation] ++ as ++ [Addition.lineEnd ";"]
  else if node.tag = .block then p.braced as
  else as

/-- The place of the statements of a block. -/
def inBlock (p : Place) : Place :=
  if p.outermost then p.deeper.enter .top else p.enter .nested

/-- A block from what its statements add. -/
def block (p : Place) (statements : List Addition) : List Addition :=
  if p.outermost then
    [Addition.lineEnd "int main() \x7b"] ++ Addition.closed statements
      ++ (if .returned ∈ statements then [] else p.inBlock.line "return 0;") ++ [Addition.lineEnd "\x7d"]
  else Addition.closed statements

/-- A return. -/
def ret (p : Place) (values : List (List Addition)) : List Addition :=
  [Addition.text p.indentation]
    ++ (match values with
        | [] => [Addition.lineEnd (if p.inMain then "return 0;" else "return;")]
        | value :: _ => [Addition.text "return "] ++ value ++ [Addition.lineEnd ";"])
    ++ [Addition.returned]

/-- A branch of a conditional. -/
def branch (p : Place) (before : String) (arm : Arm (List Addition)) : List Addition :=
  p.guarded before arm.guard ") \x7b" ++ arm.body

/-- The last branch of a conditional, if there is one. -/
def otherwise (p : Place) : Option (List Addition) → List Addition
  | none => []
  | some block => p.line "\x7d else \x7b" ++ block

/-- A conditional. -/
def cond (p : Place) (branches : List (Arm (List Addition))) (otherwise : Option (List Addition)) : List Addition :=
  match branches with
  | [] => []
  | first :: rest =>
    p.branch "if (" first ++ rest.flatMap (p.branch "\x7d else if (") ++ p.otherwise otherwise ++ p.line "\x7d"

/-- The body of a switch arm. -/
def armBody (p : Place) (block : List Addition) : List Addition :=
  block ++ p.deeper.line "break;" ++ p.line "\x7d"

/-- An arm of a switch. -/
def switchArm (p : Place) (arm : Arm (List Addition)) : List Addition :=
  p.guarded "case " arm.guard ": \x7b" ++ p.armBody arm.body

/-- The last arm of a switch, if there is one. -/
def defaultArm (p : Place) : Option (List Addition) → List Addition
  | none => []
  | some block => p.line "default: \x7b" ++ p.armBody block

/-- A switch. -/
def switch (p : Place) (subject : List Addition) (cases : List (Arm (List Addition)))
    (otherwise : Option (List Addition)) : List Addition :=
  p.guarded "switch (" subject ") \x7b" ++ cases.flatMap p.deeper.switchArm ++ p.deeper.defaultArm otherwise
    ++ p.line "\x7d"

/-- A loop that tests its condition first. -/
def whileLoop (p : Place) (guard body : List Addition) : List Addition :=
  p.guarded "while (" guard ") \x7b" ++ body ++ p.line "\x7d"

/-- A loop that tests its condition last. -/
def repeatLoop (p : Place) (body guard : List Addition) : List Addition :=
  p.line "do \x7b" ++ body ++ p.guarded "\x7d while (!(" guard "));"

end Place

/-- One more declarator of a loop header. -/
def declaratorAdditions (name : String) (value : List Addition) : List Addition :=
  [Addition.text (", " ++ name ++ " = ")] ++ value

/-- The step of a loop header, if there is one. -/
def stepAdditions (name : String) : Option (List Addition) → List Addition
  | none => []
  | some step => declaratorAdditions (Loop.temporary name "step") step

/-- The expression that steps a loop variable. -/
def increment (name : String) (hasStep : Bool) : String :=
  if hasStep then name ++ " += " ++ Loop.temporary name "step" else "++" ++ name

namespace Place

/-- A numeric loop over the C variable `name` of the given source type. -/
def forNum (p : Place) (type name : String) (first last : List Addition) (step : Option (List Addition))
    (body : List Addition) : List Addition :=
  typeNeeds type
    ++ [Addition.text p.indentation,
        .text ("for (" ++ typeSpelling type ++ " " ++ Loop.temporary name "begin" ++ " = ")]
    ++ first ++ declaratorAdditions (Loop.temporary name "end") last ++ stepAdditions name step
    ++ [Addition.text (", " ++ name ++ " = " ++ Loop.temporary name "begin"),
        .text ("; " ++ name ++ " <= " ++ Loop.temporary name "end" ++ "; " ++ increment name step.isSome),
        .lineEnd ") \x7b"]
    ++ body ++ p.line "\x7d"

/-- The declaration of one variable. -/
def declareVariable (p : Place) (qualifier : String) (var : TypedName) (value : Option (Node × List Addition)) :
    List Addition :=
  let type := (typeName? var (value.map Prod.fst)).getD ""
  typeNeeds type
    ++ [Addition.text p.indentation,
        .text (typeSpelling type ++ qualifier ++ " " ++ Target.escapeName var.name ++ " = ")]
    ++ (match value with
        | some v => v.2 ++ [Addition.lineEnd ";"]
        | none => [Addition.lineEnd "\x7b0\x7d;"])

/-- The declarations of variables, each with its value as long as there are values. -/
def declareVariables (p : Place) (qualifier : String) : List TypedName → List (Node × List Addition) → List Addition
  | [], _ => []
  | var :: vars, [] => p.declareVariable qualifier var none ++ p.declareVariables qualifier vars []
  | var :: vars, value :: values =>
    p.declareVariable qualifier var (some value) ++ p.declareVariables qualifier vars values

/-- One assignment after the other. -/
def stores (p : Place) : List (List Addition) → List (List Addition) → List Addition
  | target :: targets, value :: values =>
    [Addition.text p.indentation] ++ target ++ [Addition.text " = "] ++ value ++ [Addition.lineEnd ";"]
      ++ p.stores targets values
  | _, _ => []

/-- The place of the body of a function. -/
def inFunction (p : Place) : Place :=
  p.onNewPage.deeper.enter .function

end Place

/-- The C type that a function returns. -/
def resultSpelling : List String → String
  | [] => "void"
  | type :: _ => typeSpelling type

/-- The signature of a function. -/
def functionSignature (name : String) (params : List TypedName) (returns : List String) : String :=
  Target.signature (resultSpelling returns) (Target.escapeName name)
    (params.map (fun p => typeSpelling (p.type.getD "") ++ " " ++ Target.escapeName p.name))

/-- A function from what its body adds. -/
def functionAdditions (name : String) (params : List TypedName) (returns : List String) (body : List Addition) :
    List Addition :=
  let signature := functionSignature name params returns
  returns.flatMap typeNeeds ++ params.flatMap (fun p => typeNeeds (p.type.getD ""))
    ++ [Addition.forward (signature ++ ";\n")] ++ Addition.filed body
    ++ [Addition.function signature (Addition.pageText body)]

-- ---------------------------------------------------------------------------
-- Nodes
-- ---------------------------------------------------------------------------

namespace Node

mutual

/-- What the writing of a node adds. -/
def additions (p : Place) : Node → List Addition
  | .number form suffix _ => numberAdditions form suffix
  | .string value span => stringAdditions value span
  | .boolean value _ => [Addition.header "stdbool.h", .text (if value then "true" else "false")]
  | .nil _ => [Addition.header "stddef.h", .text "NULL"]
  | .varargs _ => []
  | .id name _ => [Addition.text (Target.escapeName name)]
  | .paren inner _ => [Addition.text "("] ++ additions (p.descend .paren) inner ++ [Addition.text ")"]
  | .dotIndex base field _ => additions (p.descend .dotIndex) base ++ [Addition.text ("." ++ Target.escapeName field)]
  | .arrayIndex base index _ =>
    additions (p.descend .arrayIndex) base ++ [Addition.text "["] ++ additions (p.descend .arrayIndex) index
      ++ [Addition.text "]"]
  | .call callee args span =>
    match Expression.intrinsic? callee with
    | some .print => printAdditions p span args (additionsAll (p.descend .call) args)
    | none =>
      additions (p.descend .call) callee ++ [Addition.text "("] ++ commaSeparated (additionsAll (p.descend .call) args)
        ++ [Addition.text ")"]
  | .unaryOp op operand _ =>
    (p.descend .unaryOp).wrapped ([Addition.text (unaryMark op)] ++ additions (p.descend .unaryOp) operand)
  | .binaryOp op lhs rhs _ =>
    (p.descend .binaryOp).wrapped
      (additions (p.descend .binaryOp) lhs ++ [Addition.text (" " ++ binaryMark op ++ " ")]
        ++ additions (p.descend .binaryOp) rhs)
  | .ternaryOp op first second third _ =>
    (p.descend .ternaryOp).wrapped
      (additions (p.descend .ternaryOp) second ++ [Addition.text (" " ++ (ternaryMarks op).1 ++ " ")]
        ++ additions (p.descend .ternaryOp) first ++ [Addition.text (" " ++ (ternaryMarks op).2 ++ " ")]
        ++ additions (p.descend .ternaryOp) third)
  | .block statements _ =>
    (p.descend .block).block (statementsAdditions (p.descend .block).inBlock statements)
  | .ret values _ => (p.descend .ret).ret (additionsAll (p.descend .ret) values)
  | .cond branches otherwise _ =>
    (p.descend .cond).cond (additionsArms (p.descend .cond) branches)
      (additionsOption (p.descend .cond).deeper otherwise)
  | .switch subject cases otherwise _ =>
    (p.descend .switch).switch (additions (p.descend .switch) subject)
      (additionsArms (p.descend .switch).deeper cases) (additionsOption (p.descend .switch).deeper.deeper otherwise)
  | .scoped body _ => (p.descend .scoped).braced (additions (p.descend .scoped).deeper body)
  | .whileLoop guard body _ =>
    (p.descend .whileLoop).whileLoop (additions (p.descend .whileLoop) guard)
      (additions (p.descend .whileLoop).deeper body)
  | .repeatLoop body guard _ =>
    (p.descend .repeatLoop).repeatLoop (additions (p.descend .repeatLoop).deeper body)
      (additions (p.descend .repeatLoop) guard)
  | .forNum var first _ last step body _ =>
    (p.descend .forNum).forNum ((typeName? var (some first)).getD "") (Target.escapeName var.name)
      (additions (p.descend .forNum) first) (additions (p.descend .forNum) last)
      (additionsOption (p.descend .forNum) step) (additions (p.descend .forNum).deeper body)
  | .forIn _ _ _ _ => []
  | .breakLoop _ => p.line "break;"
  | .continueLoop _ => p.line "continue;"
  | .label name _ => p.line (Target.escapeName name ++ ":;")
  | .goto target _ => p.line ("goto " ++ Target.escapeName target ++ ";")
  | .varDecl _ mutability vars values _ =>
    (p.descend .varDecl).declareVariables ((Declaration.qualifier? mutability).getD "") vars
      (values.zip (additionsAll (p.descend .varDecl) values))
  | .assign targets values _ =>
    (p.descend .assign).stores (additionsAll (p.descend .assign) targets) (additionsAll (p.descend .assign) values)
  | .funcDef _ name params returns body _ =>
    functionAdditions name params returns (additions (p.descend .funcDef).inFunction body)

/-- What each of several nodes adds. -/
def additionsAll (p : Place) : List Node → List (List Addition)
  | [] => []
  | n :: rest => additions p n :: additionsAll p rest

/-- What a node adds, if there is one. -/
def additionsOption (p : Place) : Option Node → Option (List Addition)
  | none => none
  | some n => some (additions p n)

/-- What guarded parts add, their bodies one level further in. -/
def additionsArms (p : Place) : List (Arm Node) → List (Arm (List Addition))
  | [] => []
  | ⟨guard, body⟩ :: rest => ⟨additions p guard, additions p.deeper body⟩ :: additionsArms p rest

/-- What the statements of a block add. -/
def statementsAdditions (p : Place) : List Node → List Addition
  | [] => []
  | n :: rest => p.statement n (additions (p.ofStatement n) n) ++ statementsAdditions p rest

end

theorem additionsAll_eq (p : Place) (ns : List Node) : additionsAll p ns = ns.map (additions p) := by
  induction ns with
  | nil => rfl
  | cons n rest ih => rw [additionsAll, ih, List.map_cons]

theorem additionsOption_eq (p : Place) (o : Option Node) : additionsOption p o = o.map (additions p) := by
  cases o <;> rfl

theorem additionsArms_eq (p : Place) (arms : List (Arm Node)) :
    additionsArms p arms = arms.map (fun a => ⟨additions p a.guard, additions p.deeper a.body⟩) := by
  induction arms with
  | nil => rfl
  | cons a rest ih => rw [additionsArms, ih, List.map_cons]

theorem forall_mem_additionsAll {P : List Addition → Prop} {p : Place} {ns : List Node} :
    (∀ as ∈ additionsAll p ns, P as) ↔ ∀ n ∈ ns, P (additions p n) := by
  rw [additionsAll_eq, List.forall_mem_map]

theorem forall_mem_additionsOption {P : List Addition → Prop} {p : Place} {o : Option Node} :
    (∀ as ∈ additionsOption p o, P as) ↔ ∀ n ∈ o, P (additions p n) := by
  cases o <;> simp [additionsOption]

theorem forall_mem_additionsArms {P : Arm (List Addition) → Prop} {p : Place} {arms : List (Arm Node)} :
    (∀ a ∈ additionsArms p arms, P a) ↔ ∀ a ∈ arms, P ⟨additions p a.guard, additions p.deeper a.body⟩ := by
  rw [additionsArms_eq, List.forall_mem_map]

theorem statementsAdditions_eq (p : Place) (ns : List Node) :
    statementsAdditions p ns = ns.flatMap (fun n => p.statement n (additions (p.ofStatement n) n)) := by
  induction ns with
  | nil => rfl
  | cons n rest ih => rw [statementsAdditions, ih, List.flatMap_cons]

end Node

end Lowering
