import Lowering.Emit.Assignment
import Lowering.Emit.Block
import Lowering.Emit.Branch
import Lowering.Emit.Declaration
import Lowering.Emit.Expression
import Lowering.Emit.Function
import Lowering.Emit.Jump
import Lowering.Emit.Loop
import Lowering.Emit.Registry

/-!
# Writing a tree

The recursion over the tree. A node is written in the way that the registry has for its kind, with its own kind put at
the front of the lineage for as long as that takes. The standard way of a kind is given by the module on its construct;
here it is only handed its parts.
-/

namespace Lowering

open Gen

/-- What the standard way of one kind does with a node of another kind: most ways refuse it, and those that never look at
the node itself do not notice. -/
def mismatch (expected : Tag) (node : Node) : Gen Unit :=
  match expected with
  | .nil => Literal.null
  | .varargs => fail node.span .varargs
  | .forIn => fail node.span .forIn
  | .breakLoop => Jump.leaveLoop
  | .continueLoop => Jump.nextRound
  | tag => fail node.span (.wrongNode tag node.tag)

/-- Runs a way of writing on a node, where `own` is the standard way of the node's own kind. -/
def Handler.run (h : Handler) (node : Node) (own : Gen Unit) : Gen Unit :=
  match h with
  | .standard tag => if tag = node.tag then own else mismatch tag node
  | .rule act => fun d =>
    match act node d with
    | (page, none) => .ok () { d with page }
    | (page, some fault) => .error fault { d with page }

/-- Notes that a node is about to be written. -/
def noteDispatch (node : Node) : Gen Unit :=
  modify (fun d => d.note (.dispatch node (d.site.descend node.tag)))

/-- Writes a node in the way registered for its kind. -/
def dispatch (r : Registry) (node : Node) (own : Gen Unit) : Gen Unit :=
  match r.find? node.tag with
  | none => fail node.span (.unregistered node.tag)
  | some h => do
    noteDispatch node
    below node.tag (h.run node own)

mutual

/-- Writes a node. -/
def visit (r : Registry) (node : Node) : Gen Unit :=
  dispatch r node <|
    match node with
    | .number form suffix span => Literal.number form suffix span
    | .string value span => Literal.string value span
    | .boolean value _ => Literal.boolean value
    | .nil _ => Literal.null
    | .varargs span => fail span .varargs
    | .id name _ => Expression.name name
    | .paren inner _ => Expression.paren ⟨inner, visit r inner⟩
    | .dotIndex base field _ => Expression.field ⟨base, visit r base⟩ field
    | .arrayIndex base index _ => Expression.element ⟨base, visit r base⟩ ⟨index, visit r index⟩
    | .call callee args span => Expression.call ⟨callee, visit r callee⟩ (visitAll r args) span
    | .unaryOp op operand span => Expression.unary op ⟨operand, visit r operand⟩ span
    | .binaryOp op lhs rhs span => Expression.binary op ⟨lhs, visit r lhs⟩ ⟨rhs, visit r rhs⟩ span
    | .ternaryOp op first second third span =>
      Expression.ternary op ⟨first, visit r first⟩ ⟨second, visit r second⟩ ⟨third, visit r third⟩ span
    | .block statements span => Block.emit (visitAll r statements) span
    | .ret values span => Jump.ret (visitAll r values) span
    | .cond branches otherwise span => Branch.cond (visitArms r branches) (visitOption r otherwise) span
    | .switch subject cases otherwise _ =>
      Branch.switch ⟨subject, visit r subject⟩ (visitArms r cases) (visitOption r otherwise)
    | .scoped body _ => Block.braced ⟨body, visit r body⟩
    | .whileLoop guard body _ => Loop.whileLoop ⟨guard, visit r guard⟩ ⟨body, visit r body⟩
    | .repeatLoop body guard _ => Loop.repeatLoop ⟨body, visit r body⟩ ⟨guard, visit r guard⟩
    | .forNum var first comparator last step body span =>
      Loop.forNum var ⟨first, visit r first⟩ comparator ⟨last, visit r last⟩ (visitOption r step)
        ⟨body, visit r body⟩ span
    | .forIn _ _ _ span => fail span .forIn
    | .breakLoop _ => Jump.leaveLoop
    | .continueLoop _ => Jump.nextRound
    | .label name _ => Jump.label name
    | .goto label _ => Jump.goto label
    | .varDecl visibility mutability vars values span =>
      Declaration.emit visibility mutability vars (visitAll r values) span
    | .assign targets values span => Assignment.emit (visitAll r targets) (visitAll r values) span
    | .funcDef visibility name params returns body span =>
      FunctionDef.emit visibility name params returns ⟨body, visit r body⟩ span

/-- Nodes with the steps that write them. -/
def visitAll (r : Registry) : List Node → List Part
  | [] => []
  | n :: rest => ⟨n, visit r n⟩ :: visitAll r rest

/-- A node, if there is one, with the step that writes it. -/
def visitOption (r : Registry) : Option Node → Option Part
  | none => none
  | some n => some ⟨n, visit r n⟩

/-- Guarded parts with the steps that write them. -/
def visitArms (r : Registry) : List (Arm Node) → List (Arm Part)
  | [] => []
  | ⟨guard, body⟩ :: rest => ⟨⟨guard, visit r guard⟩, ⟨body, visit r body⟩⟩ :: visitArms r rest

end

end Lowering
