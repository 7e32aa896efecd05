import Lowering.Json.Writer
import Lowering.Tree.Node

/-!
# Writing trees

A tree as JSON: every node an object with its tag first, then all fields of its kind in their declared order, those that
have their default value too, and its span last.
-/

namespace Lowering

/-- A span as an object. -/
def Span.toJson (s : Span) : Json :=
  .object [("start", .ofNat s.start), ("end", .ofNat s.stop)]

/-- A value that may be missing, as itself or null. -/
def Json.ofOption (o : Option String) : Json :=
  match o with
  | none => .null
  | some s => .string s

/-- A typed name as an object. -/
def TypedName.toJson (t : TypedName) : Json :=
  .object [("name", .string t.name), ("ty", .ofOption t.type)]

/-- The form of a number as an object with one member. -/
def NumberForm.toJson : NumberForm → Json
  | .integer digits => .object [("integer", .string digits)]
  | .decimal digits => .object [("decimal", .string digits)]
  | .scientific mantissa exponent =>
    .object [("scientific", .object [("mantissa", .string mantissa), ("exponent", .string exponent)])]
  | .hex digits => .object [("hex", .string digits)]
  | .binary digits => .object [("binary", .string digits)]

/-- The word for a visibility. -/
def Visibility.word : Visibility → String
  | .scoped => "local"
  | .global => "global"

/-- The word for a mutability. -/
def Mutability.word : Mutability → String
  | .mutable => "var"
  | .constant => "const"
  | .immutable => "let"

namespace Node

mutual

/-- A tree as JSON. -/
def toJson (node : Node) : Json :=
  let fields : List (String × Json) :=
    match node with
    | .number form suffix _ => [("form", form.toJson), ("suffix", .ofOption suffix)]
    | .string value _ => [("value", .string value)]
    | .boolean value _ => [("value", .bool value)]
    | .id name _ => [("name", .string name)]
    | .paren inner _ => [("expr", inner.toJson)]
    | .dotIndex base field _ => [("expr", base.toJson), ("name", .string field)]
    | .arrayIndex base index _ => [("expr", base.toJson), ("index", index.toJson)]
    | .call callee args _ => [("callee", callee.toJson), ("args", .array (allToJson args))]
    | .unaryOp op operand _ => [("op", .string op), ("expr", operand.toJson)]
    | .binaryOp op lhs rhs _ => [("op", .string op), ("lhs", lhs.toJson), ("rhs", rhs.toJson)]
    | .ternaryOp op first second third _ =>
      [("op", .string op), ("first", first.toJson), ("second", second.toJson), ("third", third.toJson)]
    | .block statements _ => [("statements", .array (allToJson statements))]
    | .ret values _ => [("values", .array (allToJson values))]
    | .cond branches otherwise _ =>
      [("branches", .array (armsToJson "cond" branches)), ("else_block", optionToJson otherwise)]
    | .switch subject cases otherwise _ =>
      [("value", subject.toJson), ("cases", .array (armsToJson "value" cases)), ("default", optionToJson otherwise)]
    | .scoped body _ => [("block", body.toJson)]
    | .whileLoop guard body _ => [("cond", guard.toJson), ("block", body.toJson)]
    | .repeatLoop body guard _ => [("block", body.toJson), ("cond", guard.toJson)]
    | .forNum var first comparator last step body _ =>
      [("var", var.toJson), ("begin", first.toJson), ("comparator", .ofOption comparator), ("end", last.toJson),
       ("step", optionToJson step), ("block", body.toJson)]
    | .forIn vars exprs body _ =>
      [("vars", .array (vars.map TypedName.toJson)), ("exprs", .array (allToJson exprs)), ("block", body.toJson)]
    | .label name _ => [("name", .string name)]
    | .goto target _ => [("label", .string target)]
    | .varDecl visibility mutability vars values _ =>
      [("scope", .string visibility.word), ("mutability", .string mutability.word),
       ("vars", .array (vars.map TypedName.toJson)), ("values", .array (allToJson values))]
    | .assign targets values _ => [("targets", .array (allToJson targets)), ("values", .array (allToJson values))]
    | .funcDef visibility name params returns body _ =>
      [("scope", .string visibility.word), ("name", .string name), ("params", .array (params.map TypedName.toJson)),
       ("returns", .array (returns.map Json.string)), ("block", body.toJson)]
    | .nil _ | .varargs _ | .breakLoop _ | .continueLoop _ => []
  .object (("tag", .string node.tag.name) :: fields ++ [("span", node.span.toJson)])

/-- Trees as JSON. -/
def allToJson : List Node → List Json
  | [] => []
  | n :: rest => n.toJson :: allToJson rest

/-- A tree that may be missing, as itself or null. -/
def optionToJson : Option Node → Json
  | none => .null
  | some n => n.toJson

/-- Guarded parts as objects, the guard under the given name. -/
def armsToJson (guardName : String) : List (Arm Node) → List Json
  | [] => []
  | ⟨guard, body⟩ :: rest =>
    .object [(guardName, guard.toJson), ("block", body.toJson)] :: armsToJson guardName rest

end

/-- A tree as a JSON text. -/
def render (node : Node) : String :=
  node.toJson.render

end Node

end Lowering
