import Lowering.Json.Reader
import Lowering.Json.Record
import Lowering.Tree.Node

/-!
# Reading trees

A tree is read from a JSON text. A node is an object with a `tag`, a `span` and the fields of its kind, in any order;
members of other names are passed over, and no member that counts may be repeated. Spans, typed names, branches, cases
and scientific numbers may also be written as arrays.

Arrays and objects nest at most `maxDepth` deep, also in what is passed over. The one place that is not looked into at
all is a member of the root's own span that is neither of its bounds.
-/

namespace Lowering

open Json

/-- The deepest nesting of arrays and objects in a tree text. -/
def maxDepth : Nat := 127

namespace Span

/-- Reads a span. -/
def ofJson? (j : Json) : Option Span := do
  match ← j.fields? ["start", "end"] with
  | [some start, some stop] => return ⟨← start.word?, ← stop.word?⟩
  | _ => none

end Span

namespace TypedName

/-- Reads a typed name. -/
def ofJson? (j : Json) : Option TypedName := do
  match ← j.fields? ["name", "ty"] with
  | [some name, none] => return ⟨← name.string?, none⟩
  | [some name, some type] => return ⟨← name.string?, ← nullable string? type⟩
  | _ => none

end TypedName

namespace Arm

/-- Reads a guarded part, whose guard has the given field name. -/
def ofJson? (guardName : String) (node : Json → Option Node) (j : Json) : Option (Arm Node) := do
  match ← j.fields? [guardName, "block"] with
  | [some guard, some body] => return ⟨← node guard, ← node body⟩
  | _ => none

end Arm

namespace NumberForm

/-- Reads the form of a number, an object with one member. -/
def ofJson? : Json → Option NumberForm
  | .object [("integer", digits)] => digits.string?.map .integer
  | .object [("decimal", digits)] => digits.string?.map .decimal
  | .object [("hex", digits)] => digits.string?.map .hex
  | .object [("binary", digits)] => digits.string?.map .binary
  | .object [("scientific", parts)] => do
    match ← parts.fields? ["mantissa", "exponent"] with
    | [some mantissa, some exponent] => return .scientific (← mantissa.string?) (← exponent.string?)
    | _ => none
  | _ => none

end NumberForm

namespace Visibility

/-- Reads a visibility. -/
def ofJson? : Json → Option Visibility
  | .string "local" => some .scoped
  | .string "global" => some .global
  | _ => none

end Visibility

namespace Mutability

/-- Reads a mutability. -/
def ofJson? : Json → Option Mutability
  | .string "var" => some .mutable
  | .string "const" => some .constant
  | .string "let" => some .immutable
  | _ => none

end Mutability

namespace Node

/-- Reads the fields of a node of the given kind, where `node` reads the nodes below it. -/
def ofMembers? (node : Json → Option Node) (members : Members) (tag : Tag) (span : Span) : Option Node :=
  match tag with
  | .number => do
    let form ← members.required "form" NumberForm.ofJson?
    let suffix ← members.optional "suffix" string?
    return .number form suffix span
  | .string => do
    let value ← members.required "value" string?
    return .string value span
  | .boolean => do
    let value ← members.required "value" bool?
    return .boolean value span
  | .nil => return .nil span
  | .varargs => return .varargs span
  | .id => do
    let name ← members.required "name" string?
    return .id name span
  | .paren => do
    let inner ← members.required "expr" node
    return .paren inner span
  | .dotIndex => do
    let base ← members.required "expr" node
    let field ← members.required "name" string?
    return .dotIndex base field span
  | .arrayIndex => do
    let base ← members.required "expr" node
    let index ← members.required "index" node
    return .arrayIndex base index span
  | .call => do
    let callee ← members.required "callee" node
    let args ← members.withDefault "args" [] (list? node)
    return .call callee args span
  | .unaryOp => do
    let op ← members.required "op" string?
    let operand ← members.required "expr" node
    return .unaryOp op operand span
  | .binaryOp => do
    let op ← members.required "op" string?
    let lhs ← members.required "lhs" node
    let rhs ← members.required "rhs" node
    return .binaryOp op lhs rhs span
  | .ternaryOp => do
    let op ← members.required "op" string?
    let first ← members.required "first" node
    let second ← members.required "second" node
    let third ← members.required "third" node
    return .ternaryOp op first second third span
  | .block => do
    let statements ← members.withDefault "statements" [] (list? node)
    return .block statements span
  | .ret => do
    let values ← members.withDefault "values" [] (list? node)
    return .ret values span
  | .cond => do
    let branches ← members.required "branches" (list? (Arm.ofJson? "cond" node))
    let otherwise ← members.optional "else_block" node
    return .cond branches otherwise span
  | .switch => do
    let subject ← members.required "value" node
    let cases ← members.withDefault "cases" [] (list? (Arm.ofJson? "value" node))
    let otherwise ← members.optional "default" node
    return .switch subject cases otherwise span
  | .scoped => do
    let body ← members.required "block" node
    return .scoped body span
  | .whileLoop => do
    let guard ← members.required "cond" node
    let body ← members.required "block" node
    return .whileLoop guard body span
  | .repeatLoop => do
    let body ← members.required "block" node
    let guard ← members.required "cond" node
    return .repeatLoop body guard span
  | .forNum => do
    let var ← members.required "var" TypedName.ofJson?
    let first ← members.required "begin" node
    let comparator ← members.optional "comparator" string?
    let last ← members.required "end" node
    let step ← members.optional "step" node
    let body ← members.required "block" node
    return .forNum var first comparator last step body span
  | .forIn => do
    let vars ← members.required "vars" (list? TypedName.ofJson?)
    let exprs ← members.required "exprs" (list? node)
    let body ← members.required "block" node
    return .forIn vars exprs body span
  | .breakLoop => return .breakLoop span
  | .continueLoop => return .continueLoop span
  | .label => do
    let name ← members.required "name" string?
    return .label name span
  | .goto => do
    let label ← members.required "label" string?
    return .goto label span
  | .varDecl => do
    let visibility ← members.withDefault "scope" .scoped Visibility.ofJson?
    let mutability ← members.withDefault "mutability" .mutable Mutability.ofJson?
    let vars ← members.required "vars" (list? TypedName.ofJson?)
    let values ← members.withDefault "values" [] (list? node)
    return .varDecl visibility mutability vars values span
  | .assign => do
    let targets ← members.required "targets" (list? node)
    let values ← members.required "values" (list? node)
    return .assign targets values span
  | .funcDef => do
    let visibility ← members.withDefault "scope" .scoped Visibility.ofJson?
    let name ← members.required "name" string?
    let params ← members.withDefault "params" [] (list? TypedName.ofJson?)
    let returns ← members.withDefault "returns" [] (list? string?)
    let body ← members.required "block" node
    return .funcDef visibility name params returns body span

/-- Reads a tree with at most the given number of nodes on any way down. -/
def ofJson? : Nat → Json → Option Node
  | levels + 1, .object members => do
    let tag ← Members.required members "tag" (fun j => j.string?.bind Tag.ofName?)
    let span ← Members.required members "span" Span.ofJson?
    ofMembers? (ofJson? levels) members tag span
  | _, _ => none

/-- Blots out the members of a span that are not its bounds. -/
def blotSpan : Json → Json
  | .object members =>
    .object (members.map (fun m => if m.1 = "start" || m.1 = "end" then m else (m.1, .null)))
  | j => j

/-- Blots out what is not looked into at all: the members of the root's span that are not its bounds. -/
def blotRoot : Json → Json
  | .object members => .object (members.map (fun m => if m.1 = "span" then (m.1, blotSpan m.2) else m))
  | j => j

/-- Reads the tree of a JSON value that keeps to the limits. -/
def ofLimitedJson? (j : Json) : Option Node :=
  if j.readable && decide (j.depth ≤ maxDepth) then ofJson? maxDepth j else none

/-- Reads the tree of a JSON text. -/
def parse? (text : String) : Option Node :=
  (Json.parse? text).bind (fun j => ofLimitedJson? (blotRoot j))

end Node

end Lowering
