import Lowering.Emit.Part
import Lowering.Target.Name
import Lowering.Target.Signature

/-!
# Functions

A local function becomes a C function of the file. Its prototype goes to the forward declarations, so that it can be called
before it is defined; its body is written on a page of its own.
-/

namespace Lowering.FunctionDef

open Gen

/-- The C type that a function returns. -/
def returnType (returns : List String) (span : Span) : Gen String :=
  match returns with
  | [] => pure "void"
  | [type] => cType type span
  | _ => fail span .multipleReturns

/-- A parameter of a function as it is written in C. -/
def param (span : Span) (p : TypedName) : Gen String := do
  let type ← orFail p.type span (.untypedParameter p.name)
  let spelling ← cType type span
  return spelling ++ " " ++ Target.escapeName p.name

/-- Writes a function: its prototype among the forward declarations, and its definition. -/
def emit (visibility : Visibility) (name : String) (params : List TypedName) (returns : List String) (body : Part)
    (span : Span) : Gen Unit := do
  if visibility = .global then
    fail span .globalFunctions
  if !(← site).isTop then
    fail span .nestedFunctions
  let result ← returnType returns span
  let spelled ← params.mapM (param span)
  let signature := Target.signature result (Target.escapeName name) spelled
  note (.function name)
  addTo .forwardDeclarations (signature ++ ";\n")
  let page ← onOwnPage do
    writeLine (signature ++ " \x7b")
    onPage Page.indent
    inScope .function span body.emit
    onPage Page.dedent
    writeLine "\x7d"
  addDefinition page.text

end Lowering.FunctionDef
