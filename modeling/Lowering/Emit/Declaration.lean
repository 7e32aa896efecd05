import Lowering.Emit.Literal
import Lowering.Target.Name

/-!
# Declarations

Declared variables, one line for each. A variable without a type gets the type of its value, which must then be a
literal.
-/

namespace Lowering.Declaration

open Gen

/-- The C type of a declared variable: the one it is given, or that of its first value. -/
def variableType (var : TypedName) (value : Option Part) (span : Span) : Gen String :=
  match var.type with
  | some type => cType type span
  | none => do
    let inferred ←
      match value with
      | some v => Literal.type? v.node
      | none => pure none
    orFail inferred span (.untypedVariable var.name)

/-- Writes the declaration of one variable. Without a value it is initialised to zero. -/
def declareVariable (qualifier : String) (span : Span) (var : TypedName) (value : Option Part) : Gen Unit := do
  let type ← variableType var value span
  writeIndent
  write (type ++ qualifier ++ " " ++ Target.escapeName var.name ++ " = ")
  match value with
  | some v =>
    v.emit
    writeLine ";"
  | none => writeLine "\x7b0\x7d;"

/-- Writes the declarations of variables, each with its value as long as there are values. -/
def declareVariables (qualifier : String) (span : Span) : List TypedName → List Part → Gen Unit
  | [], _ => pure ()
  | var :: vars, [] => do
    declareVariable qualifier span var none
    declareVariables qualifier span vars []
  | var :: vars, value :: values => do
    declareVariable qualifier span var (some value)
    declareVariables qualifier span vars values

/-- What C writes after the type of a variable of a given mutability. -/
def qualifier? : Mutability → Option String
  | .mutable => some ""
  | .constant => some " const"
  | .immutable => none

/-- Writes a declaration. It has no values at all, or one for each variable. -/
def emit (visibility : Visibility) (mutability : Mutability) (vars : List TypedName) (values : List Part)
    (span : Span) : Gen Unit := do
  if visibility = .global then
    fail span .globalVariables
  let qualifier ← orFail (qualifier? mutability) span .immutableDeclarations
  if !values.isEmpty && values.length ≠ vars.length then
    fail span (.declarationCount vars.length values.length)
  declareVariables qualifier span vars values

end Lowering.Declaration
