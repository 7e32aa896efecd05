import Lowering.Emit.Literal
import Lowering.Target.Name

/-!
# Loops

Loops that test a condition, and the numeric loop, which counts up to and including its last value.
-/

namespace Lowering.Loop

open Gen

/-- Writes a loop that tests its condition first. -/
def whileLoop (guard body : Part) : Gen Unit := do
  guarded "while (" guard ") \x7b"
  indented body.emit
  writeIndentedLine "\x7d"

/-- Writes a loop that runs until its condition holds, tested last. -/
def repeatLoop (body guard : Part) : Gen Unit := do
  writeIndentedLine "do \x7b"
  indented body.emit
  guarded "\x7d while (!(" guard "));"

/-- The only comparison of a numeric loop is the inclusive upper bound. -/
def isInclusive (comparator : String) : Bool :=
  BinaryOp.ofName? comparator = some .le

/-- The C type of a loop variable: the one it is given, or that of its first value. -/
def varType (var : TypedName) (first : Node) (span : Span) : Gen String :=
  match var.type with
  | some type => cType type span
  | none => do
    let inferred ← Literal.type? first
    orFail inferred span (.untypedLoop var.name)

/-- The name of a value that a loop computes once, before its first round. -/
def temporary (name role : String) : String :=
  "__" ++ name ++ "_" ++ role

/-- Writes one more declarator of a loop header. -/
def declarator (name : String) (value : Part) : Gen Unit := do
  write (", " ++ name ++ " = ")
  value.emit

/-- Writes the step of a loop header, if there is one, and gives the expression that steps the variable. -/
def stepPart (name : String) : Option Part → Gen String
  | none => return "++" ++ name
  | some step => do
    declarator (temporary name "step") step
    return name ++ " += " ++ temporary name "step"

/-- Writes the header of a numeric loop. Bounds and step get names of their own, so that they are computed once and
before the loop variable hides an outer one. -/
def header (type name : String) (first last : Part) (step : Option Part) : Gen Unit := do
  writeIndent
  write ("for (" ++ type ++ " " ++ temporary name "begin" ++ " = ")
  first.emit
  declarator (temporary name "end") last
  let increment ← stepPart name step
  write (", " ++ name ++ " = " ++ temporary name "begin")
  write ("; " ++ name ++ " <= " ++ temporary name "end" ++ "; " ++ increment)
  writeLine ") \x7b"

/-- Writes a numeric loop. -/
def forNum (var : TypedName) (first : Part) (comparator : Option String) (last : Part) (step : Option Part)
    (body : Part) (span : Span) : Gen Unit := do
  match comparator.filter (fun c => !isInclusive c) with
  | some c => fail span (.loopComparator c)
  | none => pure ()
  let type ← varType var first.node span
  header type (Target.escapeName var.name) first last step
  indented body.emit
  writeIndentedLine "\x7d"

end Lowering.Loop
