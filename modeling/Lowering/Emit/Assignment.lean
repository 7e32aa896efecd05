import Lowering.Emit.Part

/-!
# Assignments

A multiple assignment means that all values are computed before any of them is stored. It is written as one assignment
after the other, which means the same only if no store is seen by a later value or target; an assignment for which this
is not so is refused.
-/

namespace Lowering.Assignment

open Gen

/-- The variable that a store to a target changes. -/
def root? : Node → Option String
  | .id name _ => some name
  | .paren inner _ => root? inner
  | .dotIndex base _ _ => root? base
  | .arrayIndex base _ _ => root? base
  | _ => none

mutual

/-- Whether an expression mentions a variable. -/
def reads (name : String) : Node → Bool
  | .id other _ => other = name
  | .paren inner _ => reads name inner
  | .dotIndex base _ _ => reads name base
  | .unaryOp _ operand _ => reads name operand
  | .arrayIndex base index _ => reads name base || reads name index
  | .call callee args _ => reads name callee || anyReads name args
  | .binaryOp _ lhs rhs _ => reads name lhs || reads name rhs
  | .ternaryOp _ first second third _ => reads name first || reads name second || reads name third
  | _ => false

/-- Whether one of several expressions mentions a variable. -/
def anyReads (name : String) : List Node → Bool
  | [] => false
  | n :: rest => reads name n || anyReads name rest

end

/-- The first variable that is stored by one target and mentioned by a later target or value. -/
def readAfterStore? : List Node → List Node → Option String
  | target :: targets, _ :: values =>
    match (root? target).filter (fun root => anyReads root (targets ++ values)) with
    | some root => some root
    | none => readAfterStore? targets values
  | _, _ => none

/-- Writes a single assignment. -/
def store (target value : Part) : Gen Unit := do
  writeIndent
  target.emit
  write " = "
  value.emit
  writeLine ";"

/-- Writes one assignment after the other. -/
def stores : List Part → List Part → Gen Unit
  | target :: targets, value :: values => do
    store target value
    stores targets values
  | _, _ => pure ()

/-- Writes an assignment. -/
def emit (targets values : List Part) (span : Span) : Gen Unit := do
  if targets.length ≠ values.length then
    fail span (.assignmentCount targets.length values.length)
  match readAfterStore? (targets.map Part.node) (values.map Part.node) with
  | some root => fail span (.readAfterStore root)
  | none => pure ()
  stores targets values

end Lowering.Assignment
