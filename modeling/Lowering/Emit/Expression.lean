import Lowering.Target.Name
import Lowering.Target.Operator
import Lowering.Emit.Print

/-!
# Expressions

Expressions are written in place, on the line of the statement they belong to. An operator that is itself an operand
puts parentheses around itself; it needs to know nothing of precedence for that.
-/

namespace Lowering.Expression

open Gen

/-- Writes a name. -/
def name (name : String) : Gen Unit :=
  write (Target.escapeName name)

/-- Writes a parenthesised expression. -/
def paren (inner : Part) : Gen Unit := do
  write "("
  inner.emit
  write ")"

/-- Writes the selection of a field. -/
def field (base : Part) (field : String) : Gen Unit := do
  base.emit
  write ("." ++ Target.escapeName field)

/-- Writes the selection of an element. -/
def element (base index : Part) : Gen Unit := do
  base.emit
  write "["
  index.emit
  write "]"

/-- The intrinsic function that a callee names. -/
def intrinsic? : Node → Option Intrinsic
  | .id name _ => Intrinsic.ofName? name
  | _ => none

/-- Writes a call. -/
def call (callee : Part) (args : List Part) (span : Span) : Gen Unit :=
  match intrinsic? callee.node with
  | some .print => do
    note (.specializing Intrinsic.print.name span)
    Print.call span args
  | none => do
    callee.emit
    write "("
    commaList args
    write ")"

/-- Writes an operator expression, in parentheses if it is an operand. -/
def operator (act : Gen Unit) : Gen Unit := do
  if (← site).inOperator then
    write "("
    act
    write ")"
  else
    act

/-- Writes the application of a unary operator. -/
def unary (op : String) (operand : Part) (span : Span) : Gen Unit := do
  let known ← orFail (UnaryOp.ofName? op) span (.unknownOperator .unary op)
  let mark ← orFail known.spelling? span (.unwritableOperator .unary op)
  operator do
    write mark
    operand.emit

/-- Writes the application of a binary operator. -/
def binary (op : String) (lhs rhs : Part) (span : Span) : Gen Unit := do
  let known ← orFail (BinaryOp.ofName? op) span (.unknownOperator .binary op)
  let mark ← orFail known.spelling? span (.unwritableOperator .binary op)
  operator do
    lhs.emit
    write (" " ++ mark ++ " ")
    rhs.emit

/-- Writes a choice: `first if second else third` is written `second ? first : third`. -/
def ternary (op : String) (first second third : Part) (span : Span) : Gen Unit := do
  let known ← orFail (TernaryOp.ofName? op) span (.unknownOperator .ternary op)
  let marks ← orFail known.spelling? span (.unwritableOperator .ternary op)
  operator do
    second.emit
    write (" " ++ marks.1 ++ " ")
    first.emit
    write (" " ++ marks.2 ++ " ")
    third.emit

end Lowering.Expression
