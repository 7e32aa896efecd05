import Lowering.Emit.Part
import Lowering.Target.Name

/-!
# Jumps

Statements that leave the place where they stand: labels and jumps to them, `break`, `continue` and `return`.
-/

namespace Lowering.Jump

open Gen

/-- Writes a jump out of the innermost loop. -/
def leaveLoop : Gen Unit :=
  writeIndentedLine "break;"

/-- Writes a jump to the next round of the innermost loop. -/
def nextRound : Gen Unit :=
  writeIndentedLine "continue;"

/-- Writes a label on an empty statement. -/
def label (name : String) : Gen Unit :=
  writeIndentedLine (Target.escapeName name ++ ":;")

/-- Writes a jump to a label. -/
def goto (label : String) : Gen Unit :=
  writeIndentedLine ("goto " ++ Target.escapeName label ++ ";")

/-- Writes a return. One without a value that leaves the entry point reports success. -/
def ret (values : List Part) (span : Span) : Gen Unit := do
  writeIndent
  match values with
  | [] =>
    if (← site).inMain then
      writeLine "return 0;"
    else
      writeLine "return;"
  | [value] =>
    write "return "
    value.emit
    writeLine ";"
  | _ => fail span .multipleReturns
  markReturn

end Lowering.Jump
