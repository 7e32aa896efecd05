import Lowering.Emit.Part

/-!
# Branches

Conditionals and switches. Every branch is written between braces, and an arm of a switch ends with a `break;`, so that
no arm runs into the next.
-/

namespace Lowering.Branch

open Gen

/-- Writes a branch of a conditional. -/
def branch (before : String) (arm : Arm Part) : Gen Unit := do
  guarded before arm.guard ") \x7b"
  indented arm.body.emit

/-- Writes a conditional. -/
def cond (branches : List (Arm Part)) (otherwise : Option Part) (span : Span) : Gen Unit :=
  match branches with
  | [] => fail span .noBranches
  | first :: rest => do
    branch "if (" first
    rest.forM (branch "\x7d else if (")
    match otherwise with
    | none => pure ()
    | some block =>
      writeIndentedLine "\x7d else \x7b"
      indented block.emit
    writeIndentedLine "\x7d"

/-- Writes the body of a switch arm, which never falls through. -/
def armBody (block : Part) : Gen Unit := do
  indented block.emit
  indented (writeIndentedLine "break;")
  writeIndentedLine "\x7d"

/-- Writes an arm of a switch. -/
def switchArm (arm : Arm Part) : Gen Unit := do
  guarded "case " arm.guard ": \x7b"
  armBody arm.body

/-- Writes a switch. -/
def switch (subject : Part) (cases : List (Arm Part)) (otherwise : Option Part) : Gen Unit := do
  guarded "switch (" subject ") \x7b"
  onPage Page.indent
  cases.forM switchArm
  match otherwise with
  | none => pure ()
  | some block =>
    writeIndentedLine "default: \x7b"
    armBody block
  onPage Page.dedent
  writeIndentedLine "\x7d"

end Lowering.Branch
