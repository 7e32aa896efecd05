import Lowering.Draft.Gen
import Lowering.Tree.Node

/-!
# Parts

The writing of a node is put together from the writing of its parts. A part is a node together with the step that writes
it, so that a construct can look at its parts and place their text without knowing how they are written.
-/

namespace Lowering

/-- A node and the step that writes it. -/
structure Part where
  node : Node
  emit : Gen Unit

open Gen

/-- Writes parts with commas between them. -/
def commaList : List Part → Gen Unit
  | [] => pure ()
  | [p] => p.emit
  | p :: rest => do
    p.emit
    write ", "
    commaList rest

/-- Writes a line that opens a block under a condition: what comes before the condition and what comes after. -/
def guarded (before : String) (guard : Part) (after : String) : Gen Unit := do
  writeIndent
  write before
  guard.emit
  writeLine after

end Lowering
