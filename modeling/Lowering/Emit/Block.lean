import Lowering.Emit.Part

/-!
# Blocks

A block is written as whole lines, one statement after the other, in a scope of its own. The outermost block is the body
of `main`; it ends with a `return 0;` of its own if none of its statements is a return.
-/

namespace Lowering.Block

open Gen

/-- Writes a block between braces on lines of their own. -/
def braced (block : Part) : Gen Unit := do
  writeIndentedLine "\x7b"
  indented block.emit
  writeIndentedLine "\x7d"

/-- Writes a statement of a block. An expression gets a line of its own, a block gets braces. -/
def statement (s : Part) : Gen Unit :=
  if s.node.tag.isExpression then do
    writeIndent
    s.emit
    writeLine ";"
  else if s.node.tag = .block then
    braced s
  else
    s.emit

/-- Ends the body of the entry point with a return, unless a return has been written directly in it. -/
def endMain : Gen Unit := do
  let s ← site
  if s.isMain && !s.scope?.any Scope.hasReturn then
    writeIndentedLine "return 0;"

/-- Writes the statements of a block in a scope of their own. -/
def scopedBlock (scope : Scope) (statements : List Part) (span : Span) : Gen Unit := do
  openScope scope
  statements.forM statement
  endMain
  let _ ← closeScope span

/-- Writes a block; the outermost one becomes `main`. -/
def emit (statements : List Part) (span : Span) : Gen Unit := do
  if (← site).depth = 0 then
    writeLine "int main() \x7b"
    onPage Page.indent
    scopedBlock .top statements span
    onPage Page.dedent
    writeLine "\x7d"
  else
    scopedBlock .nested statements span

end Lowering.Block
