import Lowering.Target.Directive
import Lowering.Target.Signature
import Lowering.Emit.Literal
import Lowering.Vocabulary.Intrinsic

/-!
# Print calls

A call of `print` is written as a call of a helper function made for that call site: it has a parameter of the right type
for each argument, prints them with a tab between one and the next, ends the line and flushes. Only literals can be
printed, because only they show their type.
-/

namespace Lowering.Print

open Gen

/-- What an argument contributes to the helper: a parameter, and the C statement that prints it. -/
structure Slot where
  param : String
  statement : String
deriving DecidableEq, Repr

/-- The name of the helper for the call at a span. -/
def helperName (span : Span) : String :=
  "__print_" ++ toString span.start

/-- The name of a parameter, counted from one. -/
def paramName (index : Nat) : String :=
  "a" ++ toString index

/-- The slot of one argument of the call at `call`. -/
def slot (call : Span) (index : Nat) : Node → Gen Slot
  | .string _ _ => do
    needSupport .stringPrint
    return ⟨"const nlstring* " ++ paramName index, "nlstring_print(" ++ paramName index ++ ");"⟩
  | .number form suffix span => do
    let n ← Literal.resolve form suffix span
    let type ← cType n.type.name span
    let directive := n.type.directive
    match directive.header with
    | some header => needHeader header
    | none => pure ()
    return ⟨type ++ " " ++ paramName index, "printf(" ++ directive.format ++ ", " ++ paramName index ++ ");"⟩
  | other => fail call (.unprintable index other.tag)

/-- The slots of the arguments from a given index on. -/
def slots (call : Span) : Nat → List Node → Gen (List Slot)
  | _, [] => pure []
  | index, arg :: rest => do
    let s ← slot call index arg
    let ss ← slots call (index + 1) rest
    return s :: ss

/-- The first line of the helper, up to its brace. -/
def signature (name : String) (ss : List Slot) : String :=
  Target.signature "void" name (ss.map Slot.param)

/-- The statements of the helper. -/
def body (ss : List Slot) : List String :=
  (ss.map Slot.statement).intersperse "fputc('\\t', stdout);" ++ ["fputc('\\n', stdout);", "fflush(stdout);"]

/-- The whole helper. -/
def helper (width : Nat) (name : String) (ss : List Slot) : String :=
  Page.framed width (signature name ss ++ " \x7b") (body ss) "\x7d"

/-- Writes the print call at a span. -/
def call (span : Span) (args : List Part) : Gen Unit := do
  let name := helperName span
  reserveSymbol name span
  let ss ← slots span 1 (args.map Part.node)
  needHeader "stdio.h"
  addTo .forwardDeclarations (signature name ss ++ ";\n")
  addDefinition (helper (← get).width name ss)
  write (name ++ "(")
  commaList args
  write ")"

end Lowering.Print
