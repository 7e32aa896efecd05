import Lowering.Fault

/-!
# Diagnostics

A diagnostic is what a user is shown about a fault: its kind, one sentence, a span and any number of hints. It has a
plain form, which needs no source text, and a report, the parts from which a drawing against the source is made.
-/

namespace Lowering

namespace FaultKind

/-- The words for a kind. -/
def text : FaultKind → String
  | .unknownConstruct => "unknown construct"
  | .unsupportedArgument => "unsupported argument"
  | .unimplemented => "unimplemented"
  | .arityMismatch => "arity mismatch"
  | .internal => "internal error"

/-- The code under which a kind can be looked up. -/
def code : FaultKind → String
  | .unknownConstruct => "kiln::unknown_construct"
  | .unsupportedArgument => "kiln::unsupported_argument"
  | .unimplemented => "kiln::unimplemented"
  | .arityMismatch => "kiln::arity_mismatch"
  | .internal => "kiln::internal"

end FaultKind

/-- What a user is shown about a fault. -/
structure Diagnostic where
  kind : FaultKind
  message : String
  span : Span
  hints : List String := []
deriving DecidableEq, Repr

/-- The diagnostic for a fault. -/
def Fault.diagnostic (f : Fault) : Diagnostic :=
  { kind := f.cause.kind, message := f.cause.message, span := f.span, hints := f.cause.hints }

/-- The part of a source text that a report points at, with the words written there. -/
structure Label where
  offset : Nat
  length : Nat
  text : String
deriving DecidableEq, Repr

/-- A diagnostic taken apart for display against its source. -/
structure Report where
  message : String
  code : String
  help : Option String
  label : Label
deriving DecidableEq, Repr

namespace Diagnostic

/-- A diagnostic in one line, its hints left out. -/
def text (d : Diagnostic) : String :=
  s!"{d.kind.text} at {d.span.text}: {d.message}"

/-- A diagnostic without its source: the line, then a line for each hint. -/
def plain (d : Diagnostic) : String :=
  "error: " ++ d.text ++ String.join (d.hints.map (fun h => "\n  help: " ++ h))

/-- All hints in one text, if there are any. -/
def help? (d : Diagnostic) : Option String :=
  if d.hints.isEmpty then none else some ("\n".intercalate d.hints)

/-- The parts of a diagnostic for display against its source. -/
def report (d : Diagnostic) : Report :=
  { message := d.message
    code := d.kind.code
    help := d.help?
    label := { offset := d.span.start, length := d.span.length, text := d.kind.text } }

end Diagnostic

end Lowering
