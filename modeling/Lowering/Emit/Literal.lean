import Lowering.Target.NumberText
import Lowering.Target.Quoted
import Lowering.Emit.Part

/-!
# Literals

Numbers are written in place, and cast if a suffix asked for a type. A string becomes a record among the forward
declarations, named for the position of the literal; in place stands a pointer to it.
-/

namespace Lowering.Literal

open Gen

/-- Resolves a number literal at a span. -/
def resolve (form : NumberForm) (suffix : Option String) (span : Span) : Gen ResolvedNumber :=
  match resolveNumber form suffix with
  | .ok n => pure n
  | .error cause => fail span cause

/-- Writes a number. -/
def number (form : NumberForm) (suffix : Option String) (span : Span) : Gen Unit := do
  let n ← resolve form suffix span
  let type ← cType n.type.name span
  if n.explicit then
    write ("((" ++ type ++ ")" ++ n.spelling ++ ")")
  else
    write n.spelling

/-- The name of the record for the string literal at a span. -/
def recordName (span : Span) : String :=
  "__strlit_" ++ toString span.start

/-- The declaration of the record for a string literal. -/
def record (name value : String) : String :=
  let length := toString value.utf8ByteSize
  "static const struct \x7b uintptr_t len, res; char data[" ++ toString (value.utf8ByteSize + 1) ++ "]; \x7d " ++ name
    ++ " = \x7b" ++ length ++ ", " ++ length ++ ", \"" ++ Target.escapeText value ++ "\"\x7d;\n"

/-- Writes a string. -/
def string (value : String) (span : Span) : Gen Unit := do
  needSupport .string
  let name := recordName span
  reserveSymbol name span
  addTo .forwardDeclarations (record name value)
  write ("((nlstring*)&" ++ name ++ ")")

/-- Writes a truth value. -/
def boolean (value : Bool) : Gen Unit := do
  needHeader "stdbool.h"
  write (if value then "true" else "false")

/-- Writes the null pointer. -/
def null : Gen Unit := do
  needHeader "stddef.h"
  write "NULL"

/-- The C type of an expression that is a literal, in parentheses or not; nothing for any other expression. -/
def type? : Node → Gen (Option String)
  | .number form suffix span => do
    let n ← resolve form suffix span
    return some (← cType n.type.name span)
  | .boolean _ span => do
    return some (← cType "boolean" span)
  | .string _ span => do
    return some (← cType "string" span)
  | .paren inner _ => type? inner
  | _ => pure none

end Lowering.Literal
