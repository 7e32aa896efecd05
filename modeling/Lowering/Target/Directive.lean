import Lowering.Vocabulary.Numeric

/-!
# Format directives

The directive with which a value of a numeric type is printed. The directive of an integer type is put together from a
macro, whose name holds the width; a header defines these macros.
-/

namespace Lowering.Target

/-- A format string as a C expression, and the header that defines the macros in it. -/
structure Directive where
  format : String
  header : Option String
deriving DecidableEq, Repr

/-- The end of the macro's name for a width. -/
def macroWidth : IntWidth → String
  | .pointer => "PTR"
  | w => w.digits

end Lowering.Target

namespace Lowering.Numeric

/-- How a value of the type is printed. -/
def directive : Numeric → Target.Directive
  | .signed w => ⟨"\"%\" PRIi" ++ Target.macroWidth w, some "inttypes.h"⟩
  | .unsigned w => ⟨"\"%\" PRIu" ++ Target.macroWidth w, some "inttypes.h"⟩
  | .real .single => ⟨"\"%.7g\"", none⟩
  | .real _ => ⟨"\"%.14g\"", none⟩

end Lowering.Numeric
