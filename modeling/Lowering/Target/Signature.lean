/-!
# Function signatures

The line that a prototype and the definition of a function have in common. All functions are local to the file.
-/

namespace Lowering.Target

/-- A parameter list, where no parameters at all are written `void`. -/
def paramList (params : List String) : String :=
  if params.isEmpty then "void" else ", ".intercalate params

/-- The signature of a function from its return type, its name and its parameters. -/
def signature (result name : String) (params : List String) : String :=
  "static " ++ result ++ " " ++ name ++ "(" ++ paramList params ++ ")"

end Lowering.Target
