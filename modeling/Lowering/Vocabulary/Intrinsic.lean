/-!
# Intrinsic functions

Functions that a program may call without defining them. A call to one is not an ordinary C call: code is made for the
call site from the arguments it has.
-/

namespace Lowering

/-- A function known to the language itself. -/
inductive Intrinsic where
  | print
deriving DecidableEq, Repr

namespace Intrinsic

/-- The name a program calls it by. -/
def name : Intrinsic → String
  | .print => "print"

/-- What it does, in one sentence. -/
def description : Intrinsic → String
  | .print => "Write the arguments to stdout separated by tabs, followed by a newline."

/-- Every intrinsic function. -/
def all : List Intrinsic :=
  [.print]

/-- The intrinsic function of a given name. -/
def ofName? (name : String) : Option Intrinsic :=
  all.find? (fun f => f.name == name)

end Intrinsic

end Lowering
