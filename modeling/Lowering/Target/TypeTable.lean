/-!
# C types of source types

Which C type stands for a source type, and what the file needs before the C type can be used: a header, or a piece of
the generator's own support code.
-/

namespace Lowering.Target

/-- A C type as it is written, with the header and the support code it needs. -/
structure CType where
  spelling : String
  header : Option String := none
  support : Option String := none
deriving DecidableEq, Repr

/-- A table from source type names to C types. A later entry for a name stands before, and hides, an earlier one. -/
abbrev TypeTable := List (String × CType)

/-- The type that a name stands for. -/
def TypeTable.find? (table : TypeTable) (name : String) : Option CType :=
  List.lookup name table

/-- Lets a name stand for a type from now on. -/
def TypeTable.insert (table : TypeTable) (name : String) (type : CType) : TypeTable :=
  (name, type) :: table

/-- A type declared by the header of fixed-width integers. -/
def integerType (spelling : String) : CType :=
  { spelling, header := some "stdint.h" }

/-- The types that every program starts with. -/
def primitiveTypes : TypeTable :=
  [("int", integerType "intptr_t"),
   ("isize", integerType "intptr_t"),
   ("int8", integerType "int8_t"),
   ("int16", integerType "int16_t"),
   ("int32", integerType "int32_t"),
   ("int64", integerType "int64_t"),
   ("uint", integerType "uintptr_t"),
   ("usize", integerType "uintptr_t"),
   ("uint8", integerType "uint8_t"),
   ("uint16", integerType "uint16_t"),
   ("uint32", integerType "uint32_t"),
   ("uint64", integerType "uint64_t"),
   ("float", { spelling := "double" }),
   ("float32", { spelling := "float" }),
   ("float64", { spelling := "double" }),
   ("boolean", { spelling := "bool", header := some "stdbool.h" }),
   ("bool", { spelling := "bool", header := some "stdbool.h" }),
   ("string", { spelling := "nlstring*", support := some "nlstring" }),
   ("pointer", { spelling := "void*" }),
   ("char", { spelling := "char" }),
   ("cstring", { spelling := "char*" })]

end Lowering.Target
