/-!
# Numeric types

The numeric types of the source language, their names, and the suffixes that select one on a number literal.
-/

namespace Lowering

/-- The width of an integer type: the width of a pointer, or a fixed number of bits. -/
inductive IntWidth where
  | pointer
  | bits8
  | bits16
  | bits32
  | bits64
deriving DecidableEq, Repr

/-- The precision of a floating type: the default one, single or double. -/
inductive Precision where
  | standard
  | single
  | double
deriving DecidableEq, Repr

/-- A numeric type of the source language. -/
inductive Numeric where
  | signed (width : IntWidth)
  | unsigned (width : IntWidth)
  | real (precision : Precision)
deriving DecidableEq, Repr

/-- The digits a width adds to a type's name. -/
def IntWidth.digits : IntWidth → String
  | .pointer => ""
  | .bits8 => "8"
  | .bits16 => "16"
  | .bits32 => "32"
  | .bits64 => "64"

/-- The digits a precision adds to a type's name. -/
def Precision.digits : Precision → String
  | .standard => ""
  | .single => "32"
  | .double => "64"

namespace Numeric

/-- The name of the type in source programs. -/
def name : Numeric → String
  | .signed w => "int" ++ w.digits
  | .unsigned w => "uint" ++ w.digits
  | .real p => "float" ++ p.digits

/-- Integers without a sign are the only types that hold no negative number. -/
def isSigned : Numeric → Bool
  | .unsigned _ => false
  | _ => true

/-- Whether the type holds fractions. -/
def isReal : Numeric → Bool
  | .real _ => true
  | _ => false

/-- Every numeric type, in the order of the type table. -/
def all : List Numeric :=
  [.signed .pointer, .signed .bits8, .signed .bits16, .signed .bits32, .signed .bits64,
   .unsigned .pointer, .unsigned .bits8, .unsigned .bits16, .unsigned .bits32, .unsigned .bits64,
   .real .standard, .real .single, .real .double]

/-- The numeric type of a given name. -/
def ofName? (name : String) : Option Numeric :=
  all.find? (fun t => t.name == name)

/-- The suffixes of number literals, each with the type it selects. -/
def suffixes : List (String × Numeric) :=
  [("i", .signed .pointer), ("isize", .signed .pointer),
   ("i8", .signed .bits8), ("i16", .signed .bits16), ("i32", .signed .bits32), ("i64", .signed .bits64),
   ("u", .unsigned .pointer), ("usize", .unsigned .pointer),
   ("u8", .unsigned .bits8), ("u16", .unsigned .bits16), ("u32", .unsigned .bits32), ("u64", .unsigned .bits64),
   ("f32", .real .single), ("f64", .real .double)]

/-- The type that a literal's suffix selects. -/
def ofSuffix? (suffix : String) : Option Numeric :=
  suffixes.lookup suffix

end Numeric

end Lowering
