/-!
# Operators

The operators of the source language by arity. A tree holds an operator's *name*; the tables below say which names are
operators. Whether an operator can be written in C is a question of its own (`Lowering.Target.Operator`).
-/

namespace Lowering

/-- Operators with one operand. -/
inductive UnaryOp where
  | not
  | negate
  | complement
  | addressOf
  | deref
  | length
  | toText
deriving DecidableEq, Repr

/-- Operators with two operands. -/
inductive BinaryOp where
  | or
  | and
  | ne
  | eq
  | le
  | ge
  | lt
  | gt
  | bitOr
  | bitXor
  | bitAnd
  | shl
  | shr
  | concat
  | add
  | sub
  | mul
  | div
  | floorDiv
  | mod
  | pow
deriving DecidableEq, Repr

/-- Operators with three operands. -/
inductive TernaryOp where
  | choose
deriving DecidableEq, Repr

/-- The number of operands, as diagnostics call it. -/
inductive Arity where
  | unary
  | binary
  | ternary
deriving DecidableEq, Repr

/-- The word for an arity. -/
def Arity.word : Arity → String
  | .unary => "unary"
  | .binary => "binary"
  | .ternary => "ternary"

/-- The names of the unary operators. -/
def UnaryOp.names : List (String × UnaryOp) :=
  [("not", .not), ("neg", .negate), ("bnot", .complement), ("ref", .addressOf), ("deref", .deref),
   ("len", .length), ("tostring", .toText)]

/-- The names of the binary operators. -/
def BinaryOp.names : List (String × BinaryOp) :=
  [("or", .or), ("and", .and), ("ne", .ne), ("eq", .eq), ("le", .le), ("ge", .ge), ("lt", .lt), ("gt", .gt),
   ("bor", .bitOr), ("bxor", .bitXor), ("band", .bitAnd), ("shl", .shl), ("shr", .shr), ("concat", .concat),
   ("add", .add), ("sub", .sub), ("mul", .mul), ("div", .div), ("idiv", .floorDiv), ("mod", .mod), ("pow", .pow)]

/-- The names of the ternary operators. -/
def TernaryOp.names : List (String × TernaryOp) :=
  [("if", .choose)]

/-- The unary operator of a given name. -/
def UnaryOp.ofName? (name : String) : Option UnaryOp :=
  UnaryOp.names.lookup name

/-- The binary operator of a given name. -/
def BinaryOp.ofName? (name : String) : Option BinaryOp :=
  BinaryOp.names.lookup name

/-- The ternary operator of a given name. -/
def TernaryOp.ofName? (name : String) : Option TernaryOp :=
  TernaryOp.names.lookup name

end Lowering
