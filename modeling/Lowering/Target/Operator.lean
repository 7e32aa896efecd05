import Lowering.Vocabulary.Operator

/-!
# C spellings of operators

How an operator of the source language is written in C. An operator without a spelling is part of the language, but
programs that use it are refused.
-/

namespace Lowering

/-- The C operator written before the operand. -/
def UnaryOp.spelling? : UnaryOp → Option String
  | .not => some "!"
  | .negate => some "-"
  | .complement => some "~"
  | .addressOf => some "&"
  | .deref => some "*"
  | .length => none
  | .toText => none

/-- The C operator written between the operands. -/
def BinaryOp.spelling? : BinaryOp → Option String
  | .or => some "||"
  | .and => some "&&"
  | .ne => some "!="
  | .eq => some "=="
  | .le => some "<="
  | .ge => some ">="
  | .lt => some "<"
  | .gt => some ">"
  | .bitOr => some "|"
  | .bitXor => some "^"
  | .bitAnd => some "&"
  | .shl => some "<<"
  | .shr => some ">>"
  | .concat => none
  | .add => some "+"
  | .sub => some "-"
  | .mul => some "*"
  | .div => some "/"
  | .floorDiv => none
  | .mod => some "%"
  | .pow => none

/-- The two marks written between the three operands. -/
def TernaryOp.spelling? : TernaryOp → Option (String × String)
  | .choose => some ("?", ":")

end Lowering
