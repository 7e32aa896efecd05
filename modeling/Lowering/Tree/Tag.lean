/-!
# Tags

A tag is the kind of a tree node: the word that names it in tree texts and diagnostics, and the key under which the way
to write it is registered.
-/

namespace Lowering

/-- The kind of a node. -/
inductive Tag where
  | number
  | string
  | boolean
  | nil
  | varargs
  | id
  | paren
  | dotIndex
  | arrayIndex
  | call
  | unaryOp
  | binaryOp
  | ternaryOp
  | block
  | ret
  | cond
  | switch
  | scoped
  | whileLoop
  | repeatLoop
  | forNum
  | forIn
  | breakLoop
  | continueLoop
  | label
  | goto
  | varDecl
  | assign
  | funcDef
deriving DecidableEq, Repr

namespace Tag

/-- The word for a tag. -/
def name : Tag → String
  | .number => "Number"
  | .string => "String"
  | .boolean => "Boolean"
  | .nil => "Nil"
  | .varargs => "Varargs"
  | .id => "Id"
  | .paren => "Paren"
  | .dotIndex => "DotIndex"
  | .arrayIndex => "ArrayIndex"
  | .call => "Call"
  | .unaryOp => "UnaryOp"
  | .binaryOp => "BinaryOp"
  | .ternaryOp => "TernaryOp"
  | .block => "Block"
  | .ret => "Return"
  | .cond => "If"
  | .switch => "Switch"
  | .scoped => "Do"
  | .whileLoop => "While"
  | .repeatLoop => "Repeat"
  | .forNum => "ForNum"
  | .forIn => "ForIn"
  | .breakLoop => "Break"
  | .continueLoop => "Continue"
  | .label => "Label"
  | .goto => "Goto"
  | .varDecl => "VarDecl"
  | .assign => "Assign"
  | .funcDef => "FuncDef"

/-- Every tag. -/
def all : List Tag :=
  [.number, .string, .boolean, .nil, .varargs, .id, .paren, .dotIndex, .arrayIndex, .call, .unaryOp, .binaryOp,
   .ternaryOp, .block, .ret, .cond, .switch, .scoped, .whileLoop, .repeatLoop, .forNum, .forIn, .breakLoop,
   .continueLoop, .label, .goto, .varDecl, .assign, .funcDef]

/-- The tag of a given word. -/
def ofName? (name : String) : Option Tag :=
  all.find? (fun t => t.name == name)

/-- Whether nodes of this kind apply an operator. -/
def isOperator : Tag → Bool
  | .unaryOp | .binaryOp | .ternaryOp => true
  | _ => false

/-- Whether nodes of this kind are expressions, as opposed to statements. -/
def isExpression : Tag → Bool
  | .number | .string | .boolean | .nil | .varargs | .id | .paren | .dotIndex | .arrayIndex | .call => true
  | .unaryOp | .binaryOp | .ternaryOp => true
  | _ => false

end Tag

end Lowering
