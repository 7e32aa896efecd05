import Lowering.Span
import Lowering.Tree.Tag

/-!
# Syntax trees

A program is a tree of nodes, each with its source span. The type keeps every shape that a tree text can have: a block
position may hold any node, an operator is known by name only, a loop may come without a type. What can be written in C
is decided where a node is lowered, so a tree that cannot be written still is a tree.
-/

namespace Lowering

/-- The way a number literal is spelled. -/
inductive NumberForm where
  | integer (digits : String)
  | decimal (digits : String)
  | scientific (mantissa : String) (exponent : String)
  | hex (digits : String)
  | binary (digits : String)
deriving DecidableEq, Repr

/-- Where a declared name can be seen: in its own scope only, or everywhere. -/
inductive Visibility where
  | scoped
  | global
deriving DecidableEq, Repr

/-- Whether a declared variable may change: freely, not at all, or not through this name. -/
inductive Mutability where
  | mutable
  | constant
  | immutable
deriving DecidableEq, Repr

/-- A name with the name of its type, if it is given one. -/
structure TypedName where
  name : String
  type : Option String
deriving DecidableEq, Repr

/-- A guarded part of a statement: a condition or case value, and what is done under it. -/
structure Arm (α : Type) where
  guard : α
  body : α
deriving DecidableEq, Repr

/-- A node of a syntax tree. The choice `ternary op first second third` reads `first if second else third`. -/
inductive Node where
  | number (form : NumberForm) (suffix : Option String) (span : Span)
  | string (value : String) (span : Span)
  | boolean (value : Bool) (span : Span)
  | nil (span : Span)
  | varargs (span : Span)
  | id (name : String) (span : Span)
  | paren (inner : Node) (span : Span)
  | dotIndex (base : Node) (field : String) (span : Span)
  | arrayIndex (base : Node) (index : Node) (span : Span)
  | call (callee : Node) (args : List Node) (span : Span)
  | unaryOp (op : String) (operand : Node) (span : Span)
  | binaryOp (op : String) (lhs : Node) (rhs : Node) (span : Span)
  | ternaryOp (op : String) (first : Node) (second : Node) (third : Node) (span : Span)
  | block (statements : List Node) (span : Span)
  | ret (values : List Node) (span : Span)
  | cond (branches : List (Arm Node)) (otherwise : Option Node) (span : Span)
  | switch (subject : Node) (cases : List (Arm Node)) (otherwise : Option Node) (span : Span)
  | scoped (body : Node) (span : Span)
  | whileLoop (guard : Node) (body : Node) (span : Span)
  | repeatLoop (body : Node) (guard : Node) (span : Span)
  | forNum (var : TypedName) (first : Node) (comparator : Option String) (last : Node) (step : Option Node)
      (body : Node) (span : Span)
  | forIn (vars : List TypedName) (exprs : List Node) (body : Node) (span : Span)
  | breakLoop (span : Span)
  | continueLoop (span : Span)
  | label (name : String) (span : Span)
  | goto (label : String) (span : Span)
  | varDecl (visibility : Visibility) (mutability : Mutability) (vars : List TypedName) (values : List Node)
      (span : Span)
  | assign (targets : List Node) (values : List Node) (span : Span)
  | funcDef (visibility : Visibility) (name : String) (params : List TypedName) (returns : List String) (body : Node)
      (span : Span)

namespace Node

/-- The kind of a node. -/
def tag : Node → Tag
  | .number .. => .number
  | .string .. => .string
  | .boolean .. => .boolean
  | .nil .. => .nil
  | .varargs .. => .varargs
  | .id .. => .id
  | .paren .. => .paren
  | .dotIndex .. => .dotIndex
  | .arrayIndex .. => .arrayIndex
  | .call .. => .call
  | .unaryOp .. => .unaryOp
  | .binaryOp .. => .binaryOp
  | .ternaryOp .. => .ternaryOp
  | .block .. => .block
  | .ret .. => .ret
  | .cond .. => .cond
  | .switch .. => .switch
  | .scoped .. => .scoped
  | .whileLoop .. => .whileLoop
  | .repeatLoop .. => .repeatLoop
  | .forNum .. => .forNum
  | .forIn .. => .forIn
  | .breakLoop .. => .breakLoop
  | .continueLoop .. => .continueLoop
  | .label .. => .label
  | .goto .. => .goto
  | .varDecl .. => .varDecl
  | .assign .. => .assign
  | .funcDef .. => .funcDef

/-- Where a node stands in the source text. -/
def span : Node → Span
  | .number _ _ s | .string _ s | .boolean _ s | .nil s | .varargs s | .id _ s | .paren _ s | .dotIndex _ _ s
  | .arrayIndex _ _ s | .call _ _ s | .unaryOp _ _ s | .binaryOp _ _ _ s | .ternaryOp _ _ _ _ s | .block _ s
  | .ret _ s | .cond _ _ s | .switch _ _ _ s | .scoped _ s | .whileLoop _ _ s | .repeatLoop _ _ s
  | .forNum _ _ _ _ _ _ s | .forIn _ _ _ s | .breakLoop s | .continueLoop s | .label _ s | .goto _ s
  | .varDecl _ _ _ _ s | .assign _ _ s | .funcDef _ _ _ _ _ s => s

/-- The members of two lists in turn, and at the end what one of them has more than the other. -/
def alternate {α : Type} : List α → List α → List α
  | a :: as, b :: bs => a :: b :: alternate as bs
  | [], bs => bs
  | as, [] => as

/-- The nodes directly below a node, in the order in which the node is written. -/
def children : Node → List Node
  | .paren e _ => [e]
  | .dotIndex e _ _ => [e]
  | .arrayIndex e i _ => [e, i]
  | .call f as _ => f :: as
  | .unaryOp _ e _ => [e]
  | .binaryOp _ l r _ => [l, r]
  | .ternaryOp _ a b c _ => [b, a, c]
  | .block ss _ => ss
  | .ret vs _ => vs
  | .cond bs o _ => bs.flatMap (fun b => [b.guard, b.body]) ++ o.toList
  | .switch v cs o _ => v :: cs.flatMap (fun c => [c.guard, c.body]) ++ o.toList
  | .scoped b _ => [b]
  | .whileLoop c b _ => [c, b]
  | .repeatLoop b c _ => [b, c]
  | .forNum _ i _ l s b _ => [i, l] ++ s.toList ++ [b]
  | .forIn _ es b _ => es ++ [b]
  | .varDecl _ _ _ vs _ => vs
  | .assign ts vs _ => alternate ts vs
  | .funcDef _ _ _ _ b _ => [b]
  | _ => []

end Node

end Lowering
