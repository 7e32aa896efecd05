import Lowering.Tree.Tag

/-!
# Sites

Where in a program a node stands while it is written: the tags on the way down to it, and the scopes that are open. This
is all that the writing of a node may depend on beside the node itself.
-/

namespace Lowering

/-- An open scope. -/
structure Scope where
  /-- The outermost block of the program. -/
  isTop : Bool := false
  /-- The body of the entry point. -/
  isMain : Bool := false
  /-- The border of a function. -/
  isFunction : Bool := false
  /-- A return has been written directly in this scope. -/
  hasReturn : Bool := false
deriving DecidableEq, Repr

namespace Scope

/-- The scope of the program's root block. -/
def top : Scope :=
  { isTop := true, isMain := true }

/-- The scope of any other block. -/
def nested : Scope :=
  {}

/-- The scope around a function's body. -/
def function : Scope :=
  { isFunction := true }

end Scope

/-- A place in the program. Both lists have their innermost member first. -/
structure Site where
  lineage : List Tag := []
  scopes : List Scope := []
deriving DecidableEq, Repr

namespace Site

/-- The tag of the parent of the node being written. -/
def parent? (s : Site) : Option Tag :=
  match s.lineage with
  | _ :: parent :: _ => some parent
  | _ => none

/-- Whether the node being written is an operand. -/
def inOperator (s : Site) : Bool :=
  s.parent?.any Tag.isOperator

/-- The innermost open scope. -/
def scope? (s : Site) : Option Scope :=
  s.scopes.head?

/-- The number of open scopes. -/
def depth (s : Site) : Nat :=
  s.scopes.length

/-- Whether the innermost scope is that of the root block. -/
def isTop (s : Site) : Bool :=
  s.scope?.any Scope.isTop

/-- Whether the innermost scope is the body of the entry point. -/
def isMain (s : Site) : Bool :=
  s.scope?.any Scope.isMain

/-- Whether the innermost function around the place is the entry point. -/
def inMain (s : Site) : Bool :=
  (s.scopes.find? (fun c => c.isMain || c.isFunction)).any Scope.isMain

/-- Goes down to a node of the given kind. -/
def descend (s : Site) (tag : Tag) : Site :=
  { s with lineage := tag :: s.lineage }

/-- Goes back up from a node. -/
def ascend (s : Site) : Site :=
  { s with lineage := s.lineage.tail }

/-- Opens a scope. -/
def enter (s : Site) (c : Scope) : Site :=
  { s with scopes := c :: s.scopes }

/-- Closes the innermost scope. -/
def leave (s : Site) : Site :=
  { s with scopes := s.scopes.tail }

/-- Notes that a return has been written in the innermost scope. -/
def markReturn (s : Site) : Site :=
  match s.scopes with
  | [] => s
  | c :: cs => { s with scopes := { c with hasReturn := true } :: cs }

end Site

end Lowering
