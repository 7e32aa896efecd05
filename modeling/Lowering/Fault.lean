import Lowering.Span
import Lowering.Tree.Tag
import Lowering.Vocabulary.Operator

/-!
# Faults

Why a program cannot be written in C, and where. A fault has one cause; the cause determines the kind of the fault, the
sentence shown for it and the advice that goes with it.
-/

namespace Lowering

/-- The kinds of faults. -/
inductive FaultKind where
  | unknownConstruct
  | unsupportedArgument
  | unimplemented
  | arityMismatch
  | internal
deriving DecidableEq, Repr

/-- The reason for a fault. -/
inductive Cause where
  /-- No way to write nodes of this kind is registered. -/
  | unregistered (tag : Tag)
  /-- The root of a program is not a block. -/
  | rootNotBlock (found : Tag)
  /-- There is no support code of this name. -/
  | unknownSupport (name : String)
  /-- The type table has no such type. -/
  | unknownType (name : String)
  /-- The digits of a binary literal are none, or too large. -/
  | invalidBinary (digits : String)
  /-- A number literal has a suffix that selects no type. -/
  | unknownSuffix (suffix : String) (literal : String)
  /-- There is no operator of this name and arity. -/
  | unknownOperator (arity : Arity) (name : String)
  /-- The operator cannot be written in C. -/
  | unwritableOperator (arity : Arity) (name : String)
  | varargs
  | forIn
  /-- A numeric loop with another comparison than its inclusive upper bound. -/
  | loopComparator (name : String)
  /-- A loop variable without a type whose first value shows none either. -/
  | untypedLoop (var : String)
  | multipleReturns
  | globalVariables
  | immutableDeclarations
  /-- A variable without a type whose value shows none either. -/
  | untypedVariable (name : String)
  /-- A multiple assignment whose stores, done one after the other, would be read by a later part of it. -/
  | readAfterStore (root : String)
  | globalFunctions
  | nestedFunctions
  | untypedParameter (name : String)
  /-- A print argument, counted from one, whose type cannot be seen. -/
  | unprintable (index : Nat) (tag : Tag)
  | declarationCount (vars : Nat) (values : Nat)
  | assignmentCount (targets : Nat) (values : Nat)
  | noBranches
  /-- Two nodes ask for the same generated name; the first stands at `owner`. -/
  | symbolTaken (symbol : String) (owner : Span)
  /-- A node was handed to the lowering of another kind of nodes. -/
  | wrongNode (expected : Tag) (found : Tag)
  /-- A scope was left that had not been entered. -/
  | unpairedScope
deriving DecidableEq, Repr

namespace Cause

/-- The kind of the faults with this cause. -/
def kind : Cause → FaultKind
  | .unregistered _ | .rootNotBlock _ | .unknownSupport _ | .unknownType _ | .invalidBinary _ | .unknownSuffix _ _
  | .unknownOperator _ _ => .unknownConstruct
  | .unwritableOperator _ _ | .varargs | .forIn | .loopComparator _ | .untypedLoop _ | .multipleReturns
  | .globalVariables | .immutableDeclarations | .untypedVariable _ | .readAfterStore _ | .globalFunctions
  | .nestedFunctions | .untypedParameter _ => .unimplemented
  | .unprintable _ _ => .unsupportedArgument
  | .declarationCount _ _ | .assignmentCount _ _ => .arityMismatch
  | .noBranches | .symbolTaken _ _ | .wrongNode _ _ | .unpairedScope => .internal

/-- The sentence for something that the language has and C lowering has not. -/
def unsupported (what : String) : String :=
  what ++ " is not supported yet"

/-- The sentence shown for a cause. -/
def message : Cause → String
  | .unregistered tag => s!"no generator registered for node '{tag.name}'"
  | .rootNotBlock found => s!"program root must be a 'Block' node, found '{found.name}'"
  | .unknownSupport name => s!"unknown builtin '{name}'"
  | .unknownType name => s!"unknown type '{name}'"
  | .invalidBinary digits => s!"invalid binary literal '0b{digits}'"
  | .unknownSuffix suffix literal => s!"unknown suffix '{suffix}' on number literal '{literal}'"
  | .unknownOperator arity name => s!"unknown {arity.word} operator '{name}'"
  | .unwritableOperator arity name => unsupported s!"{arity.word} operator '{name}'"
  | .varargs => unsupported "varargs"
  | .forIn => unsupported "for in loops"
  | .loopComparator name => unsupported s!"for loop comparator '{name}'"
  | .untypedLoop var => unsupported s!"inferring the type of loop variable '{var}'"
  | .multipleReturns => unsupported "multiple return values"
  | .globalVariables => unsupported "global variables"
  | .immutableDeclarations => unsupported "immutable declarations"
  | .untypedVariable name => unsupported s!"inferring the type of '{name}'"
  | .readAfterStore root => unsupported s!"multiple assignment that reads '{root}' after assigning it"
  | .globalFunctions => unsupported "global functions"
  | .nestedFunctions => unsupported "nested functions"
  | .untypedParameter name => unsupported s!"untyped parameter '{name}'"
  | .unprintable index tag =>
    s!"print argument {index} is a '{tag.name}' expression; only literal strings and numbers can be printed"
  | .declarationCount vars values => s!"declaration of {vars} variables has {values} values"
  | .assignmentCount targets values => s!"assignment to {targets} targets has {values} values"
  | .noBranches => "if statement has no branches"
  | .symbolTaken symbol owner => s!"generated symbol '{symbol}' is already owned by the node at {owner.text}"
  | .wrongNode expected found => s!"expected a '{expected.name}' node, found '{found.name}'"
  | .unpairedScope => "INVARIANT: scope pushes and pops are paired"

/-- What the author of the program can do about a cause. -/
def hints : Cause → List String
  | .loopComparator _ => ["numeric for loops only support an ascending, inclusive '<=' bound"]
  | .untypedLoop _ => ["annotate the loop variable or start it from a literal"]
  | .untypedVariable _ => ["annotate the variable or initialize it with a literal"]
  | .readAfterStore _ => ["split it into separate assignments, copying the old value into a local first"]
  | .untypedParameter _ => ["give every parameter of a local function a type"]
  | .unprintable _ _ => ["print specializes on literal argument types; bind other values with a literal"]
  | .symbolTaken _ _ => ["every string literal and print call needs a distinct source position"]
  | _ => []

end Cause

/-- A cause and the span of the node it is about. -/
structure Fault where
  span : Span
  cause : Cause
deriving DecidableEq, Repr

end Lowering
