import OpenFga.Condition.Value

/-!
# Condition programs

A condition compiles to a list of nodes that refer to each other by position. Every node
carries the type the compiler found for it.
-/

namespace OpenFga.Condition

abbrev NodeId := Nat

inductive StaticType where
  | dyn
  | null
  | bool
  | int
  | uint
  | double
  | string
  | bytes
  | duration
  | timestamp
  | ipAddress
  | list (element : StaticType)
  | map (value : StaticType)
  deriving DecidableEq

inductive UnaryOperator where
  | not
  | negate
  | notStrictlyFalse
  deriving DecidableEq

inductive BinaryOperator where
  | add
  | subtract
  | multiply
  | divide
  | modulo
  | equal
  | notEqual
  | greater
  | greaterEqual
  | less
  | lessEqual
  | in
  | index
  deriving DecidableEq

inductive Function where
  | duration
  | timestamp
  | ipAddress
  | int
  | uint
  | double
  | string
  | bytes
  | size
  | contains
  | startsWith
  | endsWith
  | inCidr
  deriving DecidableEq

/-- A fold over the items of a range. -/
structure Comprehension where
  iterRange : NodeId
  iterVar : String
  iterVar2 : Option String
  accuVar : String
  accuInit : NodeId
  loopCond : NodeId
  loopStep : NodeId
  result : NodeId

/-- An expression over the nodes it names. -/
inductive NodeKind where
  | literal (value : RuntimeValue)
  | parameter (name : ParameterName)
  | local (name : String)
  | list (ids : List NodeId)
  | map (ids : List (NodeId × NodeId))
  | select (operand : NodeId) (field : String) (test : Bool)
  | unary (operator : UnaryOperator) (operand : NodeId)
  | binary (operator : BinaryOperator) (left right : NodeId)
  | logicalAnd (left right : NodeId)
  | logicalOr (left right : NodeId)
  | conditional (condition truthy falsy : NodeId)
  | call (function : Function) (target : Option NodeId) (arguments : List NodeId)
  | comprehension (definition : Comprehension)

structure Node where
  kind : NodeKind
  staticType : StaticType

/-- An arena of nodes and the one to evaluate. -/
structure Program where
  nodes : List Node
  root : NodeId

/-- A compiled condition. The parameters are listed in the order of their names. -/
structure CompiledCondition where
  name : ConditionName
  parameters : List (ParameterName × ParameterType)
  program : Program
  runtimeValueBytes : Nat
  runtimeCollectionItems : Nat

/-- The variables of one level. -/
abbrev Scope (α : Type) := String → Option α

namespace Scope

variable {α : Type}

def empty : Scope α := fun _ => none

def insert (scope : Scope α) (name : String) (value : α) : Scope α :=
  Function.update scope name (some value)

/-- A name is looked up from the innermost level outwards. -/
def find (scopes : List (Scope α)) (name : String) : Option α :=
  scopes.findSome? (· name)

end Scope

end OpenFga.Condition
