import QueryEngine.Scalar

namespace QueryEngine

inductive Aggregate where
  /-- A grouping key, passed through unchanged. -/
  | keep (a : Attribute)
  | sum (argument : Scalar) (a : Attribute)
  /-- The argument is a numeric: any other is cast to one when the aggregate is made. -/
  | avg (argument : Scalar) (a : Attribute)
  | countAll (a : Attribute)
  | min (argument : Scalar) (a : Attribute)
deriving Repr, DecidableEq

namespace Aggregate

def averageType : ValueType := .numeric 18 2

def expectNumber (operation : String) (argument : Scalar) : Except ScalarError Unit :=
  match argument.ty.shape with
  | .integer | .numeric _ _ => .ok ()
  | _ => .error (.type (.invalidOperand operation argument.ty))

def makeSum (attributes : Attributes) (argument : Scalar) : Except ScalarError (Aggregate × Attributes) := do
  expectNumber "sum" argument
  let (a, attributes) := attributes.value (some "sum") argument.ty
  return (sum argument a, attributes)

def makeAvg (attributes : Attributes) (argument : Scalar) : Except ScalarError (Aggregate × Attributes) := do
  expectNumber "avg" argument
  let ty := argument.ty
  let argument := if ty.isNumeric then argument else .cast argument (averageType.withNullable ty.nullable)
  let (a, attributes) := attributes.value (some "avg") argument.ty
  return (avg argument a, attributes)

def makeCount (attributes : Attributes) : Aggregate × Attributes :=
  let (a, attributes) := attributes.value (some "count") .integer
  (countAll a, attributes)

def makeMin (attributes : Attributes) (argument : Scalar) : Except ScalarError (Aggregate × Attributes) := do
  if argument.ty.isUnknown || argument.ty.shape = .bool then throw (.type (.invalidOperand "min" argument.ty))
  let (a, attributes) := attributes.value (some "min") argument.ty
  return (min argument a, attributes)

def result : Aggregate → Attribute
  | keep a | sum _ a | avg _ a | countAll a | min _ a => a

def reads : Aggregate → List Attribute
  | keep a => [a]
  | countAll _ => []
  | sum argument _ | avg argument _ | min argument _ => argument.reads

def text? : Aggregate → Option String
  | keep a => some ("keep(" ++ a.text ++ ")")
  | sum argument a => do some (a.text ++ " = sum(" ++ (← argument.text?) ++ ")")
  | avg argument a => do some (a.text ++ " = avg(" ++ (← argument.text?) ++ ")")
  | countAll a => some (a.text ++ " = count(*)")
  | min argument a => do some (a.text ++ " = min(" ++ (← argument.text?) ++ ")")

end Aggregate

structure Assignment where
  column : Nat
  ty : ValueType
  value : Scalar
deriving Repr, DecidableEq

structure Mapping where
  result : Attribute
  value : Scalar
deriving Repr, DecidableEq

end QueryEngine
