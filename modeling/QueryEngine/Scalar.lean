import QueryEngine.Attribute
import QueryEngine.Datum

namespace QueryEngine

/-- Scalar expressions of predicates, computed columns and aggregates. An operand whose type differs from the one its
operation works in stands under a `cast`. -/
inductive Scalar where
  | cast (child : Scalar) (ty : ValueType)
  | not (child : Scalar)
  | arithmetic (op : ArithOp) (lhs rhs : Scalar) (ty : ValueType)
  | compare (mode : Comparison) (lhs rhs : Scalar)
  | and (lhs rhs : Scalar)
  | or (lhs rhs : Scalar)
  | column (a : Attribute)
  /-- A literal, which has been coerced to `ty`. -/
  | literal (value : Datum) (ty : ValueType)
  | null
deriving Repr, DecidableEq

inductive ScalarError where
  | type (cause : TypeError)
  | datum (cause : DatumError)
deriving Repr, DecidableEq

def ScalarError.message : ScalarError → String
  | type cause => cause.message
  | datum cause => cause.message

namespace Scalar

def ty : Scalar → ValueType
  | cast _ ty => ty
  | not child => ValueType.bool.withNullable child.ty.nullable
  | arithmetic _ _ _ ty => ty
  | compare _ lhs rhs | and lhs rhs | or lhs rhs => ValueType.bool.withNullable (lhs.ty.nullable || rhs.ty.nullable)
  | column a => a.ty
  | literal _ ty => ty
  | null => .unknown

def constant? (value : Datum) : Option Scalar :=
  if value.isNull then some null else value.naturalType?.map (literal value)

def typedConstant (value : Datum) (ty : ValueType) : Checked ScalarError Scalar :=
  if value.isNull then .ok null
  else do
    let value ← (value.coerce ty.asNotNull).mapCause .datum
    .ok (literal value ty.asNotNull)

def expectBool (operation : String) (e : Scalar) : Except ScalarError Unit :=
  match e.ty.shape with
  | .bool | .unknown => .ok ()
  | _ => .error (.type (.invalidOperand operation e.ty))

/-- Casts to the shape of `target`, unless the expression has it already or is the NULL literal. -/
def castTo (target : ValueType) (e : Scalar) : Scalar :=
  if e.ty.isUnknown || e.ty.sameShape target then e else cast e (target.withNullable e.ty.nullable)

/-- Products and quotients work on the operands' own precisions; beside a numeric an integer has none. -/
def widenInteger (result : ValueType) (e : Scalar) : Scalar :=
  if result.isNumeric && e.ty.shape = .integer then castTo (.numeric 10 0) e else e

def makeNot (e : Scalar) : Except ScalarError Scalar := do
  expectBool "not" e
  return not e

def makeArithmetic (op : ArithOp) (lhs rhs : Scalar) : Checked ScalarError Scalar := do
  let ty ← (ValueType.arithmetic op lhs.ty rhs.ty).mapCause .type
  let adapt : Scalar → Scalar := match op with
    | .add | .sub => castTo ty
    | .mul | .div => widenInteger ty
  .ok (arithmetic op (adapt lhs) (adapt rhs) ty)

def makeCompare (mode : Comparison) (lhs rhs : Scalar) : Except ScalarError Scalar := do
  let _ ← (ValueType.comparison lhs.ty rhs.ty).mapError .type
  return compare mode lhs rhs

def makeAnd (lhs rhs : Scalar) : Except ScalarError Scalar := do
  expectBool "and" lhs
  expectBool "and" rhs
  return and lhs rhs

def makeOr (lhs rhs : Scalar) : Except ScalarError Scalar := do
  expectBool "or" lhs
  expectBool "or" rhs
  return or lhs rhs

def reads : Scalar → List Attribute
  | cast child _ | not child => child.reads
  | arithmetic _ lhs rhs _ | compare _ lhs rhs | and lhs rhs | or lhs rhs => lhs.reads ++ rhs.reads
  | column a => [a]
  | literal _ _ | null => []

def attributes (e : Scalar) : AttributeSet := AttributeSet.ofList e.reads

/-- The two sides of each equality of a conjunction of equalities. -/
def equalityPairs? : Scalar → Option (List (Scalar × Scalar))
  | compare .equal lhs rhs => some [(lhs, rhs)]
  | and lhs rhs => do some ((← lhs.equalityPairs?) ++ (← rhs.equalityPairs?))
  | _ => none

def text? : Scalar → Option String
  | cast child ty => do some ("CAST(" ++ (← child.text?) ++ " AS " ++ ty.text ++ ")")
  | not child => do some ("NOT " ++ (← child.text?))
  | arithmetic op lhs rhs _ => do some ("(" ++ (← lhs.text?) ++ " " ++ op.symbol ++ " " ++ (← rhs.text?) ++ ")")
  | compare mode lhs rhs => do some ("(" ++ (← lhs.text?) ++ " " ++ mode.symbol ++ " " ++ (← rhs.text?) ++ ")")
  | and lhs rhs => do some ("(" ++ (← lhs.text?) ++ " AND " ++ (← rhs.text?) ++ ")")
  | or lhs rhs => do some ("(" ++ (← lhs.text?) ++ " OR " ++ (← rhs.text?) ++ ")")
  | column a => some a.text
  | literal value ty => if ty.isString then value.text?.map fun text => "'" ++ text ++ "'" else value.text?
  | null => some "NULL"

end Scalar

end QueryEngine
