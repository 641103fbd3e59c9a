import QueryEngine.Scalar

namespace QueryEngine

/-- A scalar expression as it is written: attributes are named, and types have not been checked. -/
inductive Formula where
  | column (name : String)
  | constant (value : Datum)
  | typed (value : Datum) (ty : ValueType)
  | null
  | cast (child : Formula) (ty : ValueType)
  | not (child : Formula)
  | arithmetic (op : ArithOp) (lhs rhs : Formula)
  | compare (mode : Comparison) (lhs rhs : Formula)
  | and (lhs rhs : Formula)
  | or (lhs rhs : Formula)
deriving Repr, DecidableEq

namespace Formula

variable {ε : Type}

/-- The expression that a formula stands for. `find` gives the attribute of a name. -/
def resolve (wrap : ScalarError → ε) (find : String → Checked ε Attribute) : Formula → Checked ε Scalar
  | column name => do return .column (← find name)
  | constant value => Checked.orTrap (Scalar.constant? value)
  | typed value ty => (Scalar.typedConstant value ty).mapCause wrap
  | null => .ok .null
  | cast child ty => do return .cast (← child.resolve wrap find) ty
  | not child => do
    let e ← child.resolve wrap find
    Checked.ofExcept ((Scalar.makeNot e).mapError wrap)
  | arithmetic op lhs rhs => do
    let a ← lhs.resolve wrap find
    let b ← rhs.resolve wrap find
    (Scalar.makeArithmetic op a b).mapCause wrap
  | compare mode lhs rhs => do
    let a ← lhs.resolve wrap find
    let b ← rhs.resolve wrap find
    Checked.ofExcept ((Scalar.makeCompare mode a b).mapError wrap)
  | and lhs rhs => do
    let a ← lhs.resolve wrap find
    let b ← rhs.resolve wrap find
    Checked.ofExcept ((Scalar.makeAnd a b).mapError wrap)
  | or lhs rhs => do
    let a ← lhs.resolve wrap find
    let b ← rhs.resolve wrap find
    Checked.ofExcept ((Scalar.makeOr a b).mapError wrap)

end Formula

end QueryEngine
