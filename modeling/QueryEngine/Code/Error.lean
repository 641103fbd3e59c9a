import QueryEngine.Attribute
import QueryEngine.Code.Function
import QueryEngine.Datum

namespace QueryEngine

inductive CallProblem where
  | count (expected given : Nat)
  | argument (index : Nat) (given expected : CodeType)
  | noResult
deriving Repr, DecidableEq

def CallProblem.text : CallProblem → String
  | count expected given => "expected " ++ toString expected ++ " arguments, got " ++ toString given
  | argument index given expected =>
    "argument " ++ toString index ++ " is " ++ given.text ++ ", expected " ++ expected.text
  | noResult => "routine returns nothing"

inductive CodeError where
  | unknownRoutine (name : String)
  | badCall (name : String) (problem : CallProblem)
  | mergeCount (first second : Nat)
  | mergeType (position : Nat) (first second : CodeType)
  | duplicateFunction (name : String)
  | noParameter (index : Nat)
  | function (cause : FunctionError)
deriving Repr, DecidableEq

def CodeError.message : CodeError → String
  | unknownRoutine name => "Unknown runtime routine " ++ name ++ "."
  | badCall name problem => "Bad call to " ++ name ++ ": " ++ problem.text ++ "."
  | mergeCount first second =>
    "Branches merge different numbers of values: " ++ toString first ++ " and " ++ toString second ++ "."
  | mergeType position first second =>
    "Merge slot " ++ toString position ++ " is " ++ first.text ++ " on one path and " ++ second.text ++ " on another."
  | duplicateFunction name => "Function " ++ name ++ " already exists in the module."
  | noParameter index => "Function has no parameter " ++ toString index ++ "."
  | function cause => cause.message

inductive ValueProblem where
  | unknownType
  | partCount (count : Nat) (ty : ValueType)
  | noParts (ty : ValueType)
  | unexpectedNullable (value ty : ValueType)
  | store (value ty : ValueType)
  | noIndicator (ty : ValueType)
  | tupleStore (count : Nat) (name : String)
  | tupleSizes (first second : Nat)
deriving Repr, DecidableEq

def ValueProblem.text : ValueProblem → String
  | unknownType => "a value of unknown type has no representation"
  | partCount count ty => toString count ++ " emitted values do not make a " ++ ty.text
  | noParts ty => "no emitted values for a " ++ ty.text
  | unexpectedNullable value ty => "a nullable " ++ value.text ++ " where " ++ ty.text ++ " is expected"
  | store value ty => "cannot store a " ++ value.text ++ " as " ++ ty.text
  | noIndicator ty => "no null indicator for a nullable " ++ ty.text
  | tupleStore count name => "storing " ++ toString count ++ " values as " ++ name
  | tupleSizes first second => "comparing tuples of " ++ toString first ++ " and " ++ toString second ++ " values"

/-- What cannot be done with the operators of a plan. Operators are named by their numbers. -/
inductive FlowProblem where
  | child (id : Nat)
  | noRoot
  | noOperator (id : Nat)
  | noInput (name : String)
  | noParent (id : Nat)
  | notStarted (id : Nat)
  | joinNotStarted (id : Nat)
  | groupNotStarted (id : Nat)
  | rowId (ty : ValueType)
deriving Repr, DecidableEq

def FlowProblem.text : FlowProblem → String
  | child id => "operator " ++ toString id ++ " cannot become a child"
  | noRoot => "the plan has no root"
  | noOperator id => "no physical operator " ++ toString id
  | noInput name => name ++ " has no input to consume"
  | noParent id => "operator " ++ toString id ++ " has no parent to hand rows to"
  | notStarted id => "operator " ++ toString id ++ " consumed before it produced"
  | joinNotStarted id => "join " ++ toString id ++ " consumed before it produced"
  | groupNotStarted id => "group by " ++ toString id ++ " consumed before it produced"
  | rowId ty => "a row id of type " ++ ty.text

inductive EmitError where
  | code (cause : CodeError)
  | type (cause : TypeError)
  | datum (cause : DatumError)
  | cast (source target : ValueType)
  | value (problem : ValueProblem)
  | missingValue (a : Attribute)
  | flow (problem : FlowProblem)
deriving Repr, DecidableEq

def EmitError.message : EmitError → String
  | code cause => cause.message
  | type cause => cause.message
  | datum cause => cause.message
  | cast source target => "Not implemented: cast from " ++ source.text ++ " to " ++ target.text ++ "."
  | value problem => "Invalid operation: " ++ problem.text ++ "."
  | missingValue a => "No value for " ++ a.text ++ " in the row."
  | flow problem => "Invalid operation: " ++ problem.text ++ "."

end QueryEngine
