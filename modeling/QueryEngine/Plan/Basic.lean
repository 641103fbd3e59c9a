import QueryEngine.Plan.Operator

namespace QueryEngine

inductive PlanError where
  | unknownOperator (id : Nat)
  | alreadyAttached (id : Nat)
  | noRoot
  | unsatisfied (name : String) (id : Nat) (missing : AttributeSet)
  | notCondition (name : String) (ty : ValueType)
  | scalar (cause : ScalarError)
deriving Repr, DecidableEq

def PlanError.message : PlanError → String
  | unknownOperator id => "No operator " ++ toString id ++ " in the plan."
  | alreadyAttached id => "Operator " ++ toString id ++ " already has a parent."
  | noRoot => "The plan has no result operator."
  | unsatisfied name id missing =>
    name ++ " (operator " ++ toString id ++ ") requires " ++ missing.text ++ ", which its input does not produce."
  | notCondition name ty => name ++ " needs a bool condition, got " ++ ty.text ++ "."
  | scalar cause => cause.message

structure PlanNode where
  op : Operator
  parent : Option Nat := none
deriving Repr, DecidableEq

/-- The operators of a query, by number. An operator is added after its inputs and is the only parent of each. -/
structure Plan where
  nodes : Array PlanNode := #[]
  root : Option Nat := none
deriving Repr, DecidableEq

namespace Plan

def size (plan : Plan) : Nat := plan.nodes.size

def node (plan : Plan) (id : Nat) : Except PlanError PlanNode :=
  match plan.nodes[id]? with
  | some node => .ok node
  | none => .error (.unknownOperator id)

def operator (plan : Plan) (id : Nat) : Except PlanError Operator := do return (← plan.node id).op

def parent (plan : Plan) (id : Nat) : Except PlanError (Option Nat) := do return (← plan.node id).parent

/-- Only an operator without a parent can get one, or be the root. -/
def expectFree (plan : Plan) (id : Nat) : Except PlanError Unit := do
  if (← plan.node id).parent.isSome then throw (.alreadyAttached id)

def attach (plan : Plan) (child : Nat) : Plan :=
  { plan with nodes := plan.nodes.modify child fun node => { node with parent := some plan.size } }

def add (plan : Plan) (op : Operator) : Except PlanError (Nat × Plan) := do
  op.children.forM plan.expectFree
  let attached := op.children.foldl attach plan
  return (plan.size, { attached with nodes := attached.nodes.push { op } })

def expectCondition (name : String) (predicate : Scalar) : Except PlanError Unit :=
  match predicate.ty.shape with
  | .bool | .unknown => .ok ()
  | _ => .error (.notCondition name predicate.ty)

def addSelect (plan : Plan) (child : Nat) (predicate : Scalar) : Except PlanError (Nat × Plan) := do
  expectCondition "Select" predicate
  plan.add (.select child predicate)

def addJoin (plan : Plan) (left right : Nat) (predicate : Scalar) (method : JoinMethod) :
    Except PlanError (Nat × Plan) := do
  expectCondition "Join" predicate
  plan.add (.join left right predicate method)

def setRoot (plan : Plan) (id : Nat) : Except PlanError Plan := do
  plan.expectFree id
  return { plan with root := some id }

def addRoot (plan : Plan) (op : Operator) : Except PlanError (Nat × Plan) := do
  let (id, plan) ← plan.add op
  return (id, { plan with root := some id })

end Plan

end QueryEngine
