import QueryEngine.Formula
import QueryEngine.Plan.Planner

namespace QueryEngine

inductive AggregateSketch where
  | keep (name : String)
  | count (name : String)
  | sum (name : String) (argument : Formula)
  | avg (name : String) (argument : Formula)
  | min (name : String) (argument : Formula)
deriving Repr, DecidableEq

/-- One step of building a plan. Operators are numbered in the order they are added, attributes are named. -/
inductive PlanStep where
  | scan (table label : String)
  /-- A scan of the given columns as they are described, whatever the table is. -/
  | columnScan (table : String) (columns : List (Nat × String × ValueType)) (rowId : String) (branch : Nat)
  | select (child : Nat) (predicate : Formula)
  /-- Values without a type have the one of their expression. -/
  | map (child : Nat) (mappings : List (String × Formula × Option ValueType))
  | join (left right : Nat) (predicate : Formula) (method : JoinMethod)
  | group (child : Nat) (aggregates : List AggregateSketch)
  | result (child : Nat) (names : List String)
  | insert (table : String) (values : List Formula)
  | update (child : Nat) (label : String) (values : List (String × Formula))
  | delete (child : Nat) (label : String)
  /-- An insert of values that are not fitted to the columns. -/
  | plainInsert (table : String) (types : List ValueType) (values : List Formula)
  | plainUpdate (child : Nat) (table rowId : String) (values : List (Nat × ValueType × Formula))
  | plainDelete (child : Nat) (table rowId : String)
  | root (id : Nat)
  | newValue (name : String) (ty : ValueType)
  | newHidden (name : String) (ty : ValueType)
deriving Repr, DecidableEq

namespace Planner

def named (p : Planner) (name : String) : Checked PlannerError Attribute := Checked.ofExcept (p.attributeNamed name)

def scalar (p : Planner) (f : Formula) : Checked PlannerError Scalar := f.resolve .scalar p.named

def added (result : Except PlannerError (Nat × Planner)) : Checked PlannerError Planner := do
  return (← Checked.ofExcept result).2

def describeColumns (scan : Nat) (table : String) :
    List (Nat × String × ValueType) → Planner → List (Nat × Attribute) × Planner
  | [], p => ([], p)
  | (index, name, ty) :: columns, p =>
    let (a, attributes) := p.attributes.column scan table index name ty
    let (rest, p) := describeColumns scan table columns ({ p with attributes }.give name a)
    ((index, a) :: rest, p)

def columnScan (p : Planner) (table : String) (columns : List (Nat × String × ValueType)) (rowId : String)
    (branch : Nat) : Checked PlannerError Planner :=
  let (scan, attributes) := p.attributes.newScan
  let (columns, p) := describeColumns scan table columns { p with attributes }
  let (a, attributes) := p.attributes.rowId scan table
  added (({ p with attributes }.give rowId a).add (.scan { table, scan, columns, rowId := a, branch }))

def mapValues : List (String × Formula × Option ValueType) → Planner → Checked PlannerError (List Mapping × Planner)
  | [], p => .ok ([], p)
  | (name, f, ty) :: mappings, p => do
    let value ← p.scalar f
    let (result, p) := p.newValue name (ty.getD value.ty)
    let (rest, p) ← mapValues mappings p
    return (⟨result, value⟩ :: rest, p)

def aggregate (p : Planner) : AggregateSketch → Checked PlannerError (Aggregate × Planner)
  | .keep name => do
    let a ← p.named name
    return (.keep a, p.give name a)
  | .count name =>
    let (made, attributes) := Aggregate.makeCount p.attributes
    .ok (made, { p with attributes }.give name made.result)
  | .sum name f => do made name Aggregate.makeSum (← p.scalar f)
  | .avg name f => do made name Aggregate.makeAvg (← p.scalar f)
  | .min name f => do made name Aggregate.makeMin (← p.scalar f)
where
  made (name : String) (make : Attributes → Scalar → Except ScalarError (Aggregate × Attributes)) (argument : Scalar) :
      Checked PlannerError (Aggregate × Planner) := do
    let (made, attributes) ← Checked.ofExcept ((make p.attributes argument).mapError fun cause => .plan (.scalar cause))
    return (made, { p with attributes }.give name made.result)

def aggregateAll : List AggregateSketch → Planner → Checked PlannerError (List Aggregate × Planner)
  | [], p => .ok ([], p)
  | sketch :: sketches, p => do
    let (first, p) ← p.aggregate sketch
    let (rest, p) ← aggregateAll sketches p
    return (first :: rest, p)

def addThenRoot (p : Planner) (op : Operator) : Checked PlannerError Planner := added (p.addRoot op)

def step (p : Planner) : PlanStep → Checked PlannerError Planner
  | .scan table label => added (p.scan table label)
  | .columnScan table columns rowId branch => p.columnScan table columns rowId branch
  | .select child predicate => do
    let predicate ← p.scalar predicate
    added (p.withPlan fun plan => plan.addSelect child predicate)
  | .map child mappings => do
    let (mappings, p) ← mapValues mappings p
    added (p.add (.map child mappings))
  | .join left right predicate method => do
    let predicate ← p.scalar predicate
    added (p.withPlan fun plan => plan.addJoin left right predicate method)
  | .group child aggregates => do
    let (aggregates, p) ← aggregateAll aggregates p
    added (p.add (.group child aggregates))
  | .result child names => do
    let selection ← names.mapM p.named
    p.addThenRoot (.result child selection)
  | .insert table values => do
    let values ← values.mapM p.scalar
    added (p.insert table values)
  | .update child label values => do
    let values ← values.mapM fun (column, f) => do return (column, ← p.scalar f)
    added (p.update child label values)
  | .delete child label => added (p.delete child label)
  | .plainInsert table types values => do
    let values ← values.mapM p.scalar
    p.addThenRoot (.insert table types values p.branch)
  | .plainUpdate child table rowId values => do
    let rowId ← p.named rowId
    let assignments ← values.mapM fun (column, ty, f) => do return Assignment.mk column ty (← p.scalar f)
    p.addThenRoot (.update child table rowId assignments p.branch)
  | .plainDelete child table rowId => do
    let rowId ← p.named rowId
    p.addThenRoot (.delete child table rowId p.branch)
  | .root id => do
    let plan ← Checked.ofExcept ((p.plan.setRoot id).mapError .plan)
    return { p with plan }
  | .newValue name ty => .ok (p.newValue name ty).2
  | .newHidden name ty =>
    let (a, attributes) := p.attributes.value none ty
    .ok ({ p with attributes }.give name a)

/-- Runs steps up to the first one that fails, whose number is given with what is wrong. -/
def steps : (number : Nat) → List PlanStep → Planner → Except (Nat × Fault PlannerError) Planner
  | _, [], p => .ok p
  | number, first :: rest, p => match p.step first with
    | .ok p => steps (number + 1) rest p
    | .error fault => .error (number, fault)

end Planner

end QueryEngine
