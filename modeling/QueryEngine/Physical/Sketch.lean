import QueryEngine.Physical.Assembly
import QueryEngine.Plan.Sketch

namespace QueryEngine

/-- An operator to be added to an assembly. Its inputs are numbered, attributes are named. -/
inductive AssemblyStep where
  | scan (table : String) (columns : List (Nat × String)) (rowId : Option String)
  | select (child : Nat) (predicate : Formula)
  | map (child : Nat) (mappings : List (String × Formula))
  | join (left right : Nat) (keys : List (Formula × Formula)) (carried : List String)
  | group (child : Nat) (aggregates : List AggregateSketch)
  | print (child : Nat) (selection : List String)
  | collect (child : Nat) (selection : List String)
  | insert (table : String) (types : List ValueType) (values : List Formula)
  | update (child : Nat) (table rowId : String) (values : List (Nat × ValueType × Formula))
  | delete (child : Nat) (table rowId : String)
deriving Repr, DecidableEq

namespace Assembly

variable (find : String → Checked ScalarError Attribute)

def scalarOf (f : Formula) : Checked ScalarError Scalar := f.resolve id find

def aggregateOf : AggregateSketch → Checked ScalarError Aggregate
  | .keep name => do return .keep (← find name)
  | .count name => do return .countAll (← find name)
  | .sum name f => do return .sum (← scalarOf find f) (← find name)
  | .avg name f => do return .avg (← scalarOf find f) (← find name)
  | .min name f => do return .min (← scalarOf find f) (← find name)

inductive Addition where
  | leaf (tree : Physical)
  | over (child : Nat) (make : Physical → Physical)
  | overTwo (left right : Nat) (make : Physical → Physical → Physical)

/-- Scans read the rows of the first branch. -/
def addition : AssemblyStep → Checked ScalarError Addition
  | .scan table columns rowId => do
    let columns ← columns.mapM fun (index, name) => do return (index, ← find name)
    let rowId ← rowId.mapM find
    return .leaf (.scan table columns rowId masterBranch)
  | .select child predicate => do
    let predicate ← scalarOf find predicate
    return .over child fun tree => .select tree predicate
  | .map child mappings => do
    let mappings ← mappings.mapM fun (name, f) => do return Mapping.mk (← find name) (← scalarOf find f)
    return .over child fun tree => .map tree mappings
  | .join left right keys carried => do
    let keys ← keys.mapM fun (build, probe) => do return (← scalarOf find build, ← scalarOf find probe)
    let carried ← carried.mapM find
    return .overTwo left right fun first second => .join first second keys carried
  | .group child aggregates => do
    let aggregates ← aggregates.mapM (aggregateOf find)
    return .over child fun tree => .group tree aggregates
  | .print child selection => do
    let selection ← selection.mapM find
    return .over child fun tree => .print tree selection
  | .collect child selection => do
    let selection ← selection.mapM find
    return .over child fun tree => .collect tree selection
  | .insert table types values => do return .leaf (.insert table types (← values.mapM (scalarOf find)))
  | .update child table rowId values => do
    let rowId ← find rowId
    let assignments ← values.mapM fun (column, ty, f) => do return Assignment.mk column ty (← scalarOf find f)
    return .over child fun tree => .update tree table rowId assignments
  | .delete child table rowId => do
    let rowId ← find rowId
    return .over child fun tree => .delete tree table rowId

def add (s : Assembly) : Addition → Assembly × Except FlowProblem Physical
  | .leaf tree => (s.push tree, .ok tree)
  | .over child make => s.addOver child make
  | .overTwo left right make => s.addOverTwo left right make

/-- Adds operators one after the other. Gives how each one came out: its number, and it with all that is below it. There
is no assembly if an expression is wrong. -/
def steps (s : Assembly) :
    List AssemblyStep → Checked ScalarError (Assembly × List (Except FlowProblem (Nat × Physical)))
  | [] => .ok (s, [])
  | sketch :: sketches => do
    let (next, result) := s.add (← addition find sketch)
    let (last, results) ← steps next sketches
    return (last, result.map (s.size, ·) :: results)

end Assembly

end QueryEngine
