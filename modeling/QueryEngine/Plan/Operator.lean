import QueryEngine.Plan.Aggregate

namespace QueryEngine

inductive JoinMethod where
  | hash
  | index
deriving Repr, DecidableEq

def JoinMethod.text : JoinMethod → String
  | hash => "Hash"
  | index => "Index"

/-- A scan of a table: the attributes its columns are read into, and the one of the row id. -/
structure TableScan where
  table : String
  scan : Nat
  columns : List (Nat × Attribute)
  rowId : Attribute
  branch : Nat
deriving Repr, DecidableEq

inductive Operator where
  | scan (source : TableScan)
  | select (child : Nat) (predicate : Scalar)
  | map (child : Nat) (mappings : List Mapping)
  | join (left right : Nat) (predicate : Scalar) (method : JoinMethod)
  | group (child : Nat) (aggregates : List Aggregate)
  | insert (table : String) (types : List ValueType) (values : List Scalar) (branch : Nat)
  | update (child : Nat) (table : String) (rowId : Attribute) (assignments : List Assignment) (branch : Nat)
  | delete (child : Nat) (table : String) (rowId : Attribute) (branch : Nat)
  | result (child : Nat) (selection : List Attribute)
deriving Repr, DecidableEq

namespace Operator

def name : Operator → String
  | scan .. => "TableScan"
  | select .. => "Select"
  | map .. => "Map"
  | join .. => "Join"
  | group .. => "GroupBy"
  | insert .. => "Insert"
  | update .. => "Update"
  | delete .. => "Delete"
  | result .. => "Result"

def children : Operator → List Nat
  | scan _ | insert .. => []
  | select child _ | map child _ | group child _ | update child .. | delete child .. | result child _ => [child]
  | join left right _ _ => [left, right]

def reads : Operator → List Attribute
  | scan _ => []
  | select _ predicate | join _ _ predicate _ => predicate.reads
  | map _ mappings => mappings.flatMap fun mapping => mapping.value.reads
  | group _ aggregates => aggregates.flatMap Aggregate.reads
  | insert _ _ values _ => values.flatMap Scalar.reads
  | update _ _ rowId assignments _ => rowId :: assignments.flatMap fun assignment => assignment.value.reads
  | delete _ _ rowId _ => [rowId]
  | result _ selection => selection

def joined (items : List String) : String := String.intercalate ", " items

def text? : Operator → Option String
  | scan source => some ("TableScan " ++ source.table ++ " (scan " ++ toString source.scan ++ ")")
  | select _ predicate => do some ("Select " ++ (← predicate.text?))
  | map _ mappings => do
    let items ← mappings.mapM fun mapping => do some (mapping.result.text ++ " = " ++ (← mapping.value.text?))
    some ("Map " ++ joined items)
  | join _ _ predicate method => do some ("Join " ++ method.text ++ " " ++ (← predicate.text?))
  | group _ aggregates => do some ("GroupBy " ++ joined (← aggregates.mapM Aggregate.text?))
  | insert table _ values _ => do some ("Insert " ++ table ++ " (" ++ joined (← values.mapM Scalar.text?) ++ ")")
  | update _ table _ assignments _ => do
    let items ← assignments.mapM fun assignment => do
      some ("#" ++ toString assignment.column ++ " = " ++ (← assignment.value.text?))
    some ("Update " ++ table ++ " " ++ joined items)
  | delete _ table _ _ => some ("Delete " ++ table)
  | result _ selection => some ("Result [" ++ joined (selection.map Attribute.text) ++ "]")

end Operator

end QueryEngine
