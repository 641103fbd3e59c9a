import QueryEngine.Plan.Aggregate
import QueryEngine.Register.Evaluation
import QueryEngine.Storage.Pool
import QueryEngine.Storage.TablePart

namespace QueryEngine

inductive Physical where
  /-- The rows of a table that a branch sees, in the order of their ids. Each column goes into an attribute, and so does
  the row id, if it is needed. -/
  | scan (table : String) (columns : List (Nat × Attribute)) (rowId : Option Attribute) (branch : Nat)
  | select (child : Physical) (predicate : Scalar)
  | map (child : Physical) (mappings : List Mapping)
  /-- The first side of each key is for the left input, of which the attributes `carried` are handed on. -/
  | join (left right : Physical) (keys : List (Scalar × Scalar)) (carried : List Attribute)
  | group (child : Physical) (aggregates : List Aggregate)
  | print (child : Physical) (selection : List Attribute)
  | collect (child : Physical) (selection : List Attribute)
  | insert (table : String) (types : List ValueType) (values : List Scalar)
  | update (child : Physical) (table : String) (rowId : Attribute) (assignments : List Assignment)
  | delete (child : Physical) (table : String) (rowId : Attribute)
deriving Repr

namespace Physical

def name : Physical → String
  | scan .. => "TableScan"
  | select .. => "Select"
  | map .. => "Map"
  | join .. => "HashJoin"
  | group .. => "GroupBy"
  | print .. => "Print"
  | collect .. => "Result"
  | insert .. => "Insert"
  | update .. => "Update"
  | delete .. => "Delete"

def size : Physical → Nat
  | scan .. | insert .. => 1
  | select child _ | map child _ | group child _ | print child _ | collect child _ | update child _ _ _
  | delete child _ _ => child.size + 1
  | join left right _ _ => left.size + right.size + 1

/-- The operators from number `start` on, inputs first, each with the numbers of its inputs. -/
def nodesFrom (start : Nat) (tree : Physical) : List (Physical × List Nat) :=
  match tree with
  | scan .. | insert .. => [(tree, [])]
  | select child _ | map child _ | group child _ | print child _ | collect child _ | update child _ _ _
  | delete child _ _ => child.nodesFrom start ++ [(tree, [start + child.size - 1])]
  | join left right _ _ =>
    let middle := start + left.size
    left.nodesFrom start ++ right.nodesFrom middle ++ [(tree, [middle - 1, middle + right.size - 1])]

end Physical

namespace Emit

abbrev Sink := HeldRow → Emit Unit

def number (n : Nat) : Emit Reg := do
  if CodeType.i64.fits n then const .i64 n else trap

def tableHandle (table : String) : Emit Reg := do
  let handle ← inProgram fun program => program.tableHandle table
  if TablePart.largestHandle < handle then trap
  number handle

def tupleSlot (layout : TupleLayout) : Emit Reg := stackSlot (max layout.size 1)

def tupleLayout (types : List ValueType) : Emit (Nat × TupleLayout) := do
  let (id, layout) ← inProgram fun program => program.tupleLayout types
  if TupleLayout.largestSize < layout.size then trap
  return (id, layout)

def newCounter : Emit Reg := stackSlot 8

def increment (counter : Reg) : Emit Unit := do
  let n ← load .i64 counter
  let one ← const .i64 1
  let next ← binary .add n one
  store next counter

def printFormatted (format : String) (n : Reg) : Emit Unit := do
  let (address, len) ← constBytes (textBytes format)
  let n ← resize n .i64 true
  callEffect .printFormatted [address, len, n]

/-- Runs `body` for the nodes from `first` on, up to the null address. -/
def forNodes (first : Reg) (body : Reg → Emit Reg) : Emit Unit := do
  let cond (carried : List Reg) : Emit Reg := match carried with
    | [node] => do
      let null ← nullPtr
      compare .ne node null
    | _ => trap
  let step (carried : List Reg) : Emit (List Reg) := match carried with
    | [node] => do return [← body node]
    | _ => trap
  discard (whileLoop [first] cond step)

def nodePayload (node : Reg) : Emit Reg := ptrOffset node nodeHeader

end Emit

end QueryEngine
