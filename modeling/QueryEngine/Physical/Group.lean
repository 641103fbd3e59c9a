import QueryEngine.Physical.Basic

namespace QueryEngine

namespace Aggregate

def keys (aggregates : List Aggregate) : List Attribute :=
  aggregates.filterMap fun aggregate => match aggregate with
    | keep a => some a
    | _ => none

/-- What a group keeps for an aggregate: an average its sum and its number of rows, any other the result so far. -/
def stateTypes (aggregates : List Aggregate) : List ValueType :=
  aggregates.flatMap fun aggregate => match aggregate with
    | avg _ a => [a.ty, .integer]
    | _ => [aggregate.result.ty]

def keyFields : List Aggregate → List Held → List Held
  | keep _ :: aggregates, field :: state => field :: keyFields aggregates state
  | avg .. :: aggregates, _ :: _ :: state => keyFields aggregates state
  | _ :: aggregates, _ :: state => keyFields aggregates state
  | _, _ => []

def one : Emit Held := Held.constant (.integer 1) .integer

def initial (row : HeldRow) : Aggregate → Emit (List Held)
  | keep a => do
    let value ← row.value a
    return [← value.withNullability a.ty]
  | sum argument a | min argument a => do
    let value ← argument.emit row
    return [← value.withNullability a.ty]
  | avg argument a => do
    let value ← argument.emit row
    let sum ← value.withNullability a.ty
    return [sum, ← one]
  | countAll _ => do return [← one]

def initialState (row : HeldRow) : List Aggregate → Emit (List Held)
  | [] => return []
  | aggregate :: aggregates => do
    let fields ← aggregate.initial row
    return fields ++ (← initialState row aggregates)

def leastOf (ty : ValueType) (current value : Held) : Emit Held :=
  match current, value with
  | .present a, .present b => do return .present (← Present.smaller a b)
  | _, _ => Held.min ty current value

def updateState (row : HeldRow) : List Aggregate → List Held → Emit (List Held)
  | [], _ => return []
  | keep _ :: aggregates, key :: state => do return key :: (← updateState row aggregates state)
  | sum argument a :: aggregates, total :: state => do
    let value ← argument.emit row
    let total ← Held.arithmetic .add a.ty total value
    return total :: (← updateState row aggregates state)
  | avg argument a :: aggregates, total :: count :: state => do
    let value ← argument.emit row
    let total ← Held.arithmetic .add a.ty total value
    let n ← one
    let count ← Held.arithmetic .add .integer count n
    return total :: count :: (← updateState row aggregates state)
  | countAll _ :: aggregates, count :: state => do
    let n ← one
    let count ← Held.arithmetic .add .integer count n
    return count :: (← updateState row aggregates state)
  | min argument a :: aggregates, current :: state => do
    let value ← argument.emit row
    let value ← value.withNullability a.ty
    let least ← leastOf a.ty current value
    return least :: (← updateState row aggregates state)
  | _, _ => Emit.trap

def outputRow : List Aggregate → List Held → HeldRow → Emit HeldRow
  | [], _, row => return row
  | avg _ a :: aggregates, total :: count :: state, row => do
    let quotient ← Held.arithmetic .div a.ty total count
    outputRow aggregates state ((a, quotient) :: row)
  | aggregate :: aggregates, value :: state, row => outputRow aggregates state ((aggregate.result, value) :: row)
  | _, _, _ => Emit.trap

end Aggregate

namespace Emit

def updateGroup (aggregates : List Aggregate) (layout : TupleLayout) (row : HeldRow) (address : Reg) : Emit Unit := do
  let current ← Held.loadTuple layout address
  let state ← Aggregate.updateState row aggregates current
  Held.storeTuple layout address state

def finishGroup (aggregates : List Aggregate) (layout : TupleLayout) (next : Sink) (address : Reg) : Emit Unit := do
  let state ← Held.loadTuple layout address
  next (← Aggregate.outputRow aggregates state [])

/-- The first row starts the only group there is, any other one is folded into it. -/
def singleRow (aggregates : List Aggregate) (layout : TupleLayout) (slot seen : Reg) : Sink := fun row => do
  let n ← load .i64 seen
  let zero ← const .i64 0
  let first ← compare .eq n zero
  let start : Emit (List Reg) := do
    let state ← Aggregate.initialState row aggregates
    Held.storeTuple layout slot state
    let flag ← const .i64 1
    store flag seen
    return []
  let fold : Emit (List Reg) := do
    updateGroup aggregates layout row slot
    return []
  discard (ifThenElse first start fold)

def findGroup (aggregates : List Aggregate) (layout : TupleLayout) (table hash : Reg) (keys : List Held) :
    Emit Reg := do
  let first ← callValue .chainLookup [table, hash]
  let differs (node : Reg) : Emit (List Reg) := do
    let payload ← nodePayload node
    let stored ← Held.loadTuple layout payload
    let same ← Held.equalsTuple (Aggregate.keyFields aggregates stored) keys
    return [← Emit.not same]
  let cond (carried : List Reg) : Emit Reg := match carried with
    | [node] => do
      let null ← nullPtr
      let present ← compare .ne node null
      match ← ifThenElse present (differs node) (do return [← constBool false]) with
      | [result] => return result
      | _ => trap
    | _ => trap
  let step (carried : List Reg) : Emit (List Reg) := match carried with
    | [node] => do return [← callValue .chainNextSameHash [table, node, hash]]
    | _ => trap
  match ← whileLoop [first] cond step with
  | [found] => return found
  | _ => trap

/-- Folds a row into the group with its keys, which the first such row starts. -/
def keyedRow (aggregates : List Aggregate) (layout : TupleLayout) (table : Reg) : Sink := fun row => do
  let keys ← (Aggregate.keys aggregates).mapM fun a => do
    let value ← row.value a
    value.withNullability a.ty
  let hash ← Held.hashTuple keys
  let node ← findGroup aggregates layout table hash keys
  let null ← nullPtr
  let missing ← compare .eq node null
  let start : Emit (List Reg) := do
    let size ← const .i64 layout.size
    let payload ← callValue .chainInsert [table, hash, size]
    let state ← Aggregate.initialState row aggregates
    Held.storeTuple layout payload state
    return []
  let fold : Emit (List Reg) := do
    let payload ← nodePayload node
    updateGroup aggregates layout row payload
    return []
  discard (ifThenElse missing start fold)

/-- Without keys there is one group, and none if there is no row. With keys the groups are kept in a hash table and
handed on in its order. -/
def groupRows (child : Sink → Emit Unit) (aggregates : List Aggregate) (next : Sink) : Emit Unit := do
  let (_, layout) ← tupleLayout (Aggregate.stateTypes aggregates)
  if (Aggregate.keys aggregates).isEmpty then
    let slot ← tupleSlot layout
    let seen ← newCounter
    child (singleRow aggregates layout slot seen)
    let n ← load .i64 seen
    let zero ← const .i64 0
    let any ← compare .ne n zero
    ifThen any (finishGroup aggregates layout next slot)
  else
    let table ← callValue .chainCreate []
    child (keyedRow aggregates layout table)
    let first ← callValue .chainFirst [table]
    forNodes first fun node => do
      let payload ← nodePayload node
      finishGroup aggregates layout next payload
      callValue .chainNext [table, node]
    callEffect .chainFree [table]

end Emit

end QueryEngine
