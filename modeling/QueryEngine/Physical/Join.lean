import QueryEngine.Physical.Basic

namespace QueryEngine.Emit

/-- How a row of the left input of a join lies in memory: its keys, then the attributes that are handed on. -/
def joinTypes (keys : List (Scalar × Scalar)) (carried : List Attribute) : List ValueType :=
  keys.map (fun key => key.1.ty) ++ carried.map Attribute.ty

def buildRow (list : Reg) (layout : TupleLayout) (keys : List Scalar) (carried : List Attribute) : Sink := fun row => do
  let keys ← keys.mapM (Scalar.emit row)
  let hash ← Held.hashTuple keys
  let values ← row.values carried
  let size ← const .i64 layout.size
  let payload ← callValue .listAppend [list, hash, size]
  Held.storeTuple layout payload (keys ++ values)

/-- One nested check for each key. Runs `code` when the keys are equal. -/
def whenEqual (code : Emit Unit) : List Held → List Held → Emit Unit
  | stored :: rest, key :: keys => do
    let result ← Held.compare .equal stored key
    let equal ← result.isTrue
    ifThen equal (whenEqual code rest keys)
  | _, _ => code

/-- Hands on a row of the right input with each row of the left one that has equal keys. -/
def probeRow (table : Reg) (layout : TupleLayout) (keys : List Scalar) (carried : List Attribute) (next : Sink) :
    Sink := fun row => do
  let keys ← keys.mapM (Scalar.emit row)
  let hash ← Held.hashTuple keys
  let first ← callValue .joinLookup [table, hash]
  forNodes first fun node => do
    let payload ← nodePayload node
    let stored ← Held.loadTuple layout payload
    let joined := (carried.zip (stored.drop keys.length)).reverse ++ row
    whenEqual (next joined) (stored.take keys.length) keys
    callValue .joinNextSameHash [table, node, hash]

/-- The left input is collected first, then made into a hash table, which each row of the right input looks its keys up
in. -/
def joinRows (left right : Sink → Emit Unit) (keys : List (Scalar × Scalar)) (carried : List Attribute) (next : Sink) :
    Emit Unit := do
  let (_, layout) ← tupleLayout (joinTypes keys carried)
  let list ← callValue .listCreate []
  left (buildRow list layout (keys.map Prod.fst) carried)
  let table ← callValue .joinBuild [list]
  right (probeRow table layout (keys.map Prod.snd) carried next)
  callEffect .joinFree [table]

end QueryEngine.Emit
