import QueryEngine.Storage.Pool
import QueryEngine.Word

namespace QueryEngine

/-- A pool and the address of each of its blocks. -/
structure PoolMemory where
  pool : Pool
  starts : Array Word

/-- A hash table whose entries are nodes in memory. Each bucket holds the address of the first node of its chain, and
each node that of the next one. -/
structure NodeTable where
  buckets : Array Word
  distinct : Nat := 0
  memory : PoolMemory

/-- Nodes that have been appended one after the other. Each one holds the address of the one before it. -/
structure NodeList where
  last : Word := 0
  count : Nat := 0
  memory : PoolMemory

inductive MachineObject where
  | pool (memory : PoolMemory)
  | chainTable (table : NodeTable)
  | joinList (list : NodeList)
  | joinTable (buckets : Array Word)
  | buffer

inductive ObjectKind where
  | pool
  | chainTable
  | joinList
  | joinTable
  | buffer
deriving Repr, DecidableEq

def ObjectKind.text : ObjectKind → String
  | pool => "memory pool"
  | chainTable => "hashtable"
  | joinList => "join list"
  | joinTable => "static hashtable"
  | buffer => "buffer"

def MachineObject.kind : MachineObject → ObjectKind
  | pool _ => .pool
  | chainTable _ => .chainTable
  | joinList _ => .joinList
  | joinTable _ => .joinTable
  | buffer => .buffer

end QueryEngine
