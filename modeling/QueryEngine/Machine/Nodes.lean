import QueryEngine.Machine.Action
import QueryEngine.Storage.ChainTable

namespace QueryEngine

namespace Action

/-- More nodes than any chain has. -/
def chainLimit : Nat := 1 <<< 60

def nodeNext (node : Word) : Action Word := do return (← get).load 8 node

def setNext (node next : Word) : Action Unit := modify fun m => m.store 8 node next

def nodeHash (node : Word) : Action Word := do return (← get).load 8 (node + 8)

def newNode (memory : PoolMemory) (hash size next : Word) : Action (Word × PoolMemory) := do
  let (node, memory) ← takeFrom memory (nodeHeader + size.toNat)
  modify fun m => ((m.store 8 node next).store 8 (node + 8) hash).store 8 (node + 16) size
  return (node, memory)

def payloadOf (node : Word) : Word := node + UInt64.ofNat nodeHeader

def bucketOf (buckets : Array Word) (hash : Word) : Nat := hash.toNat % buckets.size

def headOf (buckets : Array Word) (hash : Word) : Word := buckets.getD (bucketOf buckets hash) 0

/-- The first node under a hash code in the chain that starts with `node`, or the null address. -/
def findInChain (hash : Word) : (limit : Nat) → (node : Word) → Action Word
  | 0, _ => trap
  | limit + 1, node => do
    if node = 0 then return 0
    if (← nodeHash node) = hash then return node
    findInChain hash limit (← nodeNext node)

def lookup (buckets : Array Word) (hash : Word) : Action Word :=
  findInChain hash chainLimit (headOf buckets hash)

def nextSameHash (node hash : Word) : Action Word := do findInChain hash chainLimit (← nodeNext node)

def pushFront (buckets : Array Word) (node : Word) : Action (Array Word) := do
  let hash ← nodeHash node
  setNext node (headOf buckets hash)
  return buckets.setIfInBounds (bucketOf buckets hash) node

def eachNode {σ : Type} (step : σ → Word → Action σ) : (limit : Nat) → σ → (node : Word) → Action σ
  | 0, _, _ => trap
  | limit + 1, state, node => do
    if node = 0 then return state
    let next ← nodeNext node
    eachNode step limit (← step state node) next

end Action

namespace NodeTable

open Action

/-- Puts a node at the front of its chain and counts its hash code if no other node of the chain has it. -/
def link (table : NodeTable) (node : Word) : Action NodeTable := do
  let found ← lookup table.buckets (← nodeHash node)
  return { table with
    buckets := ← pushFront table.buckets node
    distinct := if found = 0 then table.distinct + 1 else table.distinct }

def overloaded (table : NodeTable) : Bool := 3 * table.buckets.size < 4 * table.distinct

def rehash (table : NodeTable) : Action NodeTable :=
  let doubled := { table with buckets := Array.replicate (table.buckets.size * 2) 0, distinct := 0 }
  table.buckets.foldlM (fun table head => eachNode link chainLimit table head) doubled

def insert (table : NodeTable) (hash size : Word) : Action (Word × NodeTable) := do
  let (node, memory) ← newNode table.memory hash size 0
  let table ← link { table with memory } node
  if table.overloaded then return (node, ← table.rehash)
  return (node, table)

def firstFrom (table : NodeTable) (bucket : Nat) : Word :=
  ((table.buckets.toList.drop bucket).find? fun head => head ≠ 0).getD 0

def next (table : NodeTable) (node : Word) : Action Word := do
  let next ← nodeNext node
  if next ≠ 0 then return next
  return table.firstFrom (bucketOf table.buckets (← nodeHash node) + 1)

end NodeTable

namespace NodeList

open Action

def append (list : NodeList) (hash size : Word) : Action (Word × NodeList) := do
  let (node, memory) ← newNode list.memory hash size list.last
  return (node, { last := node, count := list.count + 1, memory })

/-- Takes the nodes from the latest to the earliest and puts each one at the front of its chain. -/
def build (list : NodeList) : Action (Array Word) :=
  eachNode pushFront chainLimit (Array.replicate (bucketsFor list.count) 0) list.last

end NodeList

end QueryEngine
