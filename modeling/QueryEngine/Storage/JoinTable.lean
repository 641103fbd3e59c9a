import QueryEngine.Storage.ChainTable
import QueryEngine.Storage.Pool

namespace QueryEngine

structure JoinList (ν : Type) where
  entries : List (Entry ν) := []
deriving Repr

structure JoinTable (ν : Type) where
  chains : Array (List (Entry ν))
  count : Nat
deriving Repr

namespace JoinList

variable {ν : Type}

def size (list : JoinList ν) : Nat := list.entries.length

def append (list : JoinList ν) (hash : Word) (payload : ν) : JoinList ν :=
  ⟨⟨list.size, hash, payload⟩ :: list.entries⟩

def isEmpty (list : JoinList ν) : Bool := list.entries.isEmpty

/-- Appends payloads of the given sizes under their hash codes. There is no list if the pool has no room for the
nodes. -/
def ofList? (pool : Pool) (size : ν → Nat) (pairs : List (Word × ν)) : Option (JoinList ν) := do
  let _ ← pairs.foldlM (fun pool pair => (Pool.take? pool (nodeHeader + size pair.2)).map Prod.snd) pool
  some (pairs.foldl (fun list pair => list.append pair.1 pair.2) {})

/-- Takes the entries from the latest to the earliest and puts each one at the front of its chain, so a chain ends up
in the order of appending. -/
def build (list : JoinList ν) : JoinTable ν where
  chains := list.entries.foldl
    (fun chains entry => chains.modify (ChainTable.bucketOf chains entry.hash) (entry :: ·))
    (Array.replicate (bucketsFor list.size) [])
  count := list.size

end JoinList

namespace JoinTable

variable {ν : Type}

def bucketCount (table : JoinTable ν) : Nat := table.chains.size

def isEmpty (table : JoinTable ν) : Bool := table.count = 0

def chainOf (table : JoinTable ν) (hash : Word) : List (Entry ν) :=
  (table.chains[ChainTable.bucketOf table.chains hash]?).getD []

def entries (table : JoinTable ν) : List (Entry ν) := table.chains.toList.flatten

def walk (table : JoinTable ν) (hash : Word) : List (Entry ν) :=
  (table.chainOf hash).filter fun entry => entry.hash = hash

def lookup? (table : JoinTable ν) (hash : Word) : Option (Entry ν) :=
  (table.chainOf hash).find? fun entry => entry.hash = hash

def nextSameHash? (table : JoinTable ν) (entry : Entry ν) (hash : Word) : Option (Entry ν) :=
  (ChainTable.entriesAfter? entry.number (table.chainOf entry.hash)).bind fun rest =>
    rest.find? fun other => other.hash = hash

end JoinTable

end QueryEngine
