import QueryEngine.Word

namespace QueryEngine

/-- A payload under a hash code. Entries of one table are told apart by the number they were added under. -/
structure Entry (ν : Type) where
  number : Nat
  hash : Word
  payload : ν
deriving Repr, DecidableEq

/-- The least power of two that is at least `n`, and at least 1. -/
def powerOfTwoAbove (n : Nat) : Nat := n.nextPowerOfTwo

/-- The least power of two of which `count` entries fill at most three quarters. -/
def bucketsFor (count : Nat) : Nat := powerOfTwoAbove (max 1 ((4 * count + 2) / 3))

def largestBucketCount : Nat := 1 <<< 60 - 1

/-- Entries under hash codes. An entry goes to the front of the chain of its bucket, and a table with too many
different hash codes gets twice the buckets. -/
structure ChainTable (ν : Type) where
  chains : Array (List (Entry ν))
  distinct : Nat := 0
  count : Nat := 0
  rehashes : Nat := 0
deriving Repr

namespace ChainTable

variable {ν : Type}

def defaultBuckets : Nat := 16

def withBuckets (buckets : Nat) : ChainTable ν where
  chains := Array.replicate (powerOfTwoAbove (max 1 buckets)) []

def withBuckets? (buckets : Nat) : Option (ChainTable ν) :=
  if largestBucketCount < powerOfTwoAbove (max 1 buckets) then none else some (withBuckets buckets)

def bucketCount (table : ChainTable ν) : Nat := table.chains.size

/-- The bucket of a hash code. The number of buckets is a power of two. -/
def bucketOf (chains : Array (List (Entry ν))) (hash : Word) : Nat := hash.toNat % chains.size

def chainOf (table : ChainTable ν) (hash : Word) : List (Entry ν) :=
  (table.chains[bucketOf table.chains hash]?).getD []

def link (table : ChainTable ν) (entry : Entry ν) : ChainTable ν :=
  let known := (table.chainOf entry.hash).any fun other => other.hash = entry.hash
  { table with
    chains := table.chains.modify (bucketOf table.chains entry.hash) (entry :: ·)
    distinct := if known then table.distinct else table.distinct + 1 }

def entries (table : ChainTable ν) : List (Entry ν) := table.chains.toList.flatten

/-- Links the entries, in scan order, into twice as many buckets. -/
def rehash (table : ChainTable ν) : ChainTable ν :=
  let doubled : ChainTable ν := { table with chains := Array.replicate (table.chains.size * 2) [], distinct := 0 }
  { table.entries.foldl link doubled with rehashes := table.rehashes + 1 }

def overloaded (table : ChainTable ν) : Bool := 3 * table.bucketCount < 4 * table.distinct

def insert (table : ChainTable ν) (hash : Word) (payload : ν) : ChainTable ν :=
  let linked := { table.link ⟨table.count, hash, payload⟩ with count := table.count + 1 }
  if linked.overloaded then linked.rehash else linked

/-- Adds the pairs of a hash code and a payload to a table that has room for all of them. -/
def ofList (pairs : List (Word × ν)) : ChainTable ν :=
  pairs.foldl (fun table pair => table.insert pair.1 pair.2) (withBuckets (bucketsFor pairs.length))

def walk (table : ChainTable ν) (hash : Word) : List (Entry ν) :=
  (table.chainOf hash).filter fun entry => entry.hash = hash

def lookup? (table : ChainTable ν) (hash : Word) : Option (Entry ν) :=
  (table.chainOf hash).find? fun entry => entry.hash = hash

def entriesAfter? (number : Nat) : List (Entry ν) → Option (List (Entry ν))
  | [] => none
  | entry :: rest => if entry.number = number then some rest else entriesAfter? number rest

def nextSameHash? (table : ChainTable ν) (entry : Entry ν) (hash : Word) : Option (Entry ν) :=
  (entriesAfter? entry.number (table.chainOf entry.hash)).bind fun rest => rest.find? fun other => other.hash = hash

def firstFrom? (table : ChainTable ν) (bucket : Nat) : Option (Entry ν) :=
  if bound : bucket < table.chains.size then
    match table.chains[bucket] with
    | entry :: _ => some entry
    | [] => table.firstFrom? (bucket + 1)
  else none
termination_by table.chains.size - bucket

def first? (table : ChainTable ν) : Option (Entry ν) := table.firstFrom? 0

def next? (table : ChainTable ν) (entry : Entry ν) : Option (Entry ν) :=
  match entriesAfter? entry.number (table.chainOf entry.hash) with
  | some (next :: _) => some next
  | _ => table.firstFrom? (bucketOf table.chains entry.hash + 1)

end ChainTable

end QueryEngine
