namespace QueryEngine

/-- A block of memory of which the first `used` bytes have been handed out. -/
structure Block where
  size : Nat
  used : Nat
deriving Repr, DecidableEq

/-- Where an allocation starts: in which block of its pool, and how far into it. -/
structure Slot where
  block : Nat
  offset : Nat
deriving Repr, DecidableEq

structure Region where
  start : Slot
  size : Nat
deriving Repr, DecidableEq

namespace Region

/-- No byte belongs to both. -/
def apart (first second : Region) : Bool :=
  first.start.block != second.start.block || first.start.offset + first.size ≤ second.start.offset ||
    second.start.offset + second.size ≤ first.start.offset

def allApart : List Region → Bool
  | [] => true
  | region :: regions => regions.all region.apart && allApart regions

end Region

/-- Hands out memory from blocks that double in size. Nothing is given back before the whole pool is. The first block
is empty, so that there always is a last one. -/
structure Pool where
  blocks : Array Block := #[⟨0, 0⟩]
  nextSize : Nat
  allocated : Nat := 0
deriving Repr, DecidableEq

/-- Bytes before the payload of a node: a link, the hash code and the size of the payload. -/
def nodeHeader : Nat := 24

namespace Pool

def defaultBlock : Nat := 65536

def sizeLimit : Nat := 1 <<< 64

def largestBlock : Nat := 1 <<< 63 - 8

/-- The next multiple of 8. There is none where `n + 8` is not a size. -/
def roundUp? (n : Nat) : Option Nat := if n + 8 < sizeLimit then some ((n + 7) / 8 * 8) else none

def make? (blockSize : Nat) : Option Pool := do
  some { nextSize := ← roundUp? (max blockSize 8) }

def blockCount (pool : Pool) : Nat := pool.blocks.size - 1

def grow? (pool : Pool) (n : Nat) : Option Pool :=
  let size := max pool.nextSize n
  if largestBlock < size then none
  else some { pool with
    blocks := pool.blocks.push ⟨size, 0⟩
    nextSize := min (pool.nextSize * 2) (sizeLimit - 1) }

/-- Hands out `n` bytes, rounded up to a multiple of 8. -/
def take? (pool : Pool) (n : Nat) : Option (Slot × Pool) := do
  let n ← roundUp? n
  let fits := pool.blocks.back?.any fun block => n ≤ block.size - block.used
  let pool ← if fits then some pool else pool.grow? n
  let last := pool.blocks.size - 1
  let offset := (pool.blocks[last]?.map Block.used).getD 0
  some (⟨last, offset⟩, { pool with
    blocks := pool.blocks.modify last fun block => { block with used := block.used + n }
    allocated := pool.allocated + n })

/-- Hands out regions of the given sizes until one cannot be had. Each comes with the pool after it. -/
def takeEach (pool : Pool) : List Nat → List (Option (Region × Pool))
  | [] => []
  | n :: sizes => match pool.take? n with
    | none => [none]
    | some (slot, pool) => some (⟨slot, n⟩, pool) :: pool.takeEach sizes

/-- An address of the slot modulo 8. Blocks start at multiples of 8, but for the empty first one. -/
def misalignment (slot : Slot) : Nat := if slot.block = 0 then 1 else slot.offset % 8

end Pool

end QueryEngine
