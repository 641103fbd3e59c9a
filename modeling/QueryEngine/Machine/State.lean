import Std.Data.HashMap
import QueryEngine.Code.Program
import QueryEngine.Machine.Objects
import QueryEngine.Settings
import QueryEngine.Storage.TablePart

namespace QueryEngine

structure Outcome where
  output : String := ""
  overflow : Bool := false
  diagnostics : Array String := #[]
  rows : Array Row := #[]

structure Machine where
  program : Program
  database : Database
  settings : Settings
  /-- The bytes that have been written since the run started. All others are zero. -/
  scratch : Std.HashMap Word UInt8 := {}
  taken : Nat := 0
  objects : List (Word × MachineObject) := []
  /-- Rows that are added when the run is over. -/
  pending : Array (String × Row) := #[]
  outcome : Outcome := {}

namespace Machine

def start (program : Program) (database : Database) (settings : Settings) : Machine := { program, database, settings }

def encoding (m : Machine) : NullEncoding := m.program.encoding

def scratchAddress (offset : Nat) : Word := Place.address ⟨.scratch, 0, offset⟩

/-- The next multiple of 8 above `size`: addresses of memory are multiples of 8, and no two are the same. -/
def regionSize (size : Nat) : Nat := (size / 8 + 1) * 8

/-- The address of `size` bytes that nothing else uses, unless the arena is used up. -/
def newRegion? (m : Machine) (size : Nat) : Option (Word × Machine) :=
  let taken := m.taken + regionSize size
  if taken ≤ Arena.scratch.span then some (scratchAddress m.taken, { m with taken }) else none

def byteAt (m : Machine) (a : Word) : UInt8 :=
  match placeAt? a with
  | none => 0
  | some place => match place.arena with
    | .text => m.database.heap.byteAt place.region place.offset
    | .literal => m.program.literals.byteAt place.region place.offset
    | .column => m.database.columnByteAt m.program.tables place.region place.offset
    | .scratch => m.scratch.getD a 0

def setByte (m : Machine) (a : Word) (b : UInt8) : Machine :=
  match placeAt? a with
  | none => m
  | some place => match place.arena with
    | .text => { m with database.heap := m.database.heap.setByte place.region place.offset b }
    | .literal => { m with program.literals := m.program.literals.setByte place.region place.offset b }
    | .column => { m with database := m.database.setColumnByte m.program.tables place.region place.offset b }
    | .scratch => { m with scratch := m.scratch.insert a b }

def readBytes (m : Machine) (a : Word) (count : Nat) : Bytes :=
  (List.range count).map fun i => m.byteAt (a + UInt64.ofNat i)

def writeBytes (m : Machine) (a : Word) : Bytes → Machine
  | [] => m
  | b :: rest => (m.setByte a b).writeBytes (a + 1) rest

def load (m : Machine) (count : Nat) (a : Word) : Word := Word.ofBytes (m.readBytes a count)

def store (m : Machine) (count : Nat) (a w : Word) : Machine := m.writeBytes a (Word.bytes count w)

def readText (m : Machine) (a : Word) (count : Nat) : String := bytesText (m.readBytes a count)

def liveObjects (m : Machine) : Nat := m.objects.length

def print (m : Machine) (text : String) : Machine := { m with outcome.output := m.outcome.output ++ text }

/-- The address of the empty block that a pool starts with. No byte lies there. -/
def emptyBlockAddress : Word := 1

def newPool? (blockSize : Nat) : Option PoolMemory := do
  some ⟨← Pool.make? blockSize, #[emptyBlockAddress]⟩

def takeFrom? (m : Machine) (memory : PoolMemory) (n : Nat) : Option (Word × PoolMemory × Machine) := do
  let (slot, pool) ← memory.pool.take? n
  if pool.blocks.size ≤ memory.starts.size then
    some (memory.starts.getD slot.block 0 + UInt64.ofNat slot.offset, ⟨pool, memory.starts⟩, m)
  else
    let (start, m) ← m.newRegion? ((pool.blocks.back?.map Block.size).getD 0)
    some (start + UInt64.ofNat slot.offset, ⟨pool, memory.starts.push start⟩, m)

end Machine

end QueryEngine
