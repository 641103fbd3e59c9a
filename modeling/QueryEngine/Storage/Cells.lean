import QueryEngine.Storage.Growable
import QueryEngine.Word

namespace QueryEngine

/-- A growing array of cells that have as many bytes each, one behind the other. -/
structure Cells where
  cellSize : Nat
  cells : Growable Bytes := .empty
deriving Repr, DecidableEq

namespace Cells

def largestAllocation : Nat := 1 <<< 63 - 8

/-- No cells. A cell has at least one byte, and the least capacity of them must be addressable. -/
def make? (cellSize : Nat) : Option Cells :=
  if cellSize = 0 ∨ largestAllocation < cellSize * Growable.leastCapacity then none else some { cellSize }

def size (v : Cells) : Nat := v.cells.size

def capacity (v : Cells) : Nat := v.cells.capacity

def isEmpty (v : Cells) : Bool := v.cells.isEmpty

def push (v : Cells) (cell : Bytes) : Cells := { v with cells := v.cells.push cell }

def push? (v : Cells) (cell : Bytes) : Option Cells := if cell.length = v.cellSize then some (v.push cell) else none

def pop (v : Cells) : Cells := { v with cells := v.cells.pop }

def get? (v : Cells) (i : Nat) : Option Bytes := v.cells.get? i

def set (v : Cells) (i : Nat) (cell : Bytes) : Cells := { v with cells := v.cells.set i cell }

def set? (v : Cells) (i : Nat) (cell : Bytes) : Option Cells :=
  if i < v.size ∧ cell.length = v.cellSize then some (v.set i cell) else none

def front? (v : Cells) : Option Bytes := v.cells.front?

def back? (v : Cells) : Option Bytes := v.cells.back?

def byteAt (v : Cells) (offset : Nat) : UInt8 :=
  match v.cells.slots[offset / v.cellSize]? with
  | some cell => cell.getD (offset % v.cellSize) 0
  | none => 0

/-- Writes to a slot, whether or not it holds a cell. One that has not been written to holds zeros. -/
def setByte (v : Cells) (offset : Nat) (b : UInt8) : Cells :=
  { v with cells.slots := v.cells.slots.modify (offset / v.cellSize) fun cell =>
    (cell ++ List.replicate (v.cellSize - cell.length) 0).set (offset % v.cellSize) b }

def summary (v : Cells) : String :=
  "Vector \x7b element_size: " ++ toString v.cellSize ++ ", len: " ++ toString v.size ++ ", capacity: " ++
    toString v.capacity ++ " \x7d"

end Cells

namespace Growable

def byteAt (words : Growable Word) (offset : Nat) : UInt8 :=
  (Word.bytes 8 (words.slots.getD (offset / 8) 0)).getD (offset % 8) 0

def setByte (words : Growable Word) (offset : Nat) (b : UInt8) : Growable Word :=
  { words with slots := words.slots.modify (offset / 8) fun w =>
    Word.ofBytes ((Word.bytes 8 w).set (offset % 8) b) }

end Growable

end QueryEngine
