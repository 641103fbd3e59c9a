import QueryEngine.Storage.Database

namespace QueryEngine

inductive TablePart where
  | cells (column : Nat)
  | nulls
  | branches
deriving Repr, DecidableEq

namespace TablePart

/-- Regions of the column arena for each table that a program names. -/
def span : Nat := 128

def largestHandle : Nat := arenaSpan / (Arena.column.span * span) - 2

def region (handle : Nat) : TablePart → Nat
  | cells column => handle * span + column
  | nulls => handle * span + maxColumns
  | branches => handle * span + maxColumns + 1

def ofRegion (region : Nat) : Nat × TablePart :=
  let part := region % span
  (region / span, if part < maxColumns then cells part else if part = maxColumns then nulls else branches)

end TablePart

namespace Table

def byteAt (t : Table) (part : TablePart) (offset : Nat) : UInt8 :=
  match part with
  | .cells column => match t.columns[column]? with
    | some c => c.cells.byteAt offset
    | none => 0
  | .nulls => t.nullWords.byteAt offset
  | .branches => t.branchWords.byteAt offset

def setByte (t : Table) (part : TablePart) (offset : Nat) (b : UInt8) : Table :=
  match part with
  | .cells column => { t with columns := t.columns.modify column fun c => { c with cells := c.cells.setByte offset b } }
  | .nulls => { t with nullWords := t.nullWords.setByte offset b }
  | .branches => { t with branchWords := t.branchWords.setByte offset b }

end Table

namespace Database

/-- The byte at a place of the column arena, where `names` holds the names of the tables under their handles. -/
def columnByteAt (db : Database) (names : Array String) (region offset : Nat) : UInt8 :=
  let (handle, part) := TablePart.ofRegion region
  match names[handle]?.bind db.table? with
  | some t => t.byteAt part offset
  | none => 0

def setColumnByte (db : Database) (names : Array String) (region offset : Nat) (b : UInt8) : Database :=
  let (handle, part) := TablePart.ofRegion region
  match names[handle]?.bind db.table? with
  | some t => db.replaceTable (t.setByte part offset b)
  | none => db

end Database

end QueryEngine
