import QueryEngine.Physical.Basic

namespace QueryEngine.Emit

/-- The NULL bit of one column out of the NULL bits of a row. A column that cannot be NULL has none. -/
def nullBit (one : Reg) (nullWord : Option Reg) (index : Nat) (a : Attribute) : Emit (Option Reg) :=
  match nullWord, a.ty.nullable with
  | some word, true => do
    let shift ← const .i64 index
    let shifted ← binary .lshr word shift
    some <$> binary .and shifted one
  | _, _ => return none

/-- The columns of the row `tid`. `bases` holds where each column starts, `nullWord` the NULL bits of the row. -/
def scanColumns (tid one : Reg) (nullWord : Option Reg) : List (Nat × Attribute) → List Reg → HeldRow → Emit HeldRow
  | (index, a) :: columns, base :: bases, row => do
    let size ← const .i64 a.ty.size
    let offset ← binary .mul tid size
    let address ← ptrAdd base offset
    let indicator ← nullBit one nullWord index a
    let value ← Held.load a.ty address indicator
    scanColumns tid one nullWord columns bases ((a, value) :: row)
  | _, _, row => return row

def nullWords (handle : Reg) (columns : List (Nat × Attribute)) : Emit (Option Reg) := do
  let flagged := (← encoding) = .indicator && columns.any fun column => column.2.ty.nullable
  if flagged then some <$> callValue .tableNulls [handle] else return none

def rowWord (base offset : Reg) : Emit Reg := do
  let address ← ptrAdd base offset
  load .i64 address

def scanRow (tid offset one : Reg) (nulls : Option Reg) (columns : List (Nat × Attribute)) (bases : List Reg)
    (rowId : Option Attribute) (next : Sink) : Emit Unit := do
  let nullWord ← nulls.mapM fun base => rowWord base offset
  let row ← scanColumns tid one nullWord columns bases []
  match rowId with
  | some a => do
    let id ← resize tid .i32 false
    next ((a, .present (.integer id)) :: row)
  | none => next row

def scanVisible (tid zero visibility : Reg) (branch : Nat) (nulls : Option Reg) (columns : List (Nat × Attribute))
    (bases : List Reg) (rowId : Option Attribute) (next : Sink) : Emit Unit := do
  let eight ← const .i64 8
  let offset ← binary .mul tid eight
  let word ← rowWord visibility offset
  let branch ← const .i64 branch
  let shifted ← binary .lshr word branch
  let one ← const .i64 1
  let bit ← binary .and shifted one
  let visible ← compare .ne bit zero
  ifThen visible (scanRow tid offset one nulls columns bases rowId next)

def scanRows (table : String) (columns : List (Nat × Attribute)) (rowId : Option Attribute) (branch : Nat)
    (next : Sink) : Emit Unit := do
  let handle ← tableHandle table
  let count ← callValue .tableRowCount [handle]
  let bases ← columns.mapM fun column => do
    let index ← const .i64 column.1
    callValue .tableColumn [handle, index]
  let nulls ← nullWords handle columns
  let visibility ← callValue .tableBranches [handle]
  let zero ← const .i64 0
  forRange zero count fun tid => scanVisible tid zero visibility branch nulls columns bases rowId next

def filterRow (predicate : Scalar) (next : Sink) : Sink := fun row => do
  let value ← predicate.emit row
  let condition ← value.isTrue
  ifThen condition (next row)

/-- Computed values are added in order; none of them sees another one. -/
def extendRow (source : HeldRow) : List Mapping → HeldRow → Emit HeldRow
  | [], row => return row
  | mapping :: mappings, row => do
    let value ← mapping.value.emit source
    let value ← value.withNullability mapping.result.ty
    extendRow source mappings ((mapping.result, value) :: row)

def mapRow (mappings : List Mapping) (next : Sink) : Sink := fun row => do
  next (← extendRow row mappings row)

end QueryEngine.Emit
