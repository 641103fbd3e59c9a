import QueryEngine.Proofs.Storage.Tables
import QueryEngine.Proofs.Tuple.Decoding

namespace QueryEngine

open List Checked

variable {α : Type} {encoding : NullEncoding} {tid : Nat}

theorem Checked.except_mapM_ok {ε β : Type} {f : α → Except ε β} {xs : List α} {ys : List β}
    (gives : xs.mapM f = .ok ys) : ∀ y ∈ ys, ∃ x ∈ xs, f x = .ok y := by
  induction xs generalizing ys with
  | nil => cases gives; simp
  | cons x xs ih =>
    rw [mapM_cons] at gives
    obtain ⟨y, first, gives⟩ := bind_ok gives
    obtain ⟨_, others, gives⟩ := bind_ok gives
    cases gives
    refine forall_mem_cons.mpr ⟨⟨x, mem_cons_self, first⟩, fun z later => ?_⟩
    obtain ⟨x', inside, same⟩ := ih others z later
    exact ⟨x', mem_cons_of_mem _ inside, same⟩

namespace Codec

variable {heap : TextHeap} {ty : ValueType} {d : Datum} {bytes : Bytes}

theorem ofBytes_append (w : Word) (rest : Bytes) : Word.ofBytes ((Word.bytes 8 w ++ rest).take 8) = w := by
  rw [take_left' (Word.bytes_length 8 w), Word.ofBytes_bytes]

/-- What is read from bytes that were made from a value. Sentinels take a value with the bits of the sentinel for NULL. -/
def seen (encoding : NullEncoding) (ty : ValueType) (bytes : Bytes) (d : Datum) : Datum :=
  if encoding = .sentinel ∧ ty.nullable ∧ isSentinel ty bytes then .null else d

@[simp] theorem seen_indicator : seen .indicator ty bytes d = d := if_neg fun sentinel => nomatch sentinel.1

theorem Encoded.decode (encoded : Encoded encoding heap ty d bytes) (valid : heap.Valid) (notNull : d.isNull = false) :
    decode encoding heap.read ty bytes = seen encoding ty bytes d := by
  unfold Codec.decode seen
  split
  · rfl
  cases encoded with
  | null => cases notNull
  | bool shape value =>
    simp only [shape]
    cases value <;> rfl
  | integer shape n | date shape n =>
    have word := CodeType.normalize_ofBytes_bytes .i32 (Word.ofInt n.toInt)
    rw [CodeType.normalize_of_fits (CodeType.fits_int32 n)] at word
    have read : (Word.ofBytes (Word.bytes 4 (Word.ofInt n.toInt))).toUInt32.toInt32 = n :=
      CodeType.toInt32_of_normalize word
    simp only [shape, int32, take_of_length_le (Nat.le_of_eq (Word.bytes_length 4 _)), read]
  | numeric shape n | timestamp shape n =>
    simp only [shape, int64, take_of_length_le (Nat.le_of_eq (Word.bytes_length 8 _)), Word.ofBytes_bytes,
      Int64.toInt64_toUInt64]
  | @char _ shape text region found | @varchar _ shape text region found =>
    have length := valid.length_lt found
    rw [textBytes_length] at length
    have count : (UInt64.ofNat (byteLength text)).toNat = byteLength text :=
      UInt64.toNat_ofNat_of_lt' (by simp [UInt64.size]; omega)
    have read := valid.read found
    rw [textBytes_length] at read
    simp only [shape, ofBytes_append, drop_left' (Word.bytes_length 8 (regionAddress .text region)),
      take_of_length_le (Nat.le_of_eq (Word.bytes_length 8 _)), Word.ofBytes_bytes, count, read,
      bytesText_textBytes]

end Codec

/-- A column of a table that has this many rows. -/
structure Column.Valid (rows : Nat) (c : Column) : Prop where
  known : c.ty.isUnknown = false
  cellSize : c.cells.cellSize = c.ty.size
  cells : c.cells.cells.Valid
  size : c.cells.size = rows

variable {name : String} {columns : List (String × ValueType)} {types : List ValueType} {value : Datum}
  {values row : Row} {cells : List Bytes}

namespace Table

/-- The cell of a row has the bytes of this value, and its bit for NULL. -/
def Holds (t : Table) (heap : TextHeap) (tid i : Nat) (d : Datum) : Prop :=
  ∃ c bytes, t.columns[i]? = some c ∧ c.cells.get? tid = some bytes ∧ Codec.Encoded t.encoding heap c.ty d bytes ∧
    (t.nullWord tid).hasBit i = d.isNull

/-- Every column has a cell for each row, and every cell holds a value of its column. -/
structure Valid (heap : TextHeap) (t : Table) : Prop where
  few : t.columns.size ≤ maxColumns
  rows : t.rowCount ≤ maxRows
  branches : t.branchWords.Valid
  nulls : t.nullWords.Valid
  nullCount : t.nullWords.size = t.rowCount
  column : ∀ (i : Nat) (c : Column), t.columns[i]? = some c → c.Valid t.rowCount
  cell : ∀ tid < t.rowCount, ∀ i < t.columns.size, ∃ d, t.Holds heap tid i d

variable {heap heap' : TextHeap} {t t' : Table} {i column branch : Nat} {d : Datum}

theorem Holds.mono (holds : t.Holds heap tid i d) (grows : heap.Grows heap') : t.Holds heap' tid i d := by
  obtain ⟨c, bytes, atColumn, atRow, encoded, flagged⟩ := holds
  exact ⟨c, bytes, atColumn, atRow, encoded.mono grows, flagged⟩

theorem Valid.mono (valid : t.Valid heap) (grows : heap.Grows heap') : t.Valid heap' :=
  { valid with cell := fun tid isRow i inside => (valid.cell tid isRow i inside).imp fun _ holds => holds.mono grows }

theorem length_columnTypes (t : Table) : t.columnTypes.length = t.columns.size := by simp [columnTypes]

theorem columnTypes_getElem? : t.columnTypes[i]? = t.columns[i]?.map Column.ty := by simp [columnTypes]

/-- What a call that writes cells leaves as it was, or in order. -/
structure Rewrites (t : Table) (heap : TextHeap) (t' : Table) (heap' : TextHeap) : Prop where
  texts : heap'.Valid
  grows : heap.Grows heap'
  name : t'.name = t.name
  encoding : t'.encoding = t.encoding
  types : t'.columnTypes = t.columnTypes
  rows : t'.rowCount ≤ maxRows
  branches : t'.branchWords.Valid
  nulls : t'.nullWords.Valid
  nullCount : t'.nullWords.size = t'.rowCount
  column : ∀ (i : Nat) (c : Column), t'.columns[i]? = some c → c.Valid t'.rowCount

theorem Rewrites.size (rewrites : t.Rewrites heap t' heap') : t'.columns.size = t.columns.size := by
  rw [← length_columnTypes, rewrites.types, length_columnTypes]

theorem Rewrites.valid (rewrites : t.Rewrites heap t' heap') (few : t.columns.size ≤ maxColumns)
    (cell : ∀ tid < t'.rowCount, ∀ i < t.columns.size, ∃ d, t'.Holds heap' tid i d) :
    (t'.Valid heap' ∧ t'.encoding = t.encoding) ∧ heap'.Valid ∧ heap.Grows heap' :=
  ⟨⟨{ rewrites with few := rewrites.size ▸ few, cell := rewrites.size ▸ cell }, rewrites.encoding⟩, rewrites.texts,
    rewrites.grows⟩

theorem checkColumns_known (checked : checkColumns name seen columns = .ok ()) :
    ∀ column ∈ columns, column.2.isUnknown = false := by
  induction columns generalizing seen with
  | nil => simp
  | cons column columns ih =>
    obtain ⟨_, checked⟩ := guard_ok checked
    obtain ⟨known, checked⟩ := guard_ok checked
    exact forall_mem_cons.mpr ⟨by simpa using known, ih checked⟩

theorem Valid.create (created : create encoding name columns = .ok t) :
    t.Valid heap ∧ t.encoding = encoding := by
  obtain ⟨many, created⟩ := guard_ok created
  obtain ⟨_, checked, created⟩ := bind_ok created
  have known := checkColumns_known checked
  have few : columns.length ≤ maxColumns := Nat.le_of_not_lt many
  cases created
  -- There are columns, but no rows yet.
  have each (i : Nat) (c : Column)
      (found : (columns.map fun column => ({ name := column.1, ty := column.2, cells := { cellSize := column.2.size } } :
        Column)).toArray[i]? = some c) : c.ty.isUnknown = false ∧ c.cells = { cellSize := c.ty.size } := by
    rw [getElem?_toArray, getElem?_map] at found
    obtain ⟨column, inside, rfl⟩ := Option.map_eq_some_iff.mp found
    exact ⟨known column (mem_of_getElem? inside), rfl⟩
  refine ⟨⟨by simpa using few, Nat.zero_le _, .empty, .empty, rfl, fun i c found => ?_,
    fun tid isRow => absurd isRow (Nat.not_lt_zero tid)⟩, rfl⟩
  obtain ⟨isKnown, cells⟩ := each i c found
  exact ⟨isKnown, by rw [cells], by rw [cells]; exact .empty, by rw [cells]; rfl⟩

theorem coerceFrom_each (same : types.length = values.length) (coerced : Row.coerceFrom column types values = .ok row) :
    Forall₂ (fun ty d => ∃ value : Datum, value.coerce ty = .ok d) types row := by
  induction types generalizing column values row with
  | nil =>
    cases values with
    | nil => cases coerced; exact .nil
    | cons => cases same
  | cons ty types ih =>
    cases values with
    | nil => cases same
    | cons value values =>
      obtain ⟨d, first, coerced⟩ := bind_ok coerced
      obtain ⟨_, others, coerced⟩ := bind_ok coerced
      cases coerced
      exact .cons ⟨value, mapCause_ok first⟩ (ih (Nat.succ.inj same) others)

/-- What `encodeRow` gives for a row that has been coerced: bytes for every column, and bits for the NULLs. -/
theorem encodeRow_encoded {nulls : Word} (valid : heap.Valid)
    (coerced : Forall₂ (fun ty d => ∃ value : Datum, value.coerce ty = .ok d) types row)
    (few : column + types.length ≤ maxColumns)
    (encodes : encodeRow encoding column types row heap = .ok (cells, nulls, heap')) :
    heap'.Valid ∧ heap.Grows heap' ∧ cells.length = types.length ∧ (∀ j < column, nulls.hasBit j = false) ∧
      ∀ (i : Nat) ty, types[i]? = some ty → ∃ bytes d, row[i]? = some d ∧ cells[i]? = some bytes ∧
        Codec.Encoded encoding heap' ty d bytes ∧ nulls.hasBit (column + i) = d.isNull := by
  induction coerced generalizing column heap cells nulls with
  | nil =>
    cases encodes
    exact ⟨valid, .refl _, rfl, fun _ _ => Word.hasBit_zero, nofun⟩
  | @cons ty d types row head _ ih =>
    obtain ⟨value, coerced⟩ := head
    simp only [length_cons] at few
    unfold maxColumns at few
    obtain ⟨⟨bytes, heap1⟩, first, encodes⟩ := bind_ok encodes
    obtain ⟨⟨others, bits, heap2⟩, rest, encodes⟩ := bind_ok encodes
    cases encodes
    obtain ⟨encoded, valid1, grows1⟩ := Codec.encode_encoded valid coerced first
    obtain ⟨valid2, grows2, length, early, each⟩ := ih valid1 (by unfold maxColumns; omega) rest
    refine ⟨valid2, grows1.trans grows2, by rw [length_cons, length_cons, length], fun j small => ?_,
      fun i ty' found => ?_⟩
    · split
      · rw [Word.hasBit_setBit _ (by omega) (by omega), early j (by omega)]
        simp [Nat.ne_of_gt small]
      · exact early j (by omega)
    · cases i with
      | zero =>
        cases found
        refine ⟨bytes, d, rfl, rfl, encoded.mono grows2, ?_⟩
        cases isNull : d.isNull with
        | true => simp [Word.hasBit_setBit _ (show column < 64 by omega) (show column < 64 by omega)]
        | false => simpa using early column (by omega)
      | succ i =>
        have bound := (List.getElem?_eq_some_iff.mp found).1
        simp only [List.length_cons] at bound
        obtain ⟨bytes', d', atValue, atCell, encoded', flagged⟩ := each i ty' (by simpa using found)
        refine ⟨bytes', d', by simpa using atValue, by simpa using atCell, encoded', ?_⟩
        have position : column + (i + 1) = column + 1 + i := by omega
        rw [← flagged, position]
        split
        · rw [Word.hasBit_setBit _ (by omega) (by omega)]
          simp [show ¬column = column + 1 + i by omega]
        · rfl

theorem pushCells_getElem? {columns : Array Column} (length : cells.length = columns.size) :
    (pushCells columns cells)[i]? = columns[i]?.map fun c => { c with cells := c.cells.push (cells.getD i []) } := by
  rw [pushCells, getElem?_toArray, getElem?_zipWith, Array.getElem?_toList]
  cases atColumn : columns[i]? with
  | none => rfl
  | some c =>
    have bound : i < cells.length := Nat.lt_of_lt_of_eq (Array.getElem?_eq_some_iff.mp atColumn).1 length.symm
    simp [getElem?_eq_getElem bound]

/-- What a row that has been added is made of. -/
theorem addRow_ok (added : t.addRow heap values branch = .ok (t', heap')) :
    branch < maxBranches ∧ t.rowCount < maxRows ∧ ∃ row cells nulls, Row.coerce t.columnTypes values = .ok row ∧
      encodeRow t.encoding 0 t.columnTypes row heap = .ok (cells, nulls, heap') ∧
      t' = { t with
        columns := pushCells t.columns cells
        nullWords := t.nullWords.push nulls
        branchWords := t.branchWords.push (Word.bit branch) } := by
  obtain ⟨known, added⟩ := guard_ok added
  obtain ⟨few, added⟩ := guard_ok added
  obtain ⟨row, coerced, added⟩ := bind_ok added
  obtain ⟨⟨cells, nulls, _⟩, encodes, added⟩ := bind_ok added
  cases added
  exact ⟨Nat.lt_of_not_le known, Nat.lt_of_not_le few, row, cells, nulls, mapCause_ok coerced,
    mapCause_ok encodes, rfl⟩

theorem hideRow_ok (hidden : t.hideRow tid branch = .ok t') : tid < t.rowCount ∧ branch < maxBranches ∧
    t' = { t with branchWords := t.branchWords.set tid ((t.branchWord tid).clearBit branch) } := by
  obtain ⟨_, checked, hidden⟩ := bind_ok hidden
  obtain ⟨known, hidden⟩ := guard_ok hidden
  cases hidden
  exact ⟨(check_ok checked).1, Nat.lt_of_not_le known, rfl⟩

theorem copyVisibility_ok (copied : t.copyVisibility parent branch = .ok t') :
    parent < maxBranches ∧ branch < maxBranches ∧
      t' = { t with branchWords := t.branchWords.map fun w => if w.hasBit parent then w.setBit branch else w } := by
  obtain ⟨known, copied⟩ := guard_ok copied
  cases copied
  exact ⟨by omega, by omega, rfl⟩

theorem coerce_each (coerced : Row.coerce types values = .ok row) :
    Forall₂ (fun ty d => ∃ value : Datum, value.coerce ty = .ok d) types row := by
  obtain ⟨same, coerced⟩ := check_ok coerced
  exact coerceFrom_each same coerced

section

variable (valid : t.Valid heap)

include valid

/-- What a row that has been added leaves as it was, and what it adds. -/
theorem Valid.addRow_holds (texts : heap.Valid) (added : t.addRow heap values branch = .ok (t', heap')) :
    t.Rewrites heap t' heap' ∧ t'.rowCount = t.rowCount + 1 ∧
      (∀ tid < t.rowCount, ∀ i d, t.Holds heap tid i d → t'.Holds heap' tid i d) ∧
      ∃ row, Row.coerce t.columnTypes values = .ok row ∧ row.length = t.columns.size ∧
        ∀ (i : Nat) d, row[i]? = some d → t'.Holds heap' t.rowCount i d := by
  obtain ⟨_, few, row, cells, nulls, coerced, encodes, rfl⟩ := addRow_ok added
  have each := coerce_each coerced
  have width : row.length = t.columns.size := by rw [← length_columnTypes, each.length_eq]
  obtain ⟨texts', grows, length, _, stored⟩ := encodeRow_encoded texts each
    (by rw [length_columnTypes, Nat.zero_add]; exact valid.few) encodes
  rw [length_columnTypes] at length
  have nullWord (tid : Nat) : ((t.nullWords.push nulls).get? tid).getD 0 =
      if tid = t.rowCount then nulls else t.nullWord tid := by
    rw [valid.nulls.get?_push, valid.nullCount]
    split <;> rfl
  have pushed {i : Nat} {c : Column} (atColumn : t.columns[i]? = some c) (tid : Nat) :
      (c.cells.push (cells.getD i [])).get? tid =
        if tid = t.rowCount then some (cells.getD i []) else c.cells.get? tid := by
    have column := valid.column i c atColumn
    rw [← show c.cells.cells.size = t.rowCount from column.size]
    exact column.cells.get?_push _
  refine ⟨⟨texts', grows, rfl, rfl, ext_getElem? fun i => ?_, few, valid.branches.push _, valid.nulls.push _,
    congrArg (· + 1) valid.nullCount, fun i c found => ?_⟩, rfl, fun tid isOld i d holds => ?_, row, coerced, width,
    fun i d atValue => ?_⟩
  · rw [columnTypes_getElem?, columnTypes_getElem?, pushCells_getElem? length, Option.map_map]
    rfl
  · rw [pushCells_getElem? length] at found
    obtain ⟨old, atColumn, rfl⟩ := Option.map_eq_some_iff.mp found
    have old := valid.column i old atColumn
    exact ⟨old.known, old.cellSize, old.cells.push _, congrArg (· + 1) old.size⟩
  · obtain ⟨c, bytes, atColumn, atRow, encoded, flagged⟩ := holds
    refine ⟨_, bytes, (pushCells_getElem? length).trans (congrArg _ atColumn), ?_, encoded.mono grows,
      (congrArg (Word.hasBit · i) (nullWord tid)).trans ?_⟩
    · rw [pushed atColumn, if_neg (Nat.ne_of_lt isOld), atRow]
    · rw [if_neg (Nat.ne_of_lt isOld), flagged]
  · have inside := (List.getElem?_eq_some_iff.mp atValue).1
    have atColumn := Array.getElem?_eq_getElem (Nat.lt_of_lt_of_eq inside width)
    obtain ⟨bytes, _, atValue', atCell, encoded, flagged⟩ := stored i _ (columnTypes_getElem?.trans (congrArg _ atColumn))
    cases atValue.symm.trans atValue'
    rw [Nat.zero_add] at flagged
    refine ⟨_, bytes, (pushCells_getElem? length).trans (congrArg _ atColumn), ?_, encoded,
      (congrArg (Word.hasBit · i) (nullWord _)).trans ?_⟩
    · rw [pushed atColumn, if_pos rfl, getD_eq_getElem?_getD, atCell, Option.getD_some]
    · rw [if_pos rfl, flagged]

theorem Valid.addRow (texts : heap.Valid) (added : t.addRow heap values branch = .ok (t', heap')) :
    (t'.Valid heap' ∧ t'.encoding = t.encoding) ∧ heap'.Valid ∧ heap.Grows heap' := by
  obtain ⟨rewrites, count, old, row, _, width, new⟩ := valid.addRow_holds texts added
  refine rewrites.valid valid.few fun tid isRow i inside => ?_
  -- A row is one of the old ones or the one that has been added.
  by_cases isNew : tid = t.rowCount
  · rw [isNew]
    exact ⟨_, new i _ (getElem?_eq_getElem (width ▸ inside))⟩
  · have isOld : tid < t.rowCount := by omega
    exact (valid.cell tid isOld i inside).imp fun d holds => old tid isOld i d holds

/-- Which branches see a row says nothing about its cells. -/
theorem Valid.withBranches (same : words.Valid) (size : words.size = t.rowCount) :
    Valid heap { t with branchWords := words } where
  few := valid.few
  rows := by rw [rowCount, size]; exact valid.rows
  branches := same
  nulls := valid.nulls
  nullCount := by rw [rowCount, size]; exact valid.nullCount
  column := fun i c found => by rw [rowCount, size]; exact valid.column i c found
  cell := by rw [rowCount, size]; exact valid.cell

theorem Valid.hideRow (hidden : t.hideRow tid branch = .ok t') :
    t'.Valid heap ∧ t'.encoding = t.encoding := by
  obtain ⟨_, _, rfl⟩ := hideRow_ok hidden
  exact ⟨valid.withBranches (valid.branches.set _ _) (Growable.set_size _ _ _), rfl⟩

theorem Valid.copyVisibility (copied : t.copyVisibility parent branch = .ok t') :
    t'.Valid heap ∧ t'.encoding = t.encoding := by
  obtain ⟨_, _, rfl⟩ := copyVisibility_ok copied
  exact ⟨valid.withBranches (valid.branches.map _) rfl, rfl⟩

omit valid in
/-- One flag is changed, the others stay. -/
theorem hasBit_flag (w : Word) (isNull : Bool) (small : column < 64) (small' : i < 64) :
    (if isNull = true then w.setBit column else w.clearBit column).hasBit i =
      if i = column then isNull else w.hasBit i := by
  cases isNull with
  | true =>
    rw [if_pos rfl, Word.hasBit_setBit w small small']
    by_cases same : i = column
    · simp [same]
    · simp [same, Ne.symm same]
  | false =>
    rw [if_neg (by decide), Word.hasBit_clearBit w small small']
    by_cases same : i = column
    · simp [same]
    · simp [same, Ne.symm same]

omit valid in
/-- What a cell that has been overwritten is made of. -/
theorem updateCell_ok (updated : t.updateCell heap tid column value = .ok (t', heap')) :
    tid < t.rowCount ∧ ∃ c d cell, t.columns[column]? = some c ∧ value.coerce c.ty = .ok d ∧
      Codec.encode t.encoding d c.ty heap = .ok (cell, heap') ∧
      t' = { t with
        columns := t.columns.setIfInBounds column { c with cells := c.cells.set tid cell }
        nullWords := t.nullWords.set tid
          (if d.isNull then (t.nullWord tid).setBit column else (t.nullWord tid).clearBit column) } := by
  obtain ⟨_, inRange, updated⟩ := bind_ok updated
  obtain ⟨c, found, updated⟩ := bind_ok updated
  obtain ⟨d, coerced, updated⟩ := bind_ok updated
  obtain ⟨⟨cell, heap1⟩, encodes, updated⟩ := bind_ok updated
  cases updated
  have isRow := (check_ok (mapError_ok inRange)).1
  have atColumn : t.columns[column]? = some c := by
    have numbered := mapError_ok found
    unfold numberedColumn at numbered
    split at numbered
    · cases numbered; assumption
    · cases numbered
  exact ⟨isRow, c, d, cell, atColumn, mapCause_ok coerced, mapCause_ok encodes, rfl⟩

/-- An overwritten cell holds the new value, and the others hold theirs. -/
theorem Valid.updateCell_holds (texts : heap.Valid) (updated : t.updateCell heap tid column value = .ok (t', heap')) :
    t.Rewrites heap t' heap' ∧ t'.rowCount = t.rowCount ∧
      (∀ tid' i d, ¬(tid' = tid ∧ i = column) → t.Holds heap tid' i d → t'.Holds heap' tid' i d) ∧
      ∃ ty d, t.columnTypes[column]? = some ty ∧ value.coerce ty = .ok d ∧ t'.Holds heap' tid column d := by
  obtain ⟨isRow, c, d, cell, atColumn, coerced, encodes, rfl⟩ := updateCell_ok updated
  obtain ⟨encoded, texts', grows⟩ := Codec.encode_encoded texts coerced encodes
  have isColumn := (Array.getElem?_eq_some_iff.mp atColumn).1
  have small : column < 64 := Nat.lt_of_lt_of_le isColumn valid.few
  have old := valid.column column c atColumn
  have overwritten (tid' : Nat) : (c.cells.set tid cell).get? tid' = if tid' = tid then some cell else c.cells.get? tid' :=
    old.cells.get?_set (Nat.lt_of_lt_of_eq isRow old.size.symm) cell
  have columns (i : Nat) : (t.columns.setIfInBounds column { c with cells := c.cells.set tid cell })[i]? =
      if i = column then some { c with cells := c.cells.set tid cell } else t.columns[i]? := by
    rw [Array.getElem?_setIfInBounds]
    by_cases same : i = column
    · rw [if_pos same.symm, if_pos isColumn, if_pos same]
    · rw [if_neg (Ne.symm same), if_neg same]
  have bit (tid' i : Nat) (bound : i < 64) : (((t.nullWords.set tid
      (if d.isNull then (t.nullWord tid).setBit column else (t.nullWord tid).clearBit column)).get? tid').getD 0).hasBit i =
        if tid' = tid ∧ i = column then d.isNull else (t.nullWord tid').hasBit i := by
    rw [valid.nulls.get?_set (Nat.lt_of_lt_of_eq isRow valid.nullCount.symm)]
    by_cases same : tid' = tid
    · rw [if_pos same, Option.getD_some, hasBit_flag _ _ small bound, same]
      simp only [true_and]
    · rw [if_neg same, if_neg fun both => same both.1]
      rfl
  refine ⟨⟨texts', grows, rfl, rfl, ext_getElem? fun i => ?_, valid.rows, valid.branches, valid.nulls.set _ _,
    (Growable.set_size _ _ _).trans valid.nullCount, fun i c' found => ?_⟩, rfl, fun tid' i d' differs holds => ?_, c.ty, d,
    columnTypes_getElem?.trans (congrArg _ atColumn), coerced, _, cell, (columns column).trans (if_pos rfl),
    (overwritten tid).trans (if_pos rfl), encoded, (bit tid column small).trans (if_pos ⟨rfl, rfl⟩)⟩
  · rw [columnTypes_getElem?, columnTypes_getElem?, columns]
    split
    next same =>
      rw [same, atColumn]
      rfl
    · rfl
  · rw [columns] at found
    split at found
    · cases found
      exact ⟨old.known, old.cellSize, old.cells.set _ _, (Growable.set_size _ _ _).trans old.size⟩
    · exact valid.column i c' found
  · obtain ⟨c', bytes, atOther, atRow, encoded', flagged⟩ := holds
    have bound := Nat.lt_of_lt_of_le (Array.getElem?_eq_some_iff.mp atOther).1 valid.few
    have kept := (bit tid' i bound).trans ((if_neg differs).trans flagged)
    by_cases same : i = column
    · subst same
      cases atColumn.symm.trans atOther
      refine ⟨_, bytes, (columns i).trans (if_pos rfl), ?_, encoded'.mono grows, kept⟩
      rw [overwritten, if_neg fun sameRow => differs ⟨sameRow, rfl⟩, atRow]
    · exact ⟨c', bytes, (columns i).trans ((if_neg same).trans atOther), atRow, encoded'.mono grows, kept⟩

theorem Valid.updateCell (texts : heap.Valid) (updated : t.updateCell heap tid column value = .ok (t', heap')) :
    (t'.Valid heap' ∧ t'.encoding = t.encoding) ∧ heap'.Valid ∧ heap.Grows heap' := by
  obtain ⟨rewrites, count, kept, _, d, _, _, here⟩ := valid.updateCell_holds texts updated
  refine rewrites.valid valid.few fun tid' isRow i inside => ?_
  by_cases changed : tid' = tid ∧ i = column
  · rw [changed.1, changed.2]
    exact ⟨d, here⟩
  · exact (valid.cell tid' (count ▸ isRow) i inside).imp fun d' holds => kept tid' i d' changed holds

end

/-- A cell is read from its bytes and its bit for NULL. -/
theorem getCell_of_encoded (texts : heap.Valid) (atColumn : t.columns[i]? = some c) (isRow : tid < t.rowCount)
    (atRow : c.cells.get? tid = some bytes) (encoded : Codec.Encoded t.encoding heap c.ty d bytes)
    (flagged : (t.nullWord tid).hasBit i = d.isNull) :
    t.getCell heap.read tid i = .ok (Codec.seen t.encoding c.ty bytes d) := by
  have checked : t.checkRow tid = .ok () := if_pos isRow
  have numbered : t.numberedColumn i = .ok c := by rw [numberedColumn, atColumn]
  unfold getCell
  rw [checked, numbered]
  change (if (t.nullWord tid).hasBit i = true then (.ok .null : Except TableError Datum) else _) = _
  rw [flagged, atRow]
  cases isNull : d.isNull with
  | true =>
    rw [if_pos rfl]
    cases d with
    | null => rw [Codec.seen, ite_self]
    | _ => cases isNull
  | false =>
    rw [if_neg (by decide), Option.getD_some, encoded.decode texts isNull]
    rfl

/-- A change that puts no text into the heap. -/
theorem valid_withoutTexts {change : Except TableError Table} (texts : heap.Valid)
    (keeps : ∀ t', change = .ok t' → t'.Valid heap ∧ t'.encoding = t.encoding)
    (changed : ((·, heap) <$> change.mapError .error : Checked TableError (Table × TextHeap)) = .ok (t', heap')) :
    (t'.Valid heap' ∧ t'.encoding = t.encoding) ∧ heap'.Valid ∧ heap.Grows heap' := by
  cases change with
  | error cause => cases changed
  | ok _ =>
    cases changed
    exact ⟨keeps t' rfl, texts, .refl _⟩

end Table

namespace Database

/-- Tables and texts of a database, all of which keep NULL in the same way. -/
structure Sound (db : Database) : Prop where
  heap : db.heap.Valid
  tables : ∀ t ∈ db.tables, t.Valid db.heap ∧ t.encoding = db.encoding

/-- A database that keeps NULL beside the values. -/
structure Valid (db : Database) : Prop extends db.Sound where
  indicator : db.encoding = .indicator

variable {db db' : Database}

section

variable (sound : db.Sound)

include sound

theorem Sound.table (found : db.table? name = some t) :
    t.Valid db.heap ∧ t.encoding = db.encoding := sound.tables t (mem_of_find?_eq_some found)

omit sound in
theorem mem_insertByName {name : α → String} {item x : α} {items : List α}
    (member : x ∈ insertByName name item items) : x = item ∨ x ∈ items := by
  induction items with
  | nil => exact .inl (mem_singleton.mp member)
  | cons other rest ih =>
    unfold insertByName at member
    split at member
    · exact mem_cons.mp member
    · rcases mem_cons.mp member with rfl | later
      · exact .inr mem_cons_self
      · exact (ih later).imp id (mem_cons_of_mem _)

theorem Sound.createTable (created : db.createTable name columns = .ok db') :
    db'.Sound ∧ db'.encoding = db.encoding := by
  obtain ⟨_, created⟩ := guard_ok created
  obtain ⟨t, made, created⟩ := bind_ok created
  cases created
  refine ⟨⟨sound.heap, fun other member => ?_⟩, rfl⟩
  rcases mem_insertByName member with rfl | old
  · exact Table.Valid.create (mapError_ok made)
  · exact sound.tables other old

omit sound in
theorem updateTable_ok (updated : db.updateTable name change = .ok db') : ∃ t t' heap', db.table? name = some t ∧
    change t db.heap = .ok (t', heap') ∧ db' = { db.replaceTable t' with heap := heap' } := by
  obtain ⟨t, found, updated⟩ := bind_ok updated
  obtain ⟨⟨t', heap'⟩, changed, updated⟩ := bind_ok updated
  cases updated
  have found := mapError_ok found
  unfold table at found
  split at found
  · cases found
    exact ⟨_, t', heap', by assumption, mapCause_ok changed, rfl⟩
  · cases found

/-- A change that keeps one table valid keeps the database so. -/
theorem Sound.updateTable (updated : db.updateTable name change = .ok db')
    (keeps : ∀ t t' heap', t.Valid db.heap → change t db.heap = .ok (t', heap') → (t'.Valid heap' ∧
      t'.encoding = t.encoding) ∧ heap'.Valid ∧ db.heap.Grows heap') :
    db'.Sound ∧ db'.encoding = db.encoding := by
  obtain ⟨t, t', heap', found, changed, rfl⟩ := updateTable_ok updated
  obtain ⟨valid, encoding⟩ := sound.table found
  obtain ⟨⟨valid', encoding'⟩, heapValid, grows⟩ := keeps t t' heap' valid changed
  refine ⟨⟨heapValid, fun other member => ?_⟩, rfl⟩
  obtain ⟨old, isOld, rfl⟩ := mem_map.mp member
  split
  · exact ⟨valid', encoding'.trans encoding⟩
  · exact ⟨(sound.tables old isOld).1.mono grows, (sound.tables old isOld).2⟩

theorem Sound.createBranch {parent : String} {id : Nat} (created : db.createBranch name parent = .ok (id, db')) :
    db'.Sound ∧ db'.encoding = db.encoding := by
  obtain ⟨_, created⟩ := guard_ok created
  obtain ⟨_, _, created⟩ := bind_ok created
  obtain ⟨_, created⟩ := guard_ok created
  obtain ⟨tables, copied, created⟩ := bind_ok created
  cases created
  refine ⟨⟨sound.heap, fun t member => ?_⟩, rfl⟩
  obtain ⟨old, isOld, same⟩ := except_mapM_ok copied t member
  obtain ⟨valid, encoding⟩ := sound.tables old isOld
  obtain ⟨valid', encoding'⟩ := valid.copyVisibility (mapError_ok same)
  exact ⟨valid', encoding'.trans encoding⟩

theorem Sound.createIndex {table column : String} (created : db.createIndex name table column = .ok db') :
    db'.Sound ∧ db'.encoding = db.encoding := by
  obtain ⟨_, created⟩ := guard_ok created
  obtain ⟨t, _, created⟩ := bind_ok created
  obtain ⟨_, _, created⟩ := bind_ok created
  cases created
  exact ⟨⟨sound.heap, sound.tables⟩, rfl⟩

theorem Sound.updateCell (updated : db.updateCell name tid column value = .ok db') :
    db'.Sound ∧ db'.encoding = db.encoding :=
  sound.updateTable updated fun _ _ _ valid => valid.updateCell sound.heap

end

/-- The databases that come out of an empty one by creating tables, indexes and branches and by changing rows. -/
inductive Built : Database → Prop
  | empty : Built { encoding := .indicator }
  | createTable {db db' : Database} {name : String} {columns : List (String × ValueType)} (built : Built db)
    (created : db.createTable name columns = .ok db') : Built db'
  | createIndex {db db' : Database} {name table column : String} (built : Built db)
    (created : db.createIndex name table column = .ok db') : Built db'
  | createBranch {db db' : Database} {name parent : String} {id : Nat} (built : Built db)
    (created : db.createBranch name parent = .ok (id, db')) : Built db'
  | addRow {db db' : Database} {name : String} {row : Row} {branch : Nat} (built : Built db)
    (added : db.addRow name row branch = .ok db') : Built db'
  | hideRow {db db' : Database} {name : String} {tid branch : Nat} (built : Built db)
    (hidden : db.hideRow name tid branch = .ok db') : Built db'
  | copyVisibility {db db' : Database} {name : String} {parent branch : Nat} (built : Built db)
    (copied : db.copyVisibility name parent branch = .ok db') : Built db'
  | updateCell {db db' : Database} {name : String} {tid column : Nat} {value : Datum} (built : Built db)
    (updated : db.updateCell name tid column value = .ok db') : Built db'

theorem Built.valid (built : db.Built) : db.Valid := by
  have same {db db' : Database} (valid : db.Valid) (next : db'.Sound ∧ db'.encoding = db.encoding) : db'.Valid :=
    ⟨next.1, next.2.trans valid.indicator⟩
  induction built with
  | empty => exact ⟨⟨⟨rfl, by decide⟩, nofun⟩, rfl⟩
  | createTable _ created ih => exact same ih (ih.createTable created)
  | createIndex _ created ih => exact same ih (ih.createIndex created)
  | createBranch _ created ih => exact same ih (ih.createBranch created)
  | addRow _ added ih => exact same ih (ih.updateTable added fun _ _ _ valid => valid.addRow ih.heap)
  | hideRow _ hidden ih =>
    exact same ih (ih.updateTable hidden fun _ _ _ valid => Table.valid_withoutTexts ih.heap fun _ => valid.hideRow)
  | copyVisibility _ copied ih =>
    exact same ih (ih.updateTable copied fun _ _ _ valid =>
      Table.valid_withoutTexts ih.heap fun _ => valid.copyVisibility)
  | updateCell _ updated ih => exact same ih (ih.updateCell updated)

end Database

end QueryEngine
