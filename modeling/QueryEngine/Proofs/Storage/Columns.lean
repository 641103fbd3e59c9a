import QueryEngine.Proofs.Storage.Validity

namespace QueryEngine

open ValueType CodeType
open NullEncoding hiding sentinel
open TablePart hiding cells

variable {m : Machine} {tid : Nat}

theorem Machine.TextAt.heap {region : Nat} {bytes : Bytes} (valid : m.database.heap.Valid)
    (found : m.database.heap.texts.toList[region]? = some (TextHeap.stored bytes)) :
    m.TextAt (regionAddress .text region) bytes := by
  refine ⟨valid.length_lt found, fun m' keeps => readBytes_eq fun i bound => ?_⟩
  obtain ⟨place, _⟩ := valid.byteAt found bound
  rw [byteAt, place]
  exact TextHeap.byteAt_stored (keeps.heap.text found) bound

variable {part : TablePart} {offset : Nat}

namespace TablePart

/-- The part of a table with no more columns than there are bits. -/
def Numbered : TablePart → Prop
  | cells column => column < maxColumns
  | nulls | branches => True

theorem ofRegion_region (handle : Nat) (numbered : part.Numbered) : ofRegion (part.region handle) = (handle, part) := by
  cases part with
  | cells column =>
    have small : column < 64 := numbered
    have rest : (handle * 128 + column) % 128 = column := by omega
    have whole : (handle * 128 + column) / 128 = handle := by omega
    simp only [ofRegion, region, span, rest, whole, maxColumns, if_pos small]
  | nulls =>
    have rest : (handle * 128 + 64) % 128 = 64 := by omega
    have whole : (handle * 128 + 64) / 128 = handle := by omega
    simp [ofRegion, region, span, rest, whole, maxColumns]
  | branches =>
    have rest : (handle * 128 + 64 + 1) % 128 = 65 := by omega
    have whole : (handle * 128 + 64 + 1) / 128 = handle := by omega
    simp [ofRegion, region, span, rest, whole, maxColumns]

theorem nulls_numbered : nulls.Numbered := trivial

theorem branches_numbered : branches.Numbered := trivial

theorem place_valid (numbered : part.Numbered) (small : handle ≤ largestHandle) (inside : offset < Arena.column.span) :
    Place.Valid ⟨.column, part.region handle, offset⟩ := by
  have region : part.region handle ≤ handle * 128 + 65 := by
    cases part with
    | cells column =>
      have small : column < 64 := numbered
      simp only [region, span]
      omega
    | nulls | branches => simp [region, span, maxColumns]
  have most : largestHandle = 2 ^ 17 - 2 := by decide
  refine ⟨inside, ?_⟩
  change (part.region handle + 2) * 2 ^ 38 ≤ 2 ^ 62
  omega

end TablePart

theorem ValueType.size_le (ty : ValueType) : ty.size ≤ 16 := by
  unfold size
  split <;> decide

/-- The table that code has under a handle. -/
structure Machine.Shows (m : Machine) (handle : Nat) (t : Table) : Prop where
  named : m.program.tables[handle]?.bind m.database.table? = some t
  small : handle ≤ TablePart.largestHandle
  encoding : t.encoding = m.program.encoding
  valid : t.Valid m.database.heap
  texts : m.database.heap.Valid

namespace Machine.Shows

variable (shows : m.Shows handle t)

include shows

theorem byteAt (numbered : part.Numbered) (inside : offset < Arena.column.span) :
    m.byteAt (regionAddress .column (part.region handle) + UInt64.ofNat offset) = t.byteAt part offset := by
  have place := Place.placeAt?_address (place_valid numbered shows.small inside)
  rw [regionAddress, Place.address_add, Nat.zero_add, Machine.byteAt, place]
  simp only [Database.columnByteAt, ofRegion_region handle numbered, shows.named]

theorem address_ne_zero (numbered : part.Numbered) (inside : offset < Arena.column.span) :
    regionAddress .column (part.region handle) + UInt64.ofNat offset ≠ 0 := by
  rw [regionAddress, Place.address_add, Nat.zero_add]
  exact Place.address_ne_zero (place_valid numbered shows.small inside)

/-- The word of a row, out of words that have one for each row. -/
theorem load_word (numbered : part.Numbered) {words : Growable Word}
    (bytes : ∀ offset, t.byteAt part offset = words.byteAt offset) (valid : words.Valid)
    (size : words.size = t.rowCount) (isRow : tid < t.rowCount) :
    m.load 8 (regionAddress .column (part.region handle) + UInt64.ofNat (tid * 8)) = (words.get? tid).getD 0 := by
  have rows : t.rowCount ≤ 2 ^ 34 := shows.valid.rows
  obtain ⟨w, found⟩ := valid.get?_isSome (Nat.lt_of_lt_of_eq isRow size.symm)
  have slot : words.slots[tid]? = some w := (Growable.get?_eq (Nat.lt_of_lt_of_eq isRow size.symm)).symm.trans found
  have read : m.readBytes (regionAddress .column (part.region handle) + UInt64.ofNat (tid * 8)) 8 = Word.bytes 8 w := by
    refine List.ext_getElem (by simp [readBytes, Word.bytes_length]) fun i bound bound' => ?_
    rw [Word.bytes_length] at bound'
    have whole : (tid * 8 + i) / 8 = tid := by omega
    have rest : (tid * 8 + i) % 8 = i := by omega
    have inside : tid * 8 + i < Arena.column.span := by
      change tid * 8 + i < 2 ^ 38
      omega
    simp only [readBytes, List.getElem_map, List.getElem_range]
    rw [UInt64.add_assoc, ← UInt64.ofNat_add, shows.byteAt numbered inside, bytes, Growable.byteAt, whole, rest,
      Array.getD_eq_getD_getElem?, slot, Option.getD_some, List.getD_eq_getElem?_getD,
      List.getElem?_eq_getElem (by rw [Word.bytes_length]; exact bound'), Option.getD_some]
  rw [found, Option.getD_some, load, read, Word.ofBytes_bytes]

/-- The bytes of a cell. -/
theorem readBytes_cell (atColumn : t.columns[i]? = some c) (atRow : c.cells.get? tid = some bytes)
    (length : bytes.length = c.ty.size) (isRow : tid < t.rowCount) :
    m.readBytes (regionAddress .column ((TablePart.cells i).region handle) + UInt64.ofNat (tid * c.ty.size)) c.ty.size =
      bytes := by
  have rows : t.rowCount ≤ 2 ^ 34 := shows.valid.rows
  have column := shows.valid.column i c atColumn
  have numbered : (TablePart.cells i).Numbered :=
    Nat.lt_of_lt_of_le (Array.getElem?_eq_some_iff.mp atColumn).1 shows.valid.few
  have slot : c.cells.cells.slots[tid]? = some bytes :=
    (Growable.get?_eq (Nat.lt_of_lt_of_eq isRow column.size.symm)).symm.trans atRow
  have wide : c.ty.size ≤ 16 := c.ty.size_le
  rw [← length]
  refine readBytes_eq fun k bound => ?_
  rw [length] at bound ⊢
  have span : tid * c.ty.size + k < (tid + 1) * c.ty.size := by
    rw [Nat.succ_mul]
    omega
  have inside : tid * c.ty.size + k < Arena.column.span := by
    have most : (tid + 1) * c.ty.size ≤ 2 ^ 34 * 16 := Nat.mul_le_mul (by omega) wide
    change tid * c.ty.size + k < 2 ^ 38
    omega
  obtain ⟨whole, rest⟩ := @Place.div_mod_of_lt tid _ _ bound
  rw [UInt64.add_assoc, ← UInt64.ofNat_add, shows.byteAt numbered inside, Table.byteAt, atColumn]
  dsimp only
  rw [Cells.byteAt, column.cellSize, whole, rest, slot]
  dsimp only
  rw [List.getD_eq_getElem?_getD, List.getElem?_eq_getElem (by rw [length]; exact bound), Option.getD_some]

end Machine.Shows

namespace Codec

variable {ty : ValueType} {d : Datum}

/-- A part of a value that is loaded is made of some of its bytes. -/
theorem load_part (read : m.readBytes a ty.size = bytes) (inside : skip + count ≤ ty.size) :
    m.load count (a + UInt64.ofNat skip) = Word.ofBytes ((bytes.drop skip).take count) := by
  have total : ty.size = skip + (ty.size - skip) := by omega
  rw [← read, total, Machine.readBytes_drop, Machine.readBytes_take _ _ (by omega), Machine.load]

/-- A value beside its flag. -/
theorem meant_value (found : ty.parts? = some parts) (read : m.readBytes a ty.size = bytes)
    (lies : m.PartsAt a parts cells) (holds : d.Cells m ty.shape cells) :
    m.Meant encoding (encoding = .indicator) a ty false (seen encoding ty bytes d) where
  unknown isUnknown := by
    rw [parts?, isUnknown_iff.mp isUnknown] at found
    cases found
  known parts' found' := by
    cases found.symm.trans found'
    refine ⟨cells, lies, ?_, fun _ => holds.spare⟩
    cases encoding with
    | indicator => simpa [NullEncoding.Means, isNull] using holds
    | sentinel =>
      unfold NullEncoding.Means isNull seen
      simp only [Bool.and_eq_true, decide_eq_true_eq, ← Machine.isSentinel_iff found lies, read, true_and]
      split
      · rfl
      · exact holds

theorem meant_null (nullable : ty.nullable = true) (found : ty.parts? = some parts) (lies : m.PartsAt a parts cells)
    (spare : ty.shape.Spare m cells) :
    m.Meant .indicator (indicator = .indicator) a ty true .null where
  unknown _ := rfl
  known parts' found' := by
    cases found.symm.trans found'
    exact ⟨cells, lies, by simp [NullEncoding.Means, isNull, nullable], fun _ => spare⟩

/-- The sentinel is loaded as NULL. -/
theorem meant_sentinel (nullable : ty.nullable = true) (read : m.readBytes a ty.size = encodeNull .sentinel ty) :
    m.Meant .sentinel (NullEncoding.sentinel = .indicator) a ty true .null where
  unknown _ := rfl
  known parts found := by
    have lies : m.PartsAt a parts (parts.map fun part => (part.1, part.1.normalize (m.load part.1.storeSize
        (a + UInt64.ofNat part.2)))) :=
      List.forall₂_map_right_iff.mpr (List.forall₂_same.mpr fun _ _ => ⟨rfl, rfl⟩)
    have isSentinel : isSentinel ty (m.readBytes a ty.size) = true := by
      have length : (Word.bytes (min ty.size 8) ty.sentinel).length ≤ 8 := by rw [Word.bytes_length]; omega
      rw [read, Codec.isSentinel, decide_eq_true_iff, encodeNull, wordBytes]
      by_cases long : 8 ≤ ty.size
      · rw [List.take_left' (by rw [Word.bytes_length]; omega)]
      · rw [show ty.size - 8 = 0 by omega, List.replicate_zero, List.append_nil, List.take_of_length_le length]
    refine ⟨_, lies, ?_, fun given => by cases given⟩
    simp only [NullEncoding.Means, NullEncoding.isNull, nullable, (Machine.isSentinel_iff found lies).mp isSentinel,
      decide_true, Bool.and_self, if_true]

/-- A value of one part. -/
theorem stored_word (part : CodeType) (found : ty.parts? = some [(part, 0)]) (size : ty.size = part.storeSize)
    (read : m.readBytes a ty.size = Word.bytes part.storeSize w) (holds : d.Cells m ty.shape [(part, part.normalize w)]) :
    m.Meant encoding (encoding = .indicator) a ty false (seen encoding ty (Word.bytes part.storeSize w) d) := by
  refine meant_value found read (.cons ⟨rfl, ?_⟩ .nil) holds
  rw [Word.add_ofNat_zero, Machine.load, ← size, read, normalize_ofBytes_bytes]

/-- A string: its address and its length. -/
theorem stored_text (size : ty.size = 16) (read : m.readBytes a ty.size = Word.bytes 8 address ++ Word.bytes 8 length) :
    m.PartsAt a [(.ptr, 0), (.i64, 8)] [(.ptr, address), (.i64, length)] := by
  have first := load_part read (show 0 + 8 ≤ ty.size by omega)
  have second := load_part read (show 8 + 8 ≤ ty.size by omega)
  rw [List.drop_zero, ofBytes_append] at first
  rw [List.drop_left' (Word.bytes_length 8 address), List.take_of_length_le (Nat.le_of_eq (Word.bytes_length 8 _)),
    Word.ofBytes_bytes] at second
  exact .cons ⟨rfl, first⟩ (.cons ⟨rfl, second⟩ .nil)

/-- The zeros of a NULL can be loaded as a value. -/
theorem stored_zeros (known : ty.isUnknown = false) (nullable : ty.nullable = true)
    (read : m.readBytes a ty.size = encodeNull .indicator ty) :
    m.Meant .indicator (indicator = .indicator) a ty true .null := by
  have empty : m.TextAt 0 [] := ⟨by decide, fun _ _ => rfl⟩
  have text (size : ty.size = 16) : m.PartsAt a [(.ptr, 0), (.i64, 8)] [(.ptr, 0), (.i64, Word.ofInt ([] : Bytes).length)] :=
    stored_text size (read.trans (by rw [encodeNull, size]; rfl))
  -- Any word will do, but for strings.
  have word {part : CodeType} {shape : Shape} (same : ty.shape = shape) (found : ty.parts? = some [(part, 0)])
      (spare : ∀ w, shape.Spare m [(part, w)]) :
      m.Meant .indicator (indicator = .indicator) a ty true .null :=
    meant_null nullable found (.cons ⟨rfl, rfl⟩ .nil) (same ▸ spare _)
  cases shape : ty.shape with
  | unknown => simp [isUnknown, shape] at known
  | bool => exact word shape (by rw [parts?, shape]) .bool
  | integer => exact word shape (by rw [parts?, shape]) .integer
  | date => exact word shape (by rw [parts?, shape]) .date
  | numeric length precision => exact word shape (by rw [parts?, shape]) fun w => .numeric w length precision
  | timestamp => exact word shape (by rw [parts?, shape]) .timestamp
  | char length =>
    exact meant_null nullable (by rw [parts?, shape]) (text (by rw [size, shape]))
      (shape ▸ .char empty length)
  | varchar capacity =>
    exact meant_null nullable (by rw [parts?, shape]) (text (by rw [size, shape]))
      (shape ▸ .varchar empty capacity)

/-- Bytes that hold a value can be loaded. -/
theorem Encoded.stored (encoded : Encoded encoding m.database.heap ty d bytes) (texts : m.database.heap.Valid)
    (known : ty.isUnknown = false) (read : m.readBytes a ty.size = bytes) :
    m.Meant encoding (encoding = .indicator) a ty d.isNull (seen encoding ty bytes d) := by
  have raw (n : Int64) : i64.normalize n.toUInt64 = Word.ofInt n.toInt := by
    rw [Word.ofInt, Int64.ofInt_toInt]
    rfl
  have count (text : String) : UInt64.ofNat (byteLength text) = Word.ofInt (textBytes text).length := by
    rw [textBytes_length, Word.ofInt_natCast]
  cases encoded with
  | null nullable =>
    rw [seen, ite_self]
    cases encoding with
    | indicator => exact stored_zeros known nullable read
    | sentinel => exact meant_sentinel nullable read
  | bool shape value =>
    refine stored_word .i8 (by rw [parts?, shape]) (by rw [size, shape]; rfl) read ?_
    rw [shape, normalize_ofBool]
    exact .bool value
  | integer shape n =>
    refine stored_word .i32 (by rw [parts?, shape]) (by rw [size, shape]; rfl) read ?_
    rw [shape, normalize_of_fits (fits_int32 n)]
    exact .integer n
  | date shape n =>
    refine stored_word .i32 (by rw [parts?, shape]) (by rw [size, shape]; rfl) read ?_
    rw [shape, normalize_of_fits (fits_int32 n)]
    exact .date n
  | numeric shape n =>
    refine stored_word .i64 (by rw [parts?, shape]) (by rw [size, shape]; rfl) read ?_
    rw [shape, raw]
    exact .numeric n _ _
  | timestamp shape n =>
    refine stored_word .i64 (by rw [parts?, shape]) (by rw [size, shape]; rfl) read ?_
    rw [shape, raw]
    exact .timestamp n
  | char shape found =>
    refine meant_value (by rw [parts?, shape]) read (stored_text (by rw [size, shape]) read) ?_
    rw [shape, count]
    exact .char (.heap texts found) _
  | varchar shape found =>
    refine meant_value (by rw [parts?, shape]) read (stored_text (by rw [size, shape]) read) ?_
    rw [shape, count]
    exact .varchar (.heap texts found) _

end Codec

/-- The cell of a row can be loaded, and is what the table says it is. -/
theorem Machine.Shows.cell {handle i : Nat} {t : Table} {c : Column} (shows : m.Shows handle t)
    (atColumn : t.columns[i]? = some c) (isRow : tid < t.rowCount) :
    ∃ d, t.getCell m.database.heap.read tid i = .ok d ∧
      m.Meant m.program.encoding (m.program.encoding = .indicator)
        (regionAddress .column ((TablePart.cells i).region handle) + UInt64.ofNat (tid * c.ty.size)) c.ty
        ((t.nullWord tid).hasBit i) d := by
  obtain ⟨d, _, _, atColumn', atRow, encoded, flagged⟩ :=
    shows.valid.cell tid isRow i (Array.getElem?_eq_some_iff.mp atColumn).1
  cases atColumn.symm.trans atColumn'
  refine ⟨_, Table.getCell_of_encoded shows.texts atColumn isRow atRow encoded flagged, ?_⟩
  rw [flagged, ← shows.encoding]
  exact encoded.stored shows.texts (shows.valid.column i c atColumn).known
    (shows.readBytes_cell atColumn atRow encoded.length isRow)

end QueryEngine
