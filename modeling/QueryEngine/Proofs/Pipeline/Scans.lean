import QueryEngine.Proofs.Execution.Loops
import QueryEngine.Proofs.Pipeline.Rows
import QueryEngine.Proofs.Storage.Columns

set_option synthInstance.maxSize 512

namespace QueryEngine

open Emit List Word CodeType

variable {i : Nat} {host : Host} {s : Point}

namespace Word

/-- The bit that shifting and masking leaves. -/
theorem shiftRight_and_one (w : Word) (small : i < 64) : (w >>> UInt64.ofNat i) &&& 1 = ofBool (w.hasBit i) := by
  apply UInt64.toNat_inj.mp
  have amount : (UInt64.ofNat i).toNat % 64 = i := by
    rw [UInt64.toNat_ofNat', Nat.mod_eq_of_lt (by omega : i < 2 ^ 64), Nat.mod_eq_of_lt small]
  rw [hasBit_eq w small, UInt64.toNat_and, UInt64.toNat_shiftRight, amount, UInt64.toNat_one, Nat.and_one_is_mod,
    Nat.testBit_eq_decide_div_mod_eq, Nat.shiftRight_eq_div_pow]
  rcases Nat.mod_two_eq_zero_or_one (w.toNat / 2 ^ i) with even | odd
  · rw [even]
    rfl
  · rw [odd]
    rfl

end Word

variable {w : Word}

namespace Host.Attains

/-- A product that fits. -/
theorem mulNumber (left : s.Number a .i64 n) (right : s.Number b .i64 k) (fits : i64.fits (n * k) = true) :
    host.Yields (Emit.binary .mul a b) s fun r s' =>
      s'.Number r .i64 (n * k) := by
  refine (binary .mul left.reads right.reads).weaken fun r s' _ reads => ⟨?_, fits⟩
  rw [BinaryOp.normalize_apply_exact .mul n k rfl] at reads
  have exact : i64.wrap (OverflowOp.mul.exact n k) = n * k := wrap_of_fits fits
  rwa [exact] at reads

theorem shiftRight (word : s.Reads a .i64 w) (amount : s.Number shift .i64 i) :
    host.Yields (Emit.binary .lshr a shift) s fun r s' => s'.Reads r .i64 (w >>> UInt64.ofNat i) := by
  refine (binary .lshr word amount.reads).weaken fun r s' _ reads => ?_
  rw [← ofInt_natCast]
  exact reads

/-- A single bit of a word that has been shifted. -/
theorem lowestBit (small : i < 64) (shifted : s.Reads a .i64 (w >>> UInt64.ofNat i)) (isOne : s.Number one .i64 1) :
    host.Yields (Emit.binary .and a one) s fun r s' =>
      s'.Number r .i64 (if w.hasBit i then 1 else 0) := by
  refine (binary .and shifted isOne.reads).weaken fun r s' _ reads => ⟨?_, fits_ofBool _⟩
  rw [← ofBool_eq, ← shiftRight_and_one w small]
  exact reads

/-- A shorter register for a number. -/
theorem narrow (operand : s.Number a .i64 n) : host.Yields (Emit.resize a .i32 false) s fun r s' =>
    s'.Number r .i32 (i32.wrap n) := by
  refine (typeOf operand.reads).bind fun found s' _ ⟨same, found_eq⟩ => ?_
  subst same found_eq
  exact cast (.inr rfl) operand

end Host.Attains

open Host.Attains

variable {types : Nat → Shape}

theorem attains_number (n : Nat) : host.Yields (number n) s fun r s' => s'.Number r .i64 n := by
  unfold number
  split
  next fits => exact constNumber fits
  · exact .throw

theorem Program.tables_tableHandle (p : Program) (table : String) :
    (p.tableHandle table).2.tables[(p.tableHandle table).1]? = some table := by
  unfold tableHandle
  split
  next handle found =>
    obtain ⟨bound, same, _⟩ := Array.findIdx?_eq_some_iff_getElem.mp found
    rw [Array.getElem?_eq_getElem bound]
    exact congrArg some (of_decide_eq_true same)
  · simp

/-- The handle of a table in the program. -/
theorem attains_tableHandle (table : String) : host.Attains (tableHandle table) s fun r s' =>
    ∃ handle : Nat, s'.machine = s.machine ∧ s'.Number r .i64 handle ∧ handle ≤ TablePart.largestHandle ∧
      host.program.tables[handle]? = some table := by
  unfold tableHandle
  have : Growing (inProgram fun program => program.tableHandle table) := .inProgram fun p => .tableHandle p table
  refine (inProgram fun p => .tableHandle p table).bind fun handle s1 before1 ⟨machine1, given, grows⟩ => ?_
  have known : host.program.tables[handle]? = some table := by
    obtain ⟨_, all⟩ := grows.tables
    have found := s.builder.program.tables_tableHandle table
    rw [← given, ← Array.getElem?_toList] at found
    rw [← Array.getElem?_toList, ← all, List.getElem?_append_left (List.getElem?_eq_some_iff.mp found).1, found]
  split
  · exact .bind .throw fun _ _ _ (impossible : False) => impossible.elim
  next small =>
    exact (attains_number handle).mono fun r s2 _ ⟨machine2, number⟩ =>
      ⟨handle, machine2.trans machine1, number, Nat.le_of_not_lt small, known⟩

variable {m : Machine}

/-- The table under a handle of the program. -/
theorem Machine.Shows.of_named (program : m.program = host.program) (named : host.program.tables[handle]? = some table)
    (found : m.database.table? table = some t) (small : handle ≤ TablePart.largestHandle) (sound : m.database.Sound)
    (encoding : m.database.encoding = host.program.encoding) : m.Shows handle t where
  named := by rw [program, named, Option.bind_some, found]
  small := small
  encoding := by rw [(sound.table found).2, program, encoding]
  valid := (sound.table found).1
  texts := sound.heap

theorem Machine.Shows.mono (shows : m.Shows handle t) (later : m.Later m') : m'.Shows handle t where
  named := by rw [later.program, later.database]; exact shows.named
  small := shows.small
  encoding := by rw [later.program]; exact shows.encoding
  valid := by rw [later.database]; exact shows.valid
  texts := by rw [later.database]; exact shows.texts

/-- The registers of each attribute hold the value that the row has for it, as it is loaded. -/
abbrev HeldRow.Loaded (encoding : NullEncoding) (s : Point) : HeldRow → ValueRow → Prop :=
  Forall₂ fun held item => held.1 = item.1 ∧ held.2.Loaded encoding held.1.ty s item.2

variable {held : HeldRow} {row : ValueRow}

theorem HeldRow.Loaded.mono {encoding : NullEncoding} (loaded : held.Loaded encoding s row) (before : s.Before s') :
    HeldRow.Loaded encoding s' held row :=
  Forall₂.imp (fun _ _ ⟨same, value⟩ => ⟨same, value.mono before⟩) loaded

variable {next : Sink}

section

variable {handle tid branch : Nat} {t : Table} {columns : List (Nat × Attribute)} {bases : List Reg}
  {nulls : Option Reg} {rowId : Option Attribute}

theorem handle_toNat (small : handle ≤ TablePart.largestHandle) : (ofInt handle).toNat = handle := by
  have most : TablePart.largestHandle < 2 ^ 64 := by decide
  rw [ofInt_natCast, UInt64.toNat_ofNat', Nat.mod_eq_of_lt (by omega)]

theorem Action.table_ok (shows : m.Shows handle t) : Action.table (ofInt handle) m = .ok t m := by
  obtain ⟨name, named, found⟩ := Option.bind_eq_some_iff.mp shows.named
  have known : tableName (ofInt handle) m = .ok name m := by
    change orFail _ m.program.tables[(ofInt handle).toNat]? m = _
    rw [handle_toNat shows.small, named]
    rfl
  have database : m.database.table name = .ok t := by rw [Database.table, found]
  unfold table
  rw [bind_of_ok known]
  change ofChecked ((m.database.table name).mapError .error) m = _
  rw [database]
  rfl

/-- What the routines say about a table. -/
theorem Machine.Shows.routines (shows : m.Shows handle t) :
    Routine.run .tableRowCount [ofInt handle] m = .ok (UInt64.ofNat t.rowCount) m ∧
    Routine.run .tableNulls [ofInt handle] m = .ok (regionAddress .column (TablePart.nulls.region handle)) m ∧
    Routine.run .tableBranches [ofInt handle] m = .ok (regionAddress .column (TablePart.branches.region handle)) m ∧
    ∀ i < t.columns.size, Routine.run .tableColumn [ofInt handle, ofInt i] m =
      .ok (regionAddress .column ((TablePart.cells i).region handle)) m := by
  have found := Action.table_ok shows
  have number := handle_toNat shows.small
  refine ⟨?_, ?_, ?_, fun i inside => ?_⟩
  · exact bind_of_ok found
  · refine (bind_of_ok found).trans ?_
    rw [Action.partAddress, number]
    rfl
  · refine (bind_of_ok found).trans ?_
    rw [Action.partAddress, number]
    rfl
  · have few : t.columns.size ≤ 64 := shows.valid.few
    have index : (ofInt i).toNat = i := by
      rw [ofInt_natCast, UInt64.toNat_ofNat', Nat.mod_eq_of_lt (by omega)]
    refine (bind_of_ok found).trans ?_
    change (if t.columns.size ≤ (ofInt i).toNat then _ else _ : Action Word) m = _
    rw [index, if_neg (by omega), Action.partAddress, number]
    rfl

/-- The cells of a row, as values of attributes. -/
def Table.cells? (t : Table) (read : MemoryReader) (tid : Nat) (columns : List (Nat × Attribute)) : Option ValueRow :=
  columns.mapM fun column => (t.getCell read tid column.1).toOption.map fun d => (column.2, d)

theorem Table.lt_of_columnType? (known : t.columnType? i = some ty) : i < t.columns.size :=
  let ⟨_, atColumn, _⟩ := Option.map_eq_some_iff.mp known
  (Array.getElem?_eq_some_iff.mp atColumn).1

/-- The attributes are of the types of the columns that are read into them. -/
def Table.Describes (t : Table) (columns : List (Nat × Attribute)) : Prop :=
  ∀ column ∈ columns, t.columnType? column.1 = some column.2.ty

theorem Table.rows_fit (valid : t.Valid heap) (isRow : tid < t.rowCount) (small : size ≤ 16) :
    tid * size + size ≤ 2 ^ 38 := by
  have rows : t.rowCount ≤ 2 ^ 34 := valid.rows
  have most : (tid + 1) * size ≤ 2 ^ 34 * 16 := Nat.mul_le_mul (by omega) small
  rw [Nat.succ_mul] at most
  omega

theorem fits_of_le {n : Nat} (small : n ≤ 2 ^ 38) : i64.fits n = true := by
  simp only [fits, Bool.and_eq_true, decide_eq_true_eq]
  omega

/-- A scan reads columns into attributes of their types. The id of a row is an integer, and never stands for NULL. -/
structure Table.Scanned (t : Table) (encoding : NullEncoding) (types : Nat → Shape) (columns : List (Nat × Attribute))
    (rowId : Option Attribute) : Prop where
  describes : t.Describes columns
  typed : ∀ column ∈ columns, column.2.Typed types
  idTyped : ∀ a, rowId = some a → a.Typed types ∧ a.ty.shape = .integer
  idPlain : encoding = .sentinel → ∀ a, rowId = some a → a.ty.nullable = false

/-- Where the columns of a table start. -/
abbrev Point.Bases (s : Point) (handle : Nat) : List (Nat × Attribute) → List Reg → Prop :=
  Forall₂ fun column base => s.Reads base .ptr (regionAddress .column ((TablePart.cells column.1).region handle))

/-- What a scan has at hand for each row: the table, where its columns start, and where its NULL bits are, if needed. -/
structure Point.Scans (s : Point) (handle : Nat) (t : Table) (columns : List (Nat × Attribute)) (bases : List Reg)
    (nulls : Option Reg) : Prop where
  shows : s.machine.Shows handle t
  starts : s.Bases handle columns bases
  nulls : ∀ base, nulls = some base → s.Reads base .ptr (regionAddress .column (TablePart.nulls.region handle))

theorem Point.Scans.mono (scans : s.Scans handle t columns bases nulls) (before : s.Before s')
    (later : s.machine.Later s'.machine) : s'.Scans handle t columns bases nulls where
  shows := scans.shows.mono later
  starts := scans.starts.imp fun _ _ reads => reads.mono before
  nulls := fun base given => (scans.nulls base given).mono before

theorem Point.Scans.same (scans : s.Scans handle t columns bases nulls) (before : s.Before s')
    (machine : s'.machine = s.machine) : s'.Scans handle t columns bases nulls :=
  scans.mono before (machine ▸ .refl _)

/-- The NULL bit of a column that can be NULL. -/
theorem attains_nullBit (small : i < 64) (oneIs : s.Number one .i64 1)
    (wordIs : ∀ word, nullWord = some word → s.Reads word .i64 w) :
    host.Yields (nullBit one nullWord i a) s fun flag s' =>
      ∀ f, flag = some f → ∃ ty n, s'.Number f ty n ∧ decide (n ≠ 0) = w.hasBit i := by
  unfold nullBit
  split
  next word _ =>
    refine (constNumber (n := i) (fits_of_le (by omega))).andThen fun shift s1 before1 shiftIs => ?_
    refine (shiftRight ((wordIs word rfl).mono before1) shiftIs).andThen fun shifted s2 before2 shiftedIs => ?_
    refine .map ((lowestBit small shiftedIs ((oneIs.mono before1).mono before2)).weaken
      fun f s3 _ bitIs => fun f' same => ?_)
    cases same
    refine ⟨.i64, _, bitIs, ?_⟩
    cases w.hasBit i <;> rfl
  · exact .pure ⟨rfl, fun _ given => by cases given⟩

theorem attains_scanColumn {r : Reg} {isNull : Option Reg} {a : Attribute} (shows : s.machine.Shows handle t)
    (isRow : tid < t.rowCount) (describes : t.columnType? i = some a.ty)
    (address : s.Reads r .ptr (regionAddress .column ((TablePart.cells i).region handle) + UInt64.ofNat (tid * a.ty.size)))
    (flagged : ∀ f, isNull = some f → ∃ ty n, s.Number f ty n ∧ decide (n ≠ 0) = (t.nullWord tid).hasBit i) :
    host.Attains (Held.load a.ty r isNull) s fun h s' => ∃ d, s'.machine = s.machine ∧
      t.getCell s.machine.database.heap.read tid i = .ok d ∧ h.Loaded host.program.encoding a.ty s' d ∧
      h.ty.shape = a.ty.shape := by
  refine .of_at fun here => ?_
  obtain ⟨c, atColumn, same⟩ := Option.map_eq_some_iff.mp describes
  obtain ⟨d, given, meant⟩ := shows.cell atColumn isRow
  rw [same, here.program] at meant
  have numbered : (TablePart.cells i).Numbered := Nat.lt_of_lt_of_le (Table.lt_of_columnType? describes) shows.valid.few
  have room := Table.rows_fit shows.valid isRow a.ty.size_le
  refine (Held.attains_load meant address (fun parts found part member => ?_) isNull flagged).mono
    fun h s' _ ⟨machine, bears, shape, back⟩ => ⟨d, machine, given, ⟨bears, back⟩, shape⟩
  have inside := ValueType.part_le found part member
  have some : 0 < part.1.storeSize := by cases part.1 <;> decide
  rw [UInt64.add_assoc, ← UInt64.ofNat_add]
  exact shows.address_ne_zero numbered (show _ < 2 ^ 38 by omega)

theorem attains_scanColumns (shows : s.machine.Shows handle t) (isRow : tid < t.rowCount)
    (describes : t.Describes columns) (typed : ∀ column ∈ columns, column.2.Typed types)
    (tidIs : s.Number tidReg .i64 tid) (oneIs : s.Number one .i64 1)
    (wordIs : ∀ word, nullWord = some word → s.Reads word .i64 (t.nullWord tid)) (starts : s.Bases handle columns bases)
    (loaded : held.Loaded host.program.encoding s row) (rowTyped : HeldRow.Typed types held) :
    host.Attains (scanColumns tidReg one nullWord columns bases held) s fun held' s' => ∃ cells,
      s'.machine = s.machine ∧ t.cells? s.machine.database.heap.read tid columns = some cells ∧
      held'.Loaded host.program.encoding s' (cells.reverse ++ row) ∧ HeldRow.Typed types held' := by
  induction columns generalizing s bases held row with
  | nil =>
    cases starts
    exact .pure ⟨[], rfl, rfl, loaded, rowTyped⟩
  | cons column columns ih =>
    obtain ⟨base, bases, baseIs, others, rfl⟩ := forall₂_cons_left_iff.mp starts
    obtain ⟨i, a⟩ := column
    have known : t.columnType? i = some a.ty := describes (i, a) mem_cons_self
    have small : i < 64 := Nat.lt_of_lt_of_le (Table.lt_of_columnType? known) shows.valid.few
    have wide := a.ty.size_le
    have room := Table.rows_fit shows.valid isRow wide
    refine (constNumber (n := a.ty.size) (fits_of_le (by omega))).bind fun size s1 before1 ⟨machine1, sizeIs⟩ => ?_
    have fits : i64.fits ((tid : Int) * (a.ty.size : Int)) = true := by
      exact_mod_cast fits_of_le (n := tid * a.ty.size) (by omega)
    refine (mulNumber (tidIs.mono before1) sizeIs fits).bind fun offset s2 before2 ⟨machine2, offsetIs⟩ => ?_
    have early := before1.trans before2
    refine (ptrAdd (baseIs.mono early) offsetIs.reads).bind fun address s3 before3 ⟨machine3, addressIs⟩ => ?_
    have early := early.trans before3
    refine (attains_nullBit small (oneIs.mono early) fun word given => (wordIs word given).mono early).bind
      fun isNull s4 before4 ⟨machine4, flagged⟩ => ?_
    have machine : s4.machine = s.machine := by rw [machine4, machine3, machine2, machine1]
    have early := early.trans before4
    refine (attains_scanColumn (machine ▸ shows) isRow known (addressIs.mono before4) flagged).bind
      fun h s5 before5 ⟨d, machine5, given, value, shape⟩ => ?_
    rw [machine] at given machine5
    have early := early.trans before5
    have typed' : HeldRow.Typed types ((a, h) :: held) :=
      forall_mem_cons.mpr ⟨shape.trans (typed (i, a) mem_cons_self), rowTyped⟩
    refine (ih (machine5 ▸ shows) (fun other member => describes other (mem_cons_of_mem _ member))
      (fun other member => typed other (mem_cons_of_mem _ member)) (tidIs.mono early) (oneIs.mono early)
      (fun word given => (wordIs word given).mono early) (others.imp fun _ _ reads => reads.mono early)
      (.cons (b := (a, d)) ⟨rfl, value⟩ (loaded.mono early)) typed').mono
      fun held' s6 _ ⟨cells, machine6, found, loaded6, typed6⟩ => ⟨(a, d) :: cells, machine6.trans machine5, ?_, ?_, typed6⟩
    · rw [machine5] at found
      unfold Table.cells? at found ⊢
      rw [mapM_cons, given, found]
      rfl
    · simpa using loaded6

/-- The row that is handed on for a row of the table. Ids wrap to 32 bits. -/
def Table.scanRow? (t : Table) (read : MemoryReader) (columns : List (Nat × Attribute)) (rowId : Option Attribute)
    (tid : Nat) : Option ValueRow :=
  (t.cells? read tid columns).map fun cells =>
    rowId.toList.map (fun a => (a, .integer (Int32.ofNat tid))) ++ cells.reverse

/-- The word that a part of the table has for a row. -/
theorem attains_rowWord {base : Reg} {part : TablePart} (shows : s.machine.Shows handle t) (isRow : tid < t.rowCount)
    (numbered : part.Numbered) (baseIs : s.Reads base .ptr (regionAddress .column (part.region handle)))
    (offsetIs : s.Number offset .i64 (tid * 8 : Nat)) : host.Yields (rowWord base offset) s fun word s' =>
      s'.Reads word .i64
        (s.machine.load 8 (regionAddress .column (part.region handle) + UInt64.ofNat (tid * 8))) := by
  have room := Table.rows_fit shows.valid isRow (show 8 ≤ 16 by decide)
  refine (ptrAdd baseIs offsetIs.reads).sameThen fun address s1 before1 machine1 addressIs => ?_
  refine (Host.Attains.load .i64 addressIs (shows.address_ne_zero numbered (show _ < 2 ^ 38 by omega))).weaken
    fun word s2 _ reads => ?_
  rw [machine1] at reads
  exact reads

/-- The NULL bits of a row, if they are needed. -/
theorem attains_nullWord (scans : s.Scans handle t columns bases nulls) (isRow : tid < t.rowCount)
    (offsetIs : s.Number offset .i64 (tid * 8 : Nat)) :
    host.Yields (nulls.mapM fun base => rowWord base offset) s fun nullWord s' =>
      ∀ word, nullWord = some word → s'.Reads word .i64 (t.nullWord tid) := by
  cases nulls with
  | none => exact .pure ⟨rfl, nofun⟩
  | some base =>
    refine .map ((attains_rowWord scans.shows isRow TablePart.nulls_numbered (scans.nulls base rfl) offsetIs).weaken
      fun word s' _ reads => fun word' same => ?_)
    cases same
    rwa [scans.shows.load_word TablePart.nulls_numbered (fun _ => rfl) scans.shows.valid.nulls scans.shows.valid.nullCount isRow] at reads

variable {post : Machine → Prop}

/-- Where `pre` holds, the code for a row runs to where `post` holds. -/
def Host.Handles (host : Host) (types : Nat → Shape) (next : Sink) (row? : Option ValueRow) (s : Point)
    (pre post : Machine → Prop) : Prop :=
  ∀ held row s', s.Before s' → pre s'.machine → row? = some row → held.Loaded host.program.encoding s' row →
    HeldRow.Typed types held → host.Attains (next held) s' fun _ s'' => post s''.machine

/-- A row of the table is handed on as it lies there. -/
theorem attains_scanRow (scans : s.Scans handle t columns bases nulls) (isRow : tid < t.rowCount)
    (scanned : t.Scanned host.program.encoding types columns rowId) (tidIs : s.Number tidReg .i64 tid)
    (offsetIs : s.Number offset .i64 (tid * 8 : Nat)) (oneIs : s.Number one .i64 1) [∀ held, Growing (next held)]
    (hands : host.Handles types next (t.scanRow? s.machine.database.heap.read columns rowId tid) s (· = s.machine) post) :
    host.Attains (scanRow tidReg offset one nulls columns bases rowId next) s fun _ s' => post s'.machine := by
  unfold scanRow
  refine .seq (fun nullWord => by cases rowId <;> infer_instance) (attains_nullWord scans isRow offsetIs)
    fun nullWord s1 before1 ⟨machine1, wordIs⟩ => ?_
  have nothing : HeldRow.Typed types [] := fun _ member => absurd member not_mem_nil
  have scans1 := scans.same before1 machine1
  refine .seq (fun held => by cases rowId <;> infer_instance)
    (attains_scanColumns scans1.shows isRow scanned.describes scanned.typed (tidIs.mono before1) (oneIs.mono before1) wordIs
      scans1.starts .nil nothing) fun held s2 before2 ⟨cells, machine2, given, loaded, rowTyped⟩ => ?_
  have early := before1.trans before2
  have machine := machine2.trans machine1
  rw [machine1] at given
  rw [append_nil] at loaded
  cases rowId with
  | none =>
    refine hands held cells.reverse s2 early machine ?_ loaded rowTyped
    rw [Table.scanRow?, given]
    rfl
  | some a =>
    obtain ⟨idShape, integer⟩ := scanned.idTyped a rfl
    refine (narrow (tidIs.mono early)).bind fun id s3 before3 ⟨machine3, idIs⟩ => ?_
    have wrapped : i32.wrap tid = (Int32.ofNat tid).toInt := by
      rw [← Int32.ofInt_eq_ofNat, Int32.toInt_ofInt]
      rfl
    rw [wrapped] at idIs
    have value : Held.Loaded host.program.encoding a.ty s3 (.present (.integer id)) (.integer (Int32.ofNat tid)) := by
      refine ⟨.present ⟨[(.i32, ofInt (Int32.ofNat tid).toInt)], .cons idIs.reads .nil, .integer _⟩, if_neg ?_⟩
      rintro ⟨sentinel, nullable, _⟩
      rw [scanned.idPlain sentinel a rfl] at nullable
      cases nullable
    have typed' : HeldRow.Typed types ((a, .present (.integer id)) :: held) :=
      forall_mem_cons.mpr ⟨integer.symm.trans idShape, rowTyped⟩
    refine hands _ ((a, .integer (Int32.ofNat tid)) :: cells.reverse) s3 (early.trans before3)
      (machine3.trans machine) ?_ (.cons ⟨rfl, value⟩ (loaded.mono before3)) typed'
    rw [Table.scanRow?, given]
    rfl

/-- The row if the branch sees it, and no row else. -/
def Table.scanned? (t : Table) (read : MemoryReader) (columns : List (Nat × Attribute)) (rowId : Option Attribute)
    (branch tid : Nat) : Option (List ValueRow) :=
  if t.isVisible tid branch then (t.scanRow? read columns rowId tid).map ([·]) else some []

/-- A row is handed on if the branch sees it. -/
theorem attains_scanVisible {zero visibility : Reg} (scans : s.Scans handle t columns bases nulls)
    (isRow : tid < t.rowCount) (isBranch : branch < maxBranches)
    (scanned : t.Scanned host.program.encoding types columns rowId) (tidIs : s.Number tidReg .i64 tid)
    (zeroIs : s.Number zero .i64 0)
    (visibilityIs : s.Reads visibility .ptr (regionAddress .column (TablePart.branches.region handle)))
    [∀ held, Growing (next held)]
    (hands : t.isVisible tid branch = true →
      host.Handles types next (t.scanRow? s.machine.database.heap.read columns rowId tid) s (· = s.machine) post)
    (skips : t.isVisible tid branch = false → post s.machine) :
    host.Attains (scanVisible tidReg zero visibility branch nulls columns bases rowId next) s
      fun _ s' => post s'.machine := by
  have room := Table.rows_fit scans.shows.valid isRow (show 8 ≤ 16 by decide)
  have small : branch < 64 := isBranch
  refine (constNumber (n := 8) rfl).bind fun eight s1 before1 ⟨machine1, eightIs⟩ => ?_
  have fits : i64.fits ((tid : Int) * 8) = true := by exact_mod_cast fits_of_le (n := tid * 8) (by omega)
  refine (mulNumber (tidIs.mono before1) eightIs fits).bind fun offset s2 before2 ⟨machine2, offsetIs⟩ => ?_
  have offsetIs : s2.Number offset .i64 (tid * 8 : Nat) := by exact_mod_cast offsetIs
  have early := before1.trans before2
  have shows2 := (scans.same early (machine2.trans machine1)).shows
  refine (attains_rowWord shows2 isRow TablePart.branches_numbered (visibilityIs.mono early) offsetIs).bind
    fun word s3 before3 ⟨machine3, wordIs⟩ => ?_
  have wordIs : s3.Reads word .i64 (t.branchWord tid) := by
    rwa [shows2.load_word TablePart.branches_numbered (fun _ => rfl) shows2.valid.branches rfl isRow] at wordIs
  refine (constNumber (n := branch) (fits_of_le (by omega))).bind fun number s4 before4 ⟨machine4, numberIs⟩ => ?_
  refine (shiftRight (wordIs.mono before4) numberIs).bind fun shifted s5 before5 ⟨machine5, shiftedIs⟩ => ?_
  refine (constNumber (n := 1) rfl).bind fun one s6 before6 ⟨machine6, oneIs⟩ => ?_
  refine (lowestBit small (shiftedIs.mono before6) oneIs).bind fun bit s7 before7 ⟨machine7, bitIs⟩ => ?_
  have late := before3.trans (before4.trans (before5.trans (before6.trans before7)))
  refine (compareNumbers (show Predicate.ne.isSigned = true from rfl) bitIs (zeroIs.mono (early.trans late))).bind
    fun visible s8 before8 ⟨machine8, visibleIs⟩ => ?_
  have late := late.trans before8
  have machine : s8.machine = s.machine := by
    rw [machine8, machine7, machine6, machine5, machine4, machine3, machine2, machine1]
  have seen : Predicate.ne.holds (if (t.branchWord tid).hasBit branch = true then 1 else 0) 0 = t.isVisible tid branch := by
    rw [Table.isVisible, decide_eq_true isRow, decide_eq_true isBranch]
    cases (t.branchWord tid).hasBit branch <;> rfl
  rw [seen] at visibleIs
  refine .ifThen post visibleIs (fun isVisible s9 before9 machine9 => ?_) fun hidden => machine ▸ skips hidden
  have machine : s9.machine = s.machine := machine9.trans machine
  have late := late.trans before9
  have early := early.trans late
  refine attains_scanRow (scans.same early machine) isRow scanned (tidIs.mono early) (offsetIs.mono late)
    (oneIs.mono (before7.trans (before8.trans before9))) fun held row s' before same given loaded rowTyped => ?_
  rw [machine] at given same
  exact hands isVisible held row s' (early.trans before) same given loaded rowTyped

theorem attains_columnStart {column : Nat × Attribute} (shows : s.machine.Shows handle t)
    (described : t.columnType? column.1 = some column.2.ty) (handleIs : s.Number h .i64 handle) :
    host.Yields (columnStart h column) s fun base s' =>
      s'.Reads base .ptr (regionAddress .column ((TablePart.cells column.1).region handle)) := by
  have inside := Table.lt_of_columnType? described
  have few : t.columns.size ≤ 64 := shows.valid.few
  refine (constNumber (n := column.1) (fits_of_le (by omega))).sameThen fun index s1 before1 machine1 indexIs => ?_
  have given := shows.routines.2.2.2 column.1 inside
  rw [← machine1] at given
  have args : s1.ReadsAll [h, index] [(.i64, ofInt handle), (.i64, ofInt column.1)] :=
    .cons (handleIs.mono before1).reads (.cons indexIs.reads .nil)
  exact callValue args given rfl rfl (.refl _)

theorem attains_bases (shows : s.machine.Shows handle t) (describes : t.Describes columns)
    (handleIs : s.Number h .i64 handle) :
    host.Yields (columns.mapM (columnStart h)) s fun bases s' => s'.Bases handle columns bases := by
  induction columns generalizing s with
  | nil => exact .pure ⟨rfl, .nil⟩
  | cons column columns ih =>
    rw [mapM_cons]
    refine (attains_columnStart shows (describes column mem_cons_self) handleIs).sameThen
      fun base s1 before1 machine1 baseIs => ?_
    refine (ih (machine1 ▸ shows) (fun other member => describes other (mem_cons_of_mem _ member))
      (handleIs.mono before1)).andThen fun bases s2 before2 starts => ?_
    exact .pure ⟨rfl, .cons (baseIs.mono before2) starts⟩

theorem attains_nullWords (shows : s.machine.Shows handle t) (handleIs : s.Number h .i64 handle) :
    host.Yields (nullWords h columns) s fun nulls s' =>
      ∀ base, nulls = some base → s'.Reads base .ptr (regionAddress .column (TablePart.nulls.region handle)) := by
  unfold nullWords
  refine Host.Attains.encoding.bind fun encoding s1 _ ⟨point, _⟩ => ?_
  subst point
  dsimp only
  split
  · have args : s1.ReadsAll [h] [(.i64, ofInt handle)] := .cons handleIs.reads .nil
    refine .map ((callValue args shows.routines.2.1 rfl rfl (.refl _)).weaken
      fun base s2 _ reads => fun base' same => ?_)
    cases same
    exact reads
  · exact .pure ⟨rfl, nofun⟩

theorem attains_rowCount (shows : s.machine.Shows handle t) (handleIs : s.Number h .i64 handle) :
    host.Yields (callValue .tableRowCount [h]) s fun count s' => s'.Number count .i64 t.rowCount := by
  have args : s.ReadsAll [h] [(.i64, ofInt handle)] := .cons handleIs.reads .nil
  refine (callValue args shows.routines.1 rfl rfl (.refl _)).weaken fun count s' _ reads => ⟨?_, ?_⟩
  · rw [ofInt_natCast]
    exact reads
  · exact fits_of_le (Nat.le_trans shows.valid.rows (by decide))

/-- A scan runs through the rows of a table in the order of their ids, and hands on those that the branch sees. The invariant
is about the rows before some id. -/
theorem attains_scanRows (sound : s.machine.database.Sound)
    (encoding : s.machine.database.encoding = host.program.encoding) (found : s.machine.database.table? table = some t)
    (isBranch : branch < maxBranches) (scanned : t.Scanned host.program.encoding types columns rowId)
    [∀ held, Growing (next held)] (inv : (tid : Nat) → Machine → Prop) (start : inv 0 s.machine)
    (later : ∀ {tid m}, inv tid m → s.machine.Later m)
    (hands : ∀ tid < t.rowCount, t.isVisible tid branch = true →
      host.Handles types next (t.scanRow? s.machine.database.heap.read columns rowId tid) s (inv tid) (inv (tid + 1)))
    (skips : ∀ tid < t.rowCount, t.isVisible tid branch = false → ∀ m, inv tid m → inv (tid + 1) m) :
    host.Attains (scanRows table columns rowId branch next) s fun _ s' => inv t.rowCount s'.machine := by
  refine .of_at fun here => ?_
  unfold scanRows
  refine (attains_tableHandle table).bind fun h s1 before1 ⟨handle, machine1, handleIs, small, named⟩ => ?_
  have shows : s1.machine.Shows handle t := by
    rw [machine1]
    exact .of_named here.program named found small sound encoding
  refine (attains_rowCount shows handleIs).bind fun count s2 before2 ⟨machine2, countIs⟩ => ?_
  refine (attains_bases (machine2 ▸ shows) scanned.describes (handleIs.mono before2)).bind
    fun bases s3 before3 ⟨machine3, starts⟩ => ?_
  have shows3 : s3.machine.Shows handle t := by rw [machine3, machine2]; exact shows
  refine (attains_nullWords shows3 (handleIs.mono (before2.trans before3))).bind
    fun nulls s4 before4 ⟨machine4, nullsAre⟩ => ?_
  have scans : s4.Scans handle t columns bases nulls :=
    ⟨machine4 ▸ shows3, starts.imp fun _ _ reads => reads.mono before4, nullsAre⟩
  have args : s4.ReadsAll [h] [(.i64, ofInt handle)] :=
    .cons (handleIs.mono (before2.trans (before3.trans before4))).reads .nil
  refine (callValue args scans.shows.routines.2.2.1 rfl rfl (.refl _)).bind
    fun visibility s5 before5 ⟨machine5, visibilityIs⟩ => ?_
  refine (constNumber (n := 0) rfl).bind fun zero s6 before6 ⟨machine6, zeroIs⟩ => ?_
  have machine : s6.machine = s.machine := by rw [machine6, machine5, machine4, machine3, machine2, machine1]
  have late := before5.trans before6
  refine (Host.Attains.forRange (fun n m => inv n.toNat m) zeroIs
    (countIs.mono (before3.trans (before4.trans late))) (Int.natCast_nonneg _) (machine ▸ start) ?_).mono
    fun _ s7 _ holds => by simpa using holds
  rintro n i s' before least less iIs reached
  obtain ⟨tid, rfl⟩ := Int.eq_ofNat_of_zero_le least
  have isRow : tid < t.rowCount := by omega
  have following : ((tid : Int) + 1).toNat = tid + 1 := by omega
  have same := later reached
  have scans' := (scans.same late (machine6.trans machine5)).mono before (machine ▸ same)
  refine attains_scanVisible scans' isRow isBranch scanned iIs (zeroIs.mono before) (visibilityIs.mono (before6.trans before))
    (fun isVisible held row s'' before'' unchanged given loaded rowTyped => ?_)
    fun hidden => skips tid isRow hidden _ reached
  rw [same.database] at given
  exact hands tid isRow isVisible held row s''
    (before1.trans (before2.trans (before3.trans (before4.trans (late.trans (before.trans before''))))))
    (unchanged ▸ reached) given loaded rowTyped

theorem mapM_range_succ (given : (range n).mapM f = some xs) (last : f n = some x) :
    (range (n + 1)).mapM f = some (xs ++ [x]) := by
  rw [range_succ, mapM_append, given]
  simp [last]

/-- A scan hands on the rows that the branch sees, in the order of their ids. -/
theorem Host.Produces.scan (indicator : host.program.encoding = .indicator) (valid : db.Valid)
    (found : db.table? table = some t) (isBranch : branch < maxBranches) (describes : t.Describes columns)
    (typed : ∀ column ∈ columns, column.2.Typed types)
    (idTyped : ∀ a, rowId = some a → a.Typed types ∧ a.ty.shape = .integer) :
    host.Produces types db settings (scanRows table columns rowId branch)
      (fun out => ∃ outs, (List.range t.rowCount).mapM (t.scanned? db.heap.read columns rowId branch) = some outs ∧
        out = outs.flatten) maxRows 0 := by
  intro R next s rows left parts grows database set stands room fits receives
  subst database
  have rowCount : t.rowCount ≤ maxRows := (valid.table found).1.rows
  let inv (tid : Nat) (m : Machine) : Prop := ∃ outs,
    (List.range tid).mapM (t.scanned? s.machine.database.heap.read columns rowId branch) = some outs ∧
    outs.flatten.length ≤ tid ∧ R.Moves host s.size rows outs.flatten left parts s.machine m
  have scanned : t.Scanned host.program.encoding types columns rowId :=
    ⟨describes, typed, idTyped, fun sentinel => by rw [indicator] at sentinel; cases sentinel⟩
  refine (attains_scanRows valid.toSound (valid.indicator.trans indicator.symm) found isBranch scanned inv
    ⟨[], rfl, Nat.le_refl _, stands.moves⟩ (fun ⟨_, _, _, touches, _⟩ => touches.toLater) ?_ ?_).mono
    fun _ s' _ ⟨outs, given, few, moves⟩ => ⟨outs.flatten, ⟨outs, given, rfl⟩, Nat.le_trans few rowCount, moves⟩
  · rintro tid isRow isVisible held row s' before ⟨outs, given, few, touches, left', parts', stands', inside, taken⟩
      scanned loaded rowTyped
    have wide := before.types_size
    have length : (rows ++ outs.flatten).length < R.most := by
      rw [length_append]
      omega
    rw [indicator] at loaded
    refine (receives held row _ left' parts' s' before touches.toLater
      (loaded.imp fun _ _ ⟨same, value⟩ => ⟨same, value.bears.is rfl⟩) rowTyped length
      (stands'.quiet (.refl _) wide)).mono fun _ s'' _ moves => ?_
    have single : t.scanned? s.machine.database.heap.read columns rowId branch tid = some [row] := by
      rw [Table.scanned?, if_pos isVisible, scanned]
      rfl
    refine ⟨outs ++ [[row]], mapM_range_succ given single, by simpa using few, ?_⟩
    rw [flatten_append, flatten_singleton]
    exact .extend touches inside taken stands' wide moves
  · rintro tid isRow hidden m ⟨outs, given, few, moves⟩
    have none : t.scanned? s.machine.database.heap.read columns rowId branch tid = some [] := by
      rw [Table.scanned?, if_neg (by simp [hidden])]
    exact ⟨outs ++ [[]], mapM_range_succ given none, by simpa using Nat.le_succ_of_le few, by simpa using moves⟩

end

end QueryEngine
