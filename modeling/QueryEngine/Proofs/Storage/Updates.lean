import QueryEngine.Proofs.Memory.Handles
import QueryEngine.Proofs.Storage.Refinement

namespace QueryEngine

open List

/-- What a table holds does not change where only texts are added. -/
theorem Table.Flagged.rows_mono {t : Table} {heap heap' : TextHeap} (valid : t.Flagged heap) (texts : heap.Valid)
    (grows : heap.Grows heap') (texts' : heap'.Valid) : t.rows heap' = t.rows heap := by
  refine map_congr_left fun tid member => ?_
  have isRow := mem_range.mp member
  refine rowAt_eq isRow (t.length_values heap tid) (fun i d atValue => ?_) (fun _ => known_of_seenBy)
    fun _ small => hasBit_iff_seenBy isRow small
  obtain ⟨inside, rfl⟩ := valueAt_of_values atValue
  exact ((valid.holds texts isRow inside).mono grows).valueAt valid.indicator texts' isRow

namespace Database

variable {db : Database} {name : String}

/-- The rows of a table as they are seen from outside. -/
def rowsOf? (db : Database) (name : String) : Option (List StoredRow) := (db.table? name).map fun t => t.rows db.heap

theorem find?_replaceTable {tables : List Table} {t : Table} (other : String) :
    (tables.map fun old => if old.name = t.name then t else old).find? (fun old => old.name = other) =
      (tables.find? fun old => old.name = other).map fun old => if old.name = t.name then t else old := by
  induction tables with
  | nil => rfl
  | cons first rest ih =>
    rw [map_cons, find?_cons, find?_cons, ih]
    by_cases replaced : first.name = t.name
    · rw [if_pos replaced, ← replaced]
      split <;> simp [replaced]
    · rw [if_neg replaced]
      split <;> simp [replaced]

/-- A change of one table leaves the rows of the others as they are. -/
theorem Valid.rowsOf?_updateTable (valid : db.Valid) (updated : db.updateTable name change = .ok db')
    (keeps : ∀ t t' heap', t.Flagged db.heap → change t db.heap = .ok (t', heap') →
      t'.name = t.name ∧ db.heap.Grows heap' ∧ heap'.Valid) :
    ∃ t t' heap', db.table? name = some t ∧ t.Flagged db.heap ∧ change t db.heap = .ok (t', heap') ∧
      db'.table? name = some t' ∧ ∀ other, db'.rowsOf? other = if other = name then some (t'.rows heap') else db.rowsOf? other := by
  obtain ⟨t, t', heap', found, changed, rfl⟩ := updateTable_ok updated
  have flagged {other : String} {old : Table} (found : db.table? other = some old) : old.Flagged db.heap :=
    ⟨(valid.table found).1, (valid.table found).2.trans valid.indicator⟩
  have named {other : String} {old : Table} (found : db.table? other = some old) : old.name = other := by
    simpa using find?_some found
  obtain ⟨same, grows, texts⟩ := keeps t t' heap' (flagged found) changed
  rw [named found] at same
  have replaced (other : String) : ({ db.replaceTable t' with heap := heap' } : Database).table? other =
      (db.table? other).map fun old => if old.name = t'.name then t' else old := find?_replaceTable other
  have here : ({ db.replaceTable t' with heap := heap' } : Database).table? name = some t' := by
    rw [replaced, found, Option.map_some, if_pos ((named found).trans same.symm)]
  refine ⟨t, t', heap', found, flagged found, changed, here, fun other => ?_⟩
  split
  next isHere =>
    rw [isHere, rowsOf?, here]
    rfl
  next elsewhere =>
    rw [rowsOf?, replaced, Option.map_map, rowsOf?]
    cases there : db.table? other with
    | none => rfl
    | some old =>
      rw [Option.map_some, Option.map_some, Function.comp, if_neg (by rw [named there, same]; exact elsewhere),
        (flagged there).rows_mono valid.heap grows texts]

/-- A table has these columns and rows. -/
def Shows (db : Database) (name : String) (types : List ValueType) (rows : List StoredRow) : Prop :=
  ∃ t, db.table? name = some t ∧ t.columnTypes = types ∧ t.rows db.heap = rows

/-- An overwritten cell has the new value, and nothing else changes. -/
theorem Shows.updateCell (shows : db.Shows name types rows) (valid : db.Valid)
    (updated : db.updateCell name tid column value = .ok db') :
    db'.Valid ∧ (∀ other, other ≠ name → db'.rowsOf? other = db.rowsOf? other) ∧
      ∃ ty d, types[column]? = some ty ∧ value.coerce ty = .ok d ∧
        db'.Shows name types (rows.modify tid fun row => { row with values := row.values.set column d }) := by
  obtain ⟨sound, encoding⟩ := valid.updateCell updated
  refine ⟨⟨sound, encoding.trans valid.indicator⟩, ?_⟩
  obtain ⟨t, t', heap', found, flagged, changed, found', rows'⟩ := valid.rowsOf?_updateTable updated
    fun t t' heap' flagged changed => by
      have rewrites := (flagged.updateCell_holds valid.heap changed).1
      exact ⟨rewrites.name, rewrites.grows, rewrites.texts⟩
  obtain ⟨_, found1, rfl, rfl⟩ := shows
  cases found.symm.trans found1
  have rewrites := (flagged.updateCell_holds valid.heap changed).1
  obtain ⟨ty, d, _, atColumn, coerced, same⟩ := flagged.rows_updateCell valid.heap changed
  refine ⟨fun other differs => by rw [rows' other, if_neg differs], ty, d, atColumn, coerced, t', found', rewrites.types, ?_⟩
  have here := rows' name
  rw [if_pos rfl, rowsOf?, found', Option.map_some, Option.some_inj] at here
  rw [here, same]

end Database

/-- The row with these values in these columns. -/
def StoredRow.write (cells : List (Nat × Datum)) (row : StoredRow) : StoredRow :=
  { row with values := cells.foldl (fun values cell => values.set cell.1 cell.2) row.values }

/-- Nothing but one row of a table has changed. It has the given values, coerced to their columns. -/
structure Machine.Overwrites (m m' : Machine) (name : String) (tid : Nat) (given : List (Nat × Datum)) : Prop where
  rest : m' = { m with database := m'.database }
  others : ∀ other, other ≠ name → m'.database.rowsOf? other = m.database.rowsOf? other
  row : ∀ types rows, m.database.Shows name types rows → ∃ cells,
    Forall₂ (fun cell given => cell.1 = given.1 ∧ ∃ ty, types[given.1]? = some ty ∧ given.2.coerce ty = .ok cell.2) cells given ∧
      m'.database.Shows name types (rows.modify tid (.write cells))

namespace Action

variable {m : Machine} {name : String} {tid : Nat}

theorem overwrites_nil (m : Machine) (name : String) (tid : Nat) : m.Overwrites m name tid [] where
  rest := rfl
  others := fun _ _ => rfl
  row := fun types rows shows => ⟨[], .nil, by
    have same : rows.modify tid (.write []) = rows := modify_id tid rows
    rwa [same]⟩

theorem overwrites_cons (valid : m.database.Valid) (updated : m.database.updateCell name tid column value = .ok db)
    (later : Machine.Overwrites { m with database := db } m' name tid cells) :
    m.Overwrites m' name tid ((column, value) :: cells) := by
  obtain ⟨t, _, _, found, _⟩ := Database.updateTable_ok updated
  have others := (Database.Shows.updateCell ⟨t, found, rfl, rfl⟩ valid updated).2.1
  refine ⟨later.rest, fun other differs => (later.others other differs).trans (others other differs), ?_⟩
  intro types rows shows
  obtain ⟨_, _, ty, d, atColumn, coerced, shows'⟩ := shows.updateCell valid updated
  obtain ⟨written, each, shows''⟩ := later.row _ _ shows'
  refine ⟨(column, d) :: written, .cons ⟨rfl, ty, atColumn, coerced⟩ each, ?_⟩
  rw [modify_modify_eq] at shows''
  exact shows''

/-- The columns are written up to the first one whose value cannot be written. -/
theorem updateCells_cases (valid : m.database.Valid) (name : String) (tid : Nat) (columns : List Nat) (row : Row) :
    (∃ m', updateCells name tid columns row m = .ok () m' ∧ m.Overwrites m' name tid (columns.zip row)) ∨
      ∃ written cell rest cause m', columns.zip row = written ++ cell :: rest ∧ (written = [] → m' = m) ∧
        m'.database.updateCell name tid cell.1 cell.2 = .error cause ∧
        updateCells name tid columns row m = .error (cause.map .database) m' ∧ m.Overwrites m' name tid written := by
  induction columns generalizing m row with
  | nil => exact .inl ⟨m, rfl, overwrites_nil m name tid⟩
  | cons column columns ih =>
    cases row with
    | nil => exact .inl ⟨m, rfl, overwrites_nil m name tid⟩
    | cons value row =>
      have same : updateCells name tid (column :: columns) (value :: row) m =
          (do
            let database ← ofChecked (m.database.updateCell name tid column value)
            modify fun m => { m with database }
            updateCells name tid columns row : Action Unit) m := rfl
      rw [same, zip_cons_cons]
      cases updated : m.database.updateCell name tid column value with
      | error cause =>
        exact .inr ⟨[], (column, value), _, cause, m, rfl, fun _ => rfl, updated, rfl, overwrites_nil m name tid⟩
      | ok db =>
        obtain ⟨sound, encoding⟩ := valid.updateCell updated
        have valid' : Database.Valid ({ m with database := db } : Machine).database :=
          ⟨sound, encoding.trans valid.indicator⟩
        rcases ih valid' row with ⟨m', ran, later⟩ | ⟨written, cell, rest, cause, m', zipped, _, refused, ran, later⟩
        · exact .inl ⟨m', ran, overwrites_cons valid updated later⟩
        · exact .inr ⟨(column, value) :: written, cell, rest, cause, m', by rw [zipped]; rfl, nofun, refused, ran,
            overwrites_cons valid updated later⟩

theorem orFail_cases {α : Type} (cause : RoutineError) (x? : Option α) (m : Machine) :
    (∃ x, x? = some x ∧ orFail cause x? m = .ok x m) ∨ orFail cause x? m = .error (.error cause) m := by
  cases x? with
  | none => exact .inr rfl
  | some x => exact .inl ⟨x, rfl, rfl⟩

/-- What a call says before it writes anything. -/
theorem tableUpdate_eq (m : Machine) (handle list layout tid tuple : Word) :
    (∃ fault, tableUpdate [handle, list, layout, tid, tuple] m = .error fault m) ∨
      ∃ name columns decoder, m.program.tables[handle.toNat]? = some name ∧
        m.program.columnLists[list.toNat]? = some columns ∧ m.program.layouts[layout.toNat]? = some decoder ∧
        tableUpdate [handle, list, layout, tid, tuple] m =
          (updateCells name tid.toNat columns (decoder.decode m.encoding m.readBytes tuple) >>= fun _ => return 0) m := by
  rcases orFail_cases (.unknownTable handle) m.program.tables[handle.toNat]? m with ⟨name, named, known⟩ | unknown
  · have atName : tableName handle m = .ok name m := known
    rcases orFail_cases (.unknownColumnList list) m.program.columnLists[list.toNat]? m with
      ⟨columns, listed, atList⟩ | unknown
    · rcases orFail_cases (.unknownLayout layout) m.program.layouts[layout.toNat]? m with
        ⟨decoder, laid, known⟩ | unknown
      · have atLayout : decodeTuple layout tuple m = .ok (decoder.decode m.encoding m.readBytes tuple) m :=
          (bind_run known).trans rfl
        have start : tableUpdate [handle, list, layout, tid, tuple] m = (table handle >>= fun _ =>
            updateCells name tid.toNat columns (decoder.decode m.encoding m.readBytes tuple) >>= fun _ => return 0) m :=
          (bind_run atName).trans ((bind_run atList).trans (bind_run atLayout))
        have atTable : table handle m = ofChecked ((m.database.table name).mapError .error) m := bind_run atName
        cases found : m.database.table name with
        | error cause =>
          rw [found] at atTable
          exact .inl ⟨_, start.trans ((bind_error (atTable.trans rfl)).trans rfl)⟩
        | ok t =>
          rw [found] at atTable
          exact .inr ⟨name, columns, decoder, named, listed, laid, start.trans (bind_run (atTable.trans rfl))⟩
      · have atLayout : decodeTuple layout tuple m = .error (.error (.unknownLayout layout)) m := (bind_error unknown).trans rfl
        exact .inl ⟨_, (bind_run atName).trans ((bind_run atList).trans ((bind_error atLayout).trans rfl))⟩
    · exact .inl ⟨_, (bind_run atName).trans ((bind_error unknown).trans rfl)⟩
  · exact .inl ⟨_, (bind_error (show tableName handle m = _ from unknown)).trans rfl⟩

end Action

/-- A call that overwrites cells of a row fails and changes nothing, or writes all listed columns, or fails at one of them
that is not the first, and then the ones before it are written. No other row changes. -/
theorem Routine.update_stops_at_failure {m : Machine} (valid : m.database.Valid) (handle list layout tid tuple : Word) :
    (∃ fault, run .tableUpdate [handle, list, layout, tid, tuple] m = .error fault m) ∨
      ∃ name columns decoder, m.program.tables[handle.toNat]? = some name ∧
        m.program.columnLists[list.toNat]? = some columns ∧ m.program.layouts[layout.toNat]? = some decoder ∧
        let given := columns.zip (decoder.decode m.encoding m.readBytes tuple)
        (∃ m', run .tableUpdate [handle, list, layout, tid, tuple] m = .ok 0 m' ∧
          m.Overwrites m' name tid.toNat given) ∨
        ∃ written cell rest cause m', given = written ++ cell :: rest ∧ written ≠ [] ∧
          m'.database.updateCell name tid.toNat cell.1 cell.2 = .error cause ∧
          run .tableUpdate [handle, list, layout, tid, tuple] m = .error (cause.map .database) m' ∧
          m.Overwrites m' name tid.toNat written := by
  rcases Action.tableUpdate_eq m handle list layout tid tuple with failed | ⟨name, columns, decoder, named, listed, laid, same⟩
  · exact .inl failed
  rcases Action.updateCells_cases valid name tid.toNat columns (decoder.decode m.encoding m.readBytes tuple) with
    ⟨m', ran, overwrites⟩ | ⟨written, cell, rest, cause, m', zipped, unchanged, refused, ran, overwrites⟩
  · exact .inr ⟨name, columns, decoder, named, listed, laid, .inl ⟨m', same.trans (Action.bind_run ran), overwrites⟩⟩
  · have failed := same.trans (Action.bind_error ran)
    by_cases first : written = []
    · rw [unchanged first] at failed
      exact .inl ⟨_, failed⟩
    · exact .inr ⟨name, columns, decoder, named, listed, laid,
        .inr ⟨written, cell, rest, cause, m', zipped, first, refused, failed, overwrites⟩⟩

namespace Routine.Example

/-- A table with an integer and a date, and one row. -/
def dated : Database :=
  match ({ encoding := .indicator } : Database).createTable "t" [("x", .integer), ("y", .date)] with
  | .error _ => { encoding := .indicator }
  | .ok db => match db.addRow "t" [.integer 1, .date 1] 0 with
    | .error _ => db
    | .ok db => db

theorem dated_valid : dated.Valid := by
  apply Database.Built.valid
  unfold dated
  split
  · exact .empty
  next db created =>
    have built : db.Built := .createTable .empty created
    split
    · exact built
    next db' added => exact built.addRow added

/-- Code that names both columns, and tuples of two integers. -/
def updating : Machine where
  program := { name := "p", encoding := .indicator, tables := #["t"], columnLists := #[[0, 1]],
               layouts := #[.make .indicator [.integer, .integer]] }
  database := dated
  settings := {}

/-- The cell of the integer, where a call has failed. -/
def afterFailure : EStateM.Result (Fault RoutineError) Machine Word → Option Datum
  | .ok _ _ => none
  | .error _ m => (m.database.getCell "t" 0 0).toOption

end Routine.Example

/-- The integer is written, and then no date is found in the tuple. -/
theorem Routine.update_is_not_atomic : (Example.updating.database.getCell "t" 0 0).toOption = some (.integer 1) ∧
    Example.afterFailure (run .tableUpdate [0, 0, 0, 0, 0] Example.updating) = some (.integer 0) := by
  decide +kernel

/-- The failing call is of the third kind: not all columns are written, and the machine is not what it was. -/
theorem Routine.update_stops_at_second_column : ∃ name columns decoder,
    Example.updating.program.tables[0]? = some name ∧ Example.updating.program.columnLists[0]? = some columns ∧
      Example.updating.program.layouts[0]? = some decoder ∧
      ∃ written cell rest cause m', columns.zip (decoder.decode Example.updating.encoding Example.updating.readBytes 0) =
          written ++ cell :: rest ∧ written ≠ [] ∧ m'.database.updateCell name 0 cell.1 cell.2 = .error cause ∧
        run .tableUpdate [0, 0, 0, 0, 0] Example.updating = .error (cause.map .database) m' ∧
        Example.updating.Overwrites m' name 0 written := by
  have before : (Example.updating.database.getCell "t" 0 0).toOption = some (.integer 1) := by decide +kernel
  have after : Example.afterFailure (run .tableUpdate [0, 0, 0, 0, 0] Example.updating) = some (.integer 0) := by
    decide +kernel
  rcases update_stops_at_failure (m := Example.updating) Example.dated_valid 0 0 0 0 0 with
    ⟨fault, unchanged⟩ | ⟨name, columns, decoder, named, listed, laid, ⟨m', all, _⟩ | stopped⟩
  · rw [unchanged] at after
    cases before.symm.trans after
  · rw [all] at after
    cases after
  · exact ⟨name, columns, decoder, named, listed, laid, stopped⟩

end QueryEngine
