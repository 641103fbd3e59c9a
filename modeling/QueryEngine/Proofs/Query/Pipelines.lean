import QueryEngine.Proofs.Plan.Chains

namespace QueryEngine

open List ValueType Option

theorem Planner.compile_ok {p : Planner} {settings : Settings} {cache cache' : SetCache} {query : CompiledQuery}
    (compiled : p.compile settings cache = .ok query cache') : ∃ checked lowered physical,
      p.plan.verify cache = .ok () checked ∧ p.plan.lower settings.resultMode checked = .ok physical lowered ∧
      Compile.emit p.database.encoding physical = .ok query.program ∧
      query.settings = { settings with branch := p.branch } := by
  unfold compile at compiled
  split at compiled
  · cases compiled
  · obtain ⟨_, checked, verified, compiled⟩ := bind_ran compiled
    obtain ⟨physical, lowered, chosen, compiled⟩ := bind_ran compiled
    obtain ⟨program, _, emitted, compiled⟩ := bind_ran compiled
    cases compiled
    refine ⟨checked, lowered, physical, ?_, ?_, ?_, rfl⟩
    · unfold Compile.checkDependencies at verified
      split at verified
      · cases verified
        assumption
      · cases verified
    · unfold Compile.lower at chosen
      split at chosen
      · cases chosen
        assumption
      · cases chosen
    · cases given : Compile.emit p.database.encoding physical with
      | error fault =>
        rw [given] at emitted
        cases emitted
      | ok program' =>
        rw [given] at emitted
        cases emitted
        rfl

theorem Planner.compile_settings {p : Planner} (compiled : p.compile settings cache = .ok query cache') :
    query.settings = { settings with branch := p.branch } := by
  obtain ⟨_, _, _, _, _, _, same⟩ := compile_ok compiled
  exact same

/-- A query that collects the rows of a chain of selections and mappings over a scan comes to an end, whatever the database
holds. It gives the selected values of what the chain leaves of the rows that its branch sees, in the order of their ids, and
leaves the database as it is. Which of the columns the code reads makes no difference. -/
theorem Planner.collects_chain_rows {p : Planner} {settings : Settings} {cache cache' : SetCache} {query : CompiledQuery}
    {root child : Nat} {selection : List Attribute} {source : TableScan} {steps : List RowStep} {types : Nat → Shape}
    {db : Database} (compiled : p.compile settings cache = .ok query cache') (flagged : p.database.encoding = .indicator)
    (collects : settings.resultMode = .collect) (top : p.plan.root = some root)
    (result : p.plan.operator root = .ok (.result child selection)) (chain : p.plan.Chain source child steps)
    (fits : source.Fits types db) (typed : ∀ step ∈ steps, step.Typed types) (selected : ∀ a ∈ selection, a.Typed types)
    (built : db.Built) :
    ∃ rows outcome, source.rows? db steps = some rows ∧
      rows.mapM (ValueRow.selected? selection) = some outcome.rows.toList ∧
      ∃ least, ∀ limit, least ≤ limit →
        query.program.executeWithin limit queryFunction query.settings db = (db, .ok outcome) := by
  obtain ⟨checked, lowered, physical, _, chosen, emitted, _⟩ := compile_ok compiled
  obtain ⟨tree, rfl, required, rfl⟩ : ∃ tree, physical = .collect tree selection ∧
      ∃ required, tree = RowStep.above (source.pruned required) steps := by
    unfold Plan.lower at chosen
    rw [top, collects] at chosen
    obtain ⟨_, _, tree, _, below, same⟩ := Lowering.below_collect result chosen
    exact ⟨tree, same, Lowering.below_chain chain below⟩
  rw [flagged] at emitted
  obtain ⟨outcome, out, ⟨rows, given, within⟩, collected, least, ends⟩ := Compile.collects query.settings
    emitted selected (fun host indicator => fits.produces built.valid indicator required steps typed) (Nat.zero_le _)
  exact ⟨rows, outcome, given, ValueRow.Within.selected_all? within collected, least, ends⟩

/-- Whether the query that a planner is asked for can be compiled. -/
def Planner.compiles (database? : Option Database) (planner : Database → Planner) (settings : Settings) : Bool :=
  match database? with
  | none => false
  | some db => match (planner db).compile settings {} with
    | .ok _ _ => true
    | .error _ _ => false

theorem Planner.exists_of_compiles (succeeds : Planner.compiles database? planner settings = true) :
    ∃ db query cache, database? = some db ∧ (planner db).compile settings {} = .ok query cache := by
  unfold compiles at succeeds
  split at succeeds
  · cases succeeds
  next db =>
    split at succeeds
    next query cache compiled => exact ⟨db, query, cache, rfl, compiled⟩
    · cases succeeds

/-- Whether the columns of a scan are columns of its table, of the same types. -/
def TableScan.describes (source : TableScan) (db : Database) : Bool :=
  (db.table? source.table).any fun t => source.columns.all fun column => t.columnType? column.1 = some column.2.ty

theorem TableScan.Fits.of_describes {source : TableScan} {types : Nat → Shape} (given : database? = some db)
    (describes : database?.all source.describes = true) (columns : ∀ column ∈ source.columns, column.2.Typed types)
    (rowId : source.rowId.Typed types ∧ source.rowId.ty.shape = .integer) (branch : source.branch < maxBranches) :
    source.Fits types db := by
  rw [given] at describes
  obtain ⟨t, found, all⟩ := (any_eq_true _ _).mp describes
  refine ⟨⟨t, found, fun column member => ?_⟩, columns, rowId, branch⟩
  exact of_decide_eq_true (all_eq_true.mp all column member)

theorem eq_of_bind {x? : Option α} {f : α → Option β} (given : x? = some x) (computed : x?.bind f = y) : f x = y := by
  rwa [given] at computed

namespace Planner.Example

def x : Attribute := ⟨0, .integer⟩

def y : Attribute := ⟨1, ValueType.integer.asNullable⟩

def sum : Attribute := ⟨3, ValueType.integer.asNullable⟩

def source : TableScan where
  table := "t"
  scan := 0
  columns := [(0, x), (1, y)]
  rowId := ⟨2, .integer⟩
  branch := 0

def small : Scalar := .compare .less (.column x) (.literal (.integer 4) .integer)

def sums : List Mapping := [⟨sum, .arithmetic .add (.column x) (.column y) ValueType.integer.asNullable⟩]

def plan : Plan where
  nodes := #[
    { op := .scan source, parent := some 1 },
    { op := .map 0 sums, parent := some 2 },
    { op := .select 1 small, parent := some 3 },
    { op := .result 2 [sum, x] }]
  root := some 3

/-- A table whose first row is hidden. -/
def database? : Option Database := do
  let empty : Database := { encoding := .indicator }
  let db ← (empty.createTable "t" [("x", .integer), ("y", ValueType.integer.asNullable)]).toOption
  let db ← (db.addRow "t" [.integer 1, .integer 5] 0).toOption
  let db ← (db.addRow "t" [.integer 2, .null] 0).toOption
  let db ← (db.addRow "t" [.integer 3, .integer 7] 0).toOption
  let db ← (db.addRow "t" [.integer 4, .integer 8] 0).toOption
  (db.hideRow "t" 0 0).toOption

theorem built (given : database? = some db) : db.Built := by
  have ok {ε α : Type} {result : Except ε α} {x : α} := @Checked.ok_of_toOption ε α result x
  unfold database? at given
  obtain ⟨_, created, given⟩ := bind_eq_some_iff.mp given
  obtain ⟨_, first, given⟩ := bind_eq_some_iff.mp given
  obtain ⟨_, second, given⟩ := bind_eq_some_iff.mp given
  obtain ⟨_, third, given⟩ := bind_eq_some_iff.mp given
  obtain ⟨_, fourth, hidden⟩ := bind_eq_some_iff.mp given
  exact .hideRow (.addRow (.addRow (.addRow (.addRow (.createTable .empty (ok created)) (ok first)) (ok second)) (ok third))
    (ok fourth)) (ok hidden)

/-- The planner of a query over this table. -/
def planner (db : Database) : Planner := { database := db, branch := 0, plan }

theorem fits (given : database? = some db) : source.Fits (fun _ => .integer) db :=
  .of_describes given (by decide) (by decide) ⟨rfl, rfl⟩ (by decide)

theorem chain (db : Database) : (planner db).plan.Chain source 2 [.select small, .map sums] :=
  .select rfl (.map rfl (.scan rfl))

theorem answers (given : database? = some db) :
    ((source.rows? db [.select small, .map sums]).bind fun rows => rows.mapM (ValueRow.selected? [sum, x])) =
      some [[.null, .integer 2], [.integer 10, .integer 3]] :=
  eq_of_bind (f := fun db => (source.rows? db _).bind _) given (by decide +kernel)

end Planner.Example

theorem Planner.collects_small_sums : ∃ db query cache, Example.database? = some db ∧
    (Example.planner db).compile { resultMode := .collect } {} = .ok query cache ∧
    ∃ outcome, outcome.rows.toList = [[.null, .integer 2], [.integer 10, .integer 3]] ∧ ∃ least, ∀ limit, least ≤ limit →
      query.program.executeWithin limit queryFunction query.settings db = (db, .ok outcome) := by
  have succeeds : compiles Example.database? Example.planner { resultMode := .collect } = true := by decide +kernel
  obtain ⟨db, query, cache, given, compiled⟩ := exists_of_compiles succeeds
  obtain ⟨rows, outcome, read, selected, ends⟩ := collects_chain_rows compiled (Example.built given).valid.indicator rfl
    rfl rfl (Example.chain db) (Example.fits given) (by decide) (by decide) (Example.built given)
  refine ⟨db, query, cache, given, compiled, outcome, ?_, ends⟩
  have all := Example.answers given
  rw [read, Option.bind_some, selected] at all
  exact Option.some.inj all

end QueryEngine
