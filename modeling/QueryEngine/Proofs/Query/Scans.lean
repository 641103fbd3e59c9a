import QueryEngine.Proofs.Query.Pipelines
import QueryEngine.Proofs.Storage.Refinement

namespace QueryEngine

open Emit List

theorem find?_of_nodup {α : Type} {f : α → Nat} {xs : List α} {x : α} (distinct : (xs.map f).Nodup) (member : x ∈ xs) :
    xs.find? (fun y => f y = f x) = some x := by
  induction xs with
  | nil => cases member
  | cons y ys ih =>
    rw [map_cons, nodup_cons] at distinct
    rcases mem_cons.mp member with rfl | later
    · simp
    · have differs : f y ≠ f x := fun same => distinct.1 (same ▸ mem_map_of_mem later)
      rw [find?_cons_of_neg (by simpa using differs), ih distinct.2 later]

/-- A row has the values of its own items, if no two of them have the same number. -/
theorem ValueRow.selected?_items {row items : ValueRow} (distinct : (row.map fun item => item.1.id).Nodup) (among : items ⊆ row) :
    row.selected? (items.map Prod.fst) = some (items.map Prod.snd) := by
  unfold selected?
  rw [mapM_map]
  refine mapM_eq_map fun item member => ?_
  rw [Function.comp, value?, find?_of_nodup distinct (among member)]
  rfl

namespace TableScan

variable {source : TableScan} {t : Table}

def attributes (source : TableScan) : List Attribute := source.rowId :: source.columns.map Prod.snd

/-- The scan reads every column of the table in their order, each into an attribute of its type. -/
structure Whole (source : TableScan) (t : Table) : Prop where
  columns : source.columns.map Prod.fst = List.range t.columns.size
  describes : t.Describes source.columns
  rowId : source.rowId.ty = .integer
  distinct : (source.attributes.map Attribute.id).Nodup

/-- The shapes that the numbers of the attributes stand for. -/
def shapes (source : TableScan) (id : Nat) : Shape :=
  ((source.attributes.find? fun a => a.id = id).map fun a => a.ty.shape).getD .integer

theorem Whole.typed (whole : source.Whole t) {a : Attribute} (member : a ∈ source.attributes) : a.Typed source.shapes := by
  rw [Attribute.Typed, shapes, find?_of_nodup whole.distinct member]
  rfl

/-- The values of all columns are the row that is stored. -/
theorem Whole.selected? (whole : source.Whole t) {stored : Row} (length : stored.length = t.columns.size) (id : Datum) :
    ValueRow.selected? (source.columns.map Prod.snd) ((source.rowId, id) :: (source.items stored).reverse) = some stored := by
  have firsts : (source.items stored).map Prod.fst = source.columns.map Prod.snd := by
    rw [items, map_map]
    rfl
  have seconds : (source.items stored).map Prod.snd = stored := by
    have all : (source.items stored).map Prod.snd = (source.columns.map Prod.fst).map fun i => (stored[i]?).getD .null := by
      rw [items, map_map, map_map]
      rfl
    rw [all, whole.columns]
    refine ext_getElem (by simp [length]) fun i inside inside' => ?_
    simp [getElem?_eq_getElem inside']
  have distinct : (((source.rowId, id) :: (source.items stored).reverse).map fun item => item.1.id).Nodup := by
    have all := whole.distinct
    rw [attributes, ← firsts, map_cons, map_map] at all
    rw [map_cons, map_reverse]
    exact ((reverse_perm _).cons _).nodup_iff.mpr all
  rw [← firsts, ValueRow.selected?_items distinct fun item member => mem_cons_of_mem _ (mem_reverse.mpr member),
    seconds]

/-- Attributes that are told apart by their numbers are selected under their own types. -/
theorem Whole.selects (whole : source.Whole t) (encoding : NullEncoding) {held : HeldRow}
    (known : ∀ item ∈ held, item.1 ∈ source.attributes) : held.Selects encoding (source.columns.map Prod.snd) := by
  intro _ a selected item member number
  rw [inj_on_of_nodup_map whole.distinct (known item member) (mem_cons_of_mem _ selected) number]

/-- Also some of the attributes can be scanned. -/
theorem Whole.scanned (whole : source.Whole t) (encoding : NullEncoding) (required : AttributeSet) :
    t.Scanned encoding source.shapes (source.columns.filter fun column => required.contains column.2)
      (if required.contains source.rowId then some source.rowId else none) where
  describes := fun column member => whole.describes column (mem_filter.mp member).1
  typed := fun column member => whole.typed (mem_cons_of_mem _ (mem_map_of_mem (mem_filter.mp member).1))
  idTyped := fun a same => by
    split at same
    · cases same
      exact ⟨whole.typed mem_cons_self, by rw [whole.rowId]; rfl⟩
    · cases same
  idPlain := fun _ a same => by
    split at same
    · cases same
      rw [whole.rowId]
      rfl
    · cases same

end TableScan

section

variable {host : Host} {s : Point} {source : TableScan}

theorem HeldRow.Loaded.attribute_mem {encoding : NullEncoding} {held : HeldRow} {row : ValueRow}
    (loaded : held.Loaded encoding s row) {item : Attribute × Held} (member : item ∈ held) : item.1 ∈ row.map Prod.fst := by
  induction loaded with
  | nil => cases member
  | cons head _ ih =>
    rcases mem_cons.mp member with rfl | later
    · rw [head.1]
      exact mem_cons_self
    · exact mem_cons_of_mem _ (ih later)

/-- The code of a scan of all columns collects the rows that the branch sees, as they are read from the table. -/
theorem TableScan.Whole.attains_visibleRows (whole : source.Whole t) (sound : s.machine.database.Sound)
    (encoding : s.machine.database.encoding = host.program.encoding)
    (found : s.machine.database.table? source.table = some t) (isBranch : source.branch < maxBranches)
    (laid : host.Laid s.machine) (fresh : s.machine.outcome.rows = #[]) (required : AttributeSet) :
    host.Attains ((source.pruned required).produce (collectRow (source.columns.map Prod.snd))) s fun _ s' =>
      s.machine.Later s'.machine ∧
        s'.machine.outcome.rows.toList = t.visibleRows s.machine.database.heap.read source.branch := by
  have valid := (sound.table found).1
  let seen (tid : Nat) : Option Row :=
    if t.isVisible tid source.branch then (t.getRow s.machine.database.heap.read tid).toOption else none
  let inv (tid : Nat) (m : Machine) : Prop := s.machine.Later m ∧ m.taken = s.machine.taken ∧
    m.outcome.rows.toList = (List.range tid).filterMap seen
  have next {tid : Nat} {m m' : Machine} (reached : inv tid m) (later : m.Later m') (taken : m'.taken = m.taken)
      (rows : m'.outcome.rows.toList = m.outcome.rows.toList ++ (seen tid).toList) : inv (tid + 1) m' := by
    refine ⟨reached.1.trans later, taken.trans reached.2.1, ?_⟩
    rw [rows, reached.2.2, range_succ, filterMap_append]
    cases isSeen : seen tid <;> simp [isSeen]
  refine (attains_scanRows sound encoding found isBranch (whole.scanned _ required) inv ⟨.refl _, rfl, by rw [fresh]; rfl⟩
    (fun reached => reached.1) ?_ ?_).mono fun _ s' _ ⟨later, _, rows⟩ => ⟨later, rows⟩
  · intro tid isRow isVisible held row s' before reached given loaded rowTyped
    obtain ⟨stored, read, length, -, part⟩ := Table.scanRow?_stored valid sound.heap isRow whole.describes required
    cases given.symm.trans part
    have known (item : Attribute × Held) (member : item ∈ held) : item.1 ∈ source.attributes := by
      obtain ⟨_, inside, same⟩ := mem_map.mp (loaded.attribute_mem member)
      rcases mem_cons.mp (mem_filter.mp inside).1 with rfl | isItem
      · rw [← same]
        exact mem_cons_self
      · obtain ⟨_, isColumn, rfl⟩ := mem_map.mp (mem_reverse.mp isItem)
        rw [← same]
        exact mem_cons_of_mem _ (mem_map_of_mem isColumn)
    have laid' : host.Laid s'.machine := laid.mono reached.1 (by rw [reached.2.1]; exact laid.span)
    refine (attains_collectRow loaded (whole.selects _ known)
      (fun a member => whole.typed (mem_cons_of_mem _ member)) rowTyped laid').mono
      fun _ s'' _ ⟨_, selected, touches, taken, pushed⟩ => next reached touches.toLater taken ?_
    have all := ((ValueRow.within_filter required _).on _).selected? selected
    rw [whole.selected? length] at all
    cases all
    have isSeen : seen tid = some stored := by
      simp only [seen, if_pos isVisible, read]
      rfl
    rw [pushed, isSeen]
    simp
  · intro tid isRow hidden m reached
    have isHidden : seen tid = none := by simp only [seen, hidden, if_false, Bool.false_eq_true]
    exact next reached (.refl _) rfl (by rw [isHidden]; simp)

end

namespace Database

/-- A call that changes a database. -/
inductive Call where
  | createTable (name : String) (columns : List (String × ValueType))
  | createIndex (name table column : String)
  | createBranch (name parent : String)
  | onTable (name : String) (call : Table.Call)

def Call.run : Call → Database → Option Database
  | createTable name columns, db => (db.createTable name columns).toOption
  | createIndex name table column, db => (db.createIndex name table column).toOption
  | createBranch name parent, db => (db.createBranch name parent).toOption.map Prod.snd
  | onTable name call, db => (db.updateTable name call.run).toOption

/-- The database after a call, which changes nothing if it fails. -/
def after (db : Database) (call : Call) : Database := (call.run db).getD db

theorem Sound.run {db db' : Database} (sound : db.Sound) {call : Call} (ran : call.run db = some db') :
    db'.Sound ∧ db'.encoding = db.encoding := by
  cases call with
  | createTable name columns => exact sound.createTable (Checked.ok_of_toOption ran)
  | createIndex name table column => exact sound.createIndex (Checked.ok_of_toOption ran)
  | createBranch name parent =>
    obtain ⟨⟨_, _⟩, created, rfl⟩ := Option.map_eq_some_iff.mp ran
    exact sound.createBranch (Checked.ok_of_toOption created)
  | onTable name call =>
    exact sound.updateTable (Checked.ok_of_toOption ran) fun _ _ _ valid => Table.Call.run_valid valid sound.heap

theorem Sound.afterAll {db : Database} (sound : db.Sound) (calls : List Call) :
    (calls.foldl after db).Sound ∧ (calls.foldl after db).encoding = db.encoding := by
  induction calls generalizing db with
  | nil => exact ⟨sound, rfl⟩
  | cons call calls ih =>
    have step : (db.after call).Sound ∧ (db.after call).encoding = db.encoding := by
      unfold after
      cases ran : call.run db with
      | none => exact ⟨sound, rfl⟩
      | some db' => exact sound.run ran
    exact ⟨(ih step.1).1, (ih step.1).2.trans step.2⟩

/-- The database that calls make out of an empty one with sentinels for NULL. -/
def ofCalls (calls : List Call) : Database := calls.foldl after { encoding := .sentinel }

theorem ofCalls_sound (calls : List Call) : (ofCalls calls).Sound ∧ (ofCalls calls).encoding = .sentinel :=
  (⟨⟨rfl, by decide⟩, nofun⟩ : Sound { encoding := .sentinel }).afterAll calls

end Database

/-- Scans see what readers see. Whatever calls have made a database in which sentinels stand for NULL, a query that collects
all columns of a table comes to an end with the rows that the branch sees, in the order and with the values that are read from
the table itself. -/
theorem Planner.collects_visible_rows {p : Planner} {settings : Settings} {cache cache' : SetCache} {query : CompiledQuery}
    {root child : Nat} {source : TableScan} {t : Table} (compiled : p.compile settings cache = .ok query cache')
    (sentinel : p.database.encoding = .sentinel) (collects : settings.resultMode = .collect)
    (top : p.plan.root = some root)
    (result : p.plan.operator root = .ok (.result child (source.columns.map Prod.snd)))
    (scan : p.plan.operator child = .ok (.scan source)) (calls : List Database.Call)
    (found : (Database.ofCalls calls).table? source.table = some t) (whole : source.Whole t)
    (isBranch : source.branch < maxBranches) :
    ∃ outcome, outcome.rows.toList = t.visibleRows (Database.ofCalls calls).heap.read source.branch ∧
      ∃ least, ∀ limit, least ≤ limit → query.program.executeWithin limit queryFunction query.settings
        (Database.ofCalls calls) = (Database.ofCalls calls, .ok outcome) := by
  obtain ⟨checked, lowered, physical, _, chosen, emitted, _⟩ := compile_ok compiled
  unfold Plan.lower at chosen
  rw [top, collects] at chosen
  obtain ⟨_, _, tree, _, below, rfl⟩ := Lowering.below_collect result chosen
  obtain ⟨required, rfl⟩ := Lowering.below_chain (.scan scan) below
  obtain ⟨sound, encoding⟩ := Database.ofCalls_sound calls
  generalize Database.ofCalls calls = db at found sound encoding ⊢
  rw [sentinel] at emitted
  refine Compile.runs db query.settings (fun outcome => outcome.rows.toList = t.visibleRows db.heap.read source.branch) emitted
    fun host s taken encoded laid _ machine => ?_
  have database : s.machine.database = db := by rw [machine]
  subst database
  exact whole.attains_visibleRows sound (encoding.trans encoded.symm) found isBranch laid (by rw [machine]) required

namespace Planner.Example

/-- One value becomes NULL, another one is NULL no more, and the last row is hidden. -/
def calls : List Database.Call :=
  .createTable "t" [("x", x.ty), ("y", y.ty)] :: List.map (.onTable "t") [
    .addRow [.integer 1, .null] 0, .addRow [.integer 2, .integer 5] 0, .addRow [.integer 3, .integer 6] 0,
    .updateCell 0 1 (.integer 7), .updateCell 1 1 .null, .hideRow 2 0]

/-- The planner of a query that collects the whole table. -/
def wholePlanner : Planner where
  database := .ofCalls calls
  branch := 0
  plan := { nodes := #[{ op := .scan source, parent := some 1 }, { op := .result 0 [x, y] }], root := some 1 }

end Planner.Example

open Planner.Example in
theorem Planner.collects_updated_rows : ∃ query cache,
    wholePlanner.compile { resultMode := .collect } {} = .ok query cache ∧
    ∃ outcome, outcome.rows.toList = [[.integer 1, .integer 7], [.integer 2, .null]] ∧ ∃ least, ∀ limit, least ≤ limit →
      query.program.executeWithin limit queryFunction query.settings (.ofCalls calls) = (.ofCalls calls, .ok outcome) := by
  have succeeds : compiles (some (.ofCalls calls)) (fun _ => wholePlanner) { resultMode := .collect } = true := by decide +kernel
  have stored : ((Database.ofCalls calls).table? "t").map (fun t => (t.columns.size, [t.columnType? 0, t.columnType? 1],
      t.visibleRows (Database.ofCalls calls).heap.read 0)) =
      some (2, [some x.ty, some y.ty], [[.integer 1, .integer 7], [.integer 2, .null]]) := by decide +kernel
  obtain ⟨t, found, same⟩ := Option.map_eq_some_iff.mp stored
  simp only [Prod.mk.injEq, List.cons.injEq, and_true] at same
  obtain ⟨size, types, rows⟩ := same
  have whole : source.Whole t := by
    refine ⟨by rw [size]; rfl, fun column member => ?_, rfl, by decide⟩
    simp only [source, mem_cons, not_mem_nil, or_false] at member
    rcases member with rfl | rfl
    · exact types.1
    · exact types.2
  obtain ⟨_, query, cache, _, compiled⟩ := exists_of_compiles succeeds
  obtain ⟨outcome, given, ends⟩ := collects_visible_rows compiled (Database.ofCalls_sound calls).2 rfl rfl rfl rfl
    calls found whole (by decide)
  exact ⟨query, cache, compiled, outcome, given.trans rows, ends⟩

end QueryEngine
