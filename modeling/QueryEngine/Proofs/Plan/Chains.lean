import Mathlib.Data.List.ReduceOption
import QueryEngine.Proofs.Pipeline.Results
import QueryEngine.Proofs.Plan.Lowering

namespace QueryEngine

open Emit List Mapping
open Option hiding filter_map

variable {tid id : Nat} {row : ValueRow} {selection : List Attribute} {t : Table} {step : RowStep} {host : Host}
  {steps : List RowStep} {tree : Physical}

/-- What an operator does to its rows, one by one. -/
inductive RowStep where
  | select (predicate : Scalar)
  | map (mappings : List Mapping)

namespace RowStep

/-- What becomes of a row, unless the step drops it. -/
def answer? : RowStep → ValueRow → Option (Option ValueRow)
  | select predicate, row => (predicate.value? row).map fun d => if d = .bool true then some row else none
  | map mappings, row => (Mapping.extend? row mappings row).map some

/-- What becomes of a row that goes through steps, the last of which is the first of the list. -/
def run? : List RowStep → ValueRow → Option (Option ValueRow)
  | [], row => some (some row)
  | step :: below, row => do
    match ← run? below row with
    | none => some none
    | some row => step.answer? row

/-- Operators above another one. -/
def above (source : Physical) : List RowStep → Physical
  | [] => source
  | select predicate :: below => .select (above source below) predicate
  | map mappings :: below => .map (above source below) mappings

def Typed (types : Nat → Shape) : RowStep → Prop
  | select _ => True
  | map mappings => ∀ mapping ∈ mappings, mapping.Typed types

instance (types : Nat → Shape) (step : RowStep) : Decidable (step.Typed types) :=
  match step with
  | select _ => isTrue trivial
  | map mappings => inferInstanceAs (Decidable (∀ mapping ∈ mappings, _ ∧ _ ∧ _))

end RowStep

/-- The values of a stored row: those of its columns, and the row id. -/
def TableScan.row? (source : TableScan) (t : Table) (read : MemoryReader) (tid : Nat) : Option ValueRow := do
  let stored ← (t.getRow read tid).toOption
  let cells ← source.columns.mapM fun column => stored[column.1]?.map fun d => (column.2, d)
  some ((source.rowId, .integer (Int32.ofNat tid)) :: cells.reverse)

/-- The rows that are left of a table after steps, in the order of their ids: those of the rows that the branch sees. -/
def TableScan.rows? (source : TableScan) (db : Database) (steps : List RowStep) : Option (List ValueRow) := do
  let t ← db.table? source.table
  let answers ← ((List.range t.rowCount).filter fun tid => t.isVisible tid source.branch).mapM fun tid => do
    RowStep.run? steps (← source.row? t db.heap.read tid)
  some answers.reduceOption

/-- The operator is a scan, or a step over others, down to the scan. -/
inductive Plan.Chain (plan : Plan) (source : TableScan) : Nat → List RowStep → Prop
  | scan {id : Nat} : plan.operator id = .ok (.scan source) → Chain plan source id []
  | select {id child : Nat} {predicate : Scalar} {below : List RowStep} : plan.operator id = .ok (.select child predicate) →
      Chain plan source child below → Chain plan source id (.select predicate :: below)
  | map {id child : Nat} {mappings : List Mapping} {below : List RowStep} : plan.operator id = .ok (.map child mappings) →
      Chain plan source child below → Chain plan source id (.map mappings :: below)

/-- What one evaluation gives, the other one gives too. -/
def Evaluation.Refines {α : Type} (first second : Evaluation α) : Prop := ∀ x, first = some x → second = some x

variable {α : Type}

theorem Evaluation.Refines.refl (eval : Evaluation α) : eval.Refines eval := fun _ given => given

theorem Evaluation.Refines.bind {next next' : α → Evaluation β} (refines : first.Refines second)
    (each : ∀ x, (next x).Refines (next' x)) :
    (first >>= next).Refines (second >>= next') := by
  intro y given
  obtain ⟨⟨x, reports⟩, gives, given⟩ := bind_eq_some_iff.mp given
  obtain ⟨⟨z, more⟩, gives', same⟩ := map_eq_some_iff.mp given
  refine bind_eq_some_iff.mpr ⟨(x, reports), refines _ gives, ?_⟩
  exact map_eq_some_iff.mpr ⟨(z, more), each x _ gives', same⟩

/-- A row has the values of another one, as far as that one has any. -/
def ValueRow.Within (row whole : ValueRow) : Prop := ∀ a d, row.value? a = some d → whole.value? a = some d

/-- A row has the values of another one for some attributes, as far as that one has any. -/
def ValueRow.WithinOn (attributes : List Attribute) (row whole : ValueRow) : Prop :=
  ∀ a ∈ attributes, ∀ d, row.value? a = some d → whole.value? a = some d

theorem ValueRow.Within.on {whole : ValueRow} (within : row.Within whole) (attributes : List Attribute) :
    row.WithinOn attributes whole :=
  fun a _ => within a

namespace ValueRow.WithinOn

theorem selected? (within : row.WithinOn selection whole) (given : row.selected? selection = some ds) :
    whole.selected? selection = some ds :=
  mapM_of_forall₂ (R := fun a b => ∀ d, row.value? a = some d → whole.value? b = some d) (forall₂_same.mpr within) given
    fun _ _ _ keeps => keeps _

theorem selected_all? (within : Forall₂ (WithinOn selection) rows wholes)
    (given : rows.mapM (ValueRow.selected? selection) = some outs) :
    wholes.mapM (ValueRow.selected? selection) = some outs :=
  mapM_of_forall₂ within given fun _ _ _ here => here.selected?

end ValueRow.WithinOn

namespace ValueRow.Within

theorem evaluate (within : row.Within whole) (e : Scalar) : (e.evaluate row).Refines (e.evaluate whole) := by
  induction e with
  | cast child ty ih | not child ih => exact ih.bind fun _ => .refl _
  | arithmetic op lhs rhs ty first second | compare op lhs rhs first second =>
    exact first.bind fun _ => second.bind fun _ => .refl _
  | and lhs rhs first second | or lhs rhs first second => exact first.bind fun _ => second.bind fun _ => .refl _
  | column a =>
    intro x given
    obtain ⟨d, found, rfl⟩ := map_eq_some_iff.mp given
    exact map_eq_some_iff.mpr ⟨d, within a d found, rfl⟩
  | literal | null => exact .refl _

theorem value? (within : row.Within whole) {e : Scalar} {d : Datum} (given : e.value? row = some d) :
    e.value? whole = some d := by
  obtain ⟨x, gives, rfl⟩ := map_eq_some_iff.mp given
  exact map_eq_some_iff.mpr ⟨x, within.evaluate e x gives, rfl⟩

theorem cons (within : row.Within whole) (item : Attribute × Datum) :
    ValueRow.Within (item :: row) (item :: whole) := by
  intro a d found
  unfold ValueRow.value? at found ⊢
  by_cases here : item.1.id = a.id
  · rw [find?_cons_of_pos (by simpa using here)] at found ⊢
    exact found
  · rw [find?_cons_of_neg (by simpa using here)] at found ⊢
    exact within a d found

theorem extend? (from' : source.Within wholeSource) (within : row.Within whole)
    (given : extend? source mappings row = some out) :
    ∃ out', extend? wholeSource mappings whole = some out' ∧ out.Within out' := by
  induction mappings generalizing row whole with
  | nil =>
    cases given
    exact ⟨whole, rfl, within⟩
  | cons mapping mappings ih =>
    obtain ⟨d, gives, given⟩ := bind_eq_some_iff.mp given
    obtain ⟨out', given', within'⟩ := ih (within.cons (mapping.result, d)) given
    refine ⟨out', ?_, within'⟩
    rw [extend?, from'.value? gives]
    exact given'

/-- A step does the same to both rows. -/
theorem answer? (within : row.Within whole) (step : RowStep) (given : step.answer? row = some out) :
    ∃ out', step.answer? whole = some out' ∧ Option.Rel Within out out' := by
  cases step with
  | select predicate =>
    obtain ⟨d, gives, same⟩ := map_eq_some_iff.mp given
    rw [RowStep.answer?, within.value? gives, map_some]
    split at same
    next isTrue =>
      subst same
      rw [if_pos isTrue]
      exact ⟨_, rfl, .some within⟩
    next isFalse =>
      subst same
      rw [if_neg isFalse]
      exact ⟨_, rfl, .none⟩
  | map mappings =>
    obtain ⟨_, gives, same⟩ := map_eq_some_iff.mp given
    subst same
    obtain ⟨_, gives', within'⟩ := within.extend? within gives
    rw [RowStep.answer?, gives', map_some]
    exact ⟨_, rfl, .some within'⟩

theorem run? (within : row.Within whole) (steps : List RowStep) (given : RowStep.run? steps row = some out) :
    ∃ out', RowStep.run? steps whole = some out' ∧ Option.Rel Within out out' := by
  induction steps generalizing out with
  | nil =>
    cases given
    exact ⟨_, rfl, .some within⟩
  | cons step below ih =>
    obtain ⟨_, gives, given⟩ := bind_eq_some_iff.mp given
    obtain ⟨_, gives', related⟩ := ih gives
    rw [RowStep.run?, gives']
    cases related with
    | none =>
      cases given
      exact ⟨_, rfl, .none⟩
    | some within' => exact within'.answer? step given

theorem selected_all? {rows wholes : List ValueRow} (within : Forall₂ Within rows wholes)
    {outs : List Row} (given : rows.mapM (ValueRow.selected? selection) = some outs) :
    wholes.mapM (ValueRow.selected? selection) = some outs :=
  WithinOn.selected_all? (within.imp fun _ _ here => here.on selection) given

end ValueRow.Within

variable {xs : List α}

/-- What `f` gives for every member, related to what `g` gives. -/
theorem forall₂_of_mapM (given : xs.mapM f = some ys) (each : ∀ x ∈ xs, ∀ y, f x = some y → ∃ z, g x = some z ∧ R y z) :
    ∃ zs, xs.mapM g = some zs ∧ Forall₂ R ys zs := by
  induction xs generalizing ys with
  | nil =>
    cases given
    exact ⟨[], rfl, .nil⟩
  | cons x xs ih =>
    obtain ⟨y, _, first, others, rfl⟩ := mapM_cons_eq_some_iff.mp given
    obtain ⟨z, first', related⟩ := each x mem_cons_self y first
    obtain ⟨zs, others', all⟩ := ih others fun x' member => each x' (mem_cons_of_mem _ member)
    exact ⟨z :: zs, mapM_cons_eq_some_iff.mpr ⟨z, zs, first', others', rfl⟩, .cons related all⟩

theorem mapM_eq_map (each : ∀ x ∈ xs, f x = some (g x)) : xs.mapM f = some (xs.map g) :=
  mapM_eq_some_iff.mpr (forall₂_map_right_iff.mpr (forall₂_same.mpr each))

theorem mapM_ok_of_forall {ε : Type} {f : α → Except ε β} (each : ∀ x ∈ xs, ∃ y, f x = .ok y) :
    ∃ ys, xs.mapM f = .ok ys ∧ Forall₂ (fun x y => f x = .ok y) xs ys := by
  induction xs with
  | nil => exact ⟨[], rfl, .nil⟩
  | cons x xs ih =>
    obtain ⟨y, first⟩ := each x mem_cons_self
    obtain ⟨ys, others, all⟩ := ih fun x' member => each x' (mem_cons_of_mem _ member)
    refine ⟨y :: ys, ?_, .cons first all⟩
    rw [mapM_cons, first, others]
    rfl

theorem reduceOption_forall₂ {R : α → β → Prop} {xs : List (Option α)} {ys : List (Option β)}
    (related : Forall₂ (Option.Rel R) xs ys) : Forall₂ R xs.reduceOption ys.reduceOption := by
  induction related with
  | nil => exact .nil
  | cons head _ ih =>
    cases head with
    | none => simpa using ih
    | some here =>
      exact .cons here ih

theorem reduceOption_of_some (related : Forall₂ (fun x y => y = some x) xs ys) : ys.reduceOption = xs := by
  induction related with
  | nil => rfl
  | cons head _ ih => rw [head, reduceOption_cons_of_some, ih]

/-- A row with the attributes of a set only. -/
theorem ValueRow.within_filter (set : AttributeSet) (row : ValueRow) :
    ValueRow.Within (row.filter fun item => set.contains item.1) row := by
  intro a d found
  obtain ⟨item, first, same⟩ := map_eq_some_iff.mp found
  rw [find?_filter] at first
  have here := find?_some first
  simp only [decide_eq_true_eq] at here
  refine map_eq_some_iff.mpr ⟨item, ?_, same⟩
  rw [← first]
  congr 1
  funext other
  -- Whether an attribute is in the set depends on its number alone.
  by_cases number : other.1.id = a.id
  · have contained : set.contains other.1 = set.contains item.1 := by
      simp only [AttributeSet.contains, number, here.2]
    simp [number, contained, here.1]
  · simp [number]

namespace Table

theorem getRow_cells (valid : t.Valid heap) (texts : heap.Valid) (isRow : tid < t.rowCount) :
    ∃ stored, t.getRow heap.read tid = .ok stored ∧ stored.length = t.columns.size ∧
      ∀ i, i < t.columns.size → ∃ d, stored[i]? = some d ∧ t.getCell heap.read tid i = .ok d := by
  have each (i : Nat) (member : i ∈ List.range t.columns.size) : ∃ d, t.getCell heap.read tid i = .ok d := by
    obtain ⟨d, c, bytes, atColumn, atRow, encoded, flagged⟩ := valid.cell tid isRow i (mem_range.mp member)
    exact ⟨_, getCell_of_encoded texts atColumn isRow atRow encoded flagged⟩
  obtain ⟨stored, given, cells⟩ := mapM_ok_of_forall each
  have length := cells.length_eq
  rw [length_range] at length
  refine ⟨stored, given, length.symm, fun i inside => ?_⟩
  have here := (forall₂_iff_get.mp cells).2 i (by rwa [length_range]) (by omega)
  exact ⟨stored[i], getElem?_eq_getElem (by omega), by simpa using here⟩

end Table

/-- The values of a stored row as those of the attributes that its columns are read into. -/
def TableScan.items (source : TableScan) (stored : Row) : ValueRow :=
  source.columns.map fun column => (column.2, (stored[column.1]?).getD .null)

variable {source : TableScan}

namespace Table

/-- A stored row with all its values, and what is read of it with some of the columns. -/
theorem scanRow?_stored (valid : t.Valid heap) (texts : heap.Valid) (isRow : tid < t.rowCount)
    (describes : t.Describes source.columns) (set : AttributeSet) :
    ∃ stored : Row, t.getRow heap.read tid = .ok stored ∧
      stored.length = t.columns.size ∧
      let whole := (source.rowId, .integer (Int32.ofNat tid)) :: (source.items stored).reverse
      source.row? t heap.read tid = some whole ∧
        t.scanRow? heap.read (source.columns.filter fun column => set.contains column.2)
          (if set.contains source.rowId then some source.rowId else none) tid =
            some (whole.filter fun item => set.contains item.1) := by
  obtain ⟨stored, read, length, values⟩ := getRow_cells valid texts isRow
  let item (column : Nat × Attribute) : Attribute × Datum := (column.2, (stored[column.1]?).getD .null)
  have each (column : Nat × Attribute) (member : column ∈ source.columns) :
      stored[column.1]? = some (item column).2 ∧ t.getCell heap.read tid column.1 = .ok (item column).2 := by
    obtain ⟨c, atColumn, _⟩ := map_eq_some_iff.mp (describes column member)
    obtain ⟨d, found, cell⟩ := values column.1 (Array.getElem?_eq_some_iff.mp atColumn).1
    have same : (item column).2 = d := by
      simp only [item, found, getD_some]
    rw [same]
    exact ⟨found, cell⟩
  refine ⟨stored, read, length, ?_, ?_⟩
  · have cells : source.columns.mapM (fun column => stored[column.1]?.map fun d => (column.2, d)) =
        some (source.items stored) := mapM_eq_map fun column member => by rw [(each column member).1]; rfl
    simp only [TableScan.row?, read, Except.toOption, bind, bind_some, cells]
  · have cells : t.cells? heap.read tid (source.columns.filter fun column => set.contains column.2) =
        some ((source.columns.filter fun column => set.contains column.2).map item) :=
      mapM_eq_map fun column member => by rw [(each column (mem_filter.mp member).1).2]; rfl
    rw [scanRow?, cells, map_some, filter_cons, filter_reverse, TableScan.items, filter_map]
    split <;> rfl

/-- The row that is read with some of the columns is part of the row with all of them. -/
theorem scanRow?_within (valid : t.Valid heap) (texts : heap.Valid) (isRow : tid < t.rowCount)
    (describes : t.Describes source.columns) (set : AttributeSet)
    (given : t.scanRow? heap.read (source.columns.filter fun column => set.contains column.2)
      (if set.contains source.rowId then some source.rowId else none) tid = some row) :
    ∃ whole, source.row? t heap.read tid = some whole ∧ row.Within whole := by
  obtain ⟨_, _, _, whole, part⟩ := scanRow?_stored valid texts isRow describes set
  cases given.symm.trans part
  exact ⟨_, whole, ValueRow.within_filter set _⟩

end Table

/-- What is left of answers after one more question to each of them. -/
theorem mapM_reduceOption {γ : Type} {f : α → Option (Option β)} {g : β → Option (Option γ)} {answers : List (Option β)}
    {outs : List (List γ)} (first : xs.mapM f = some answers)
    (second : answers.reduceOption.mapM (fun y => (g y).map toList) = some outs) :
    ∃ answers', xs.mapM (fun x => do
        match ← f x with
        | none => some none
        | some y => g y) = some answers' ∧ outs.flatten = answers'.reduceOption := by
  induction xs generalizing answers outs with
  | nil =>
    cases first
    cases second
    exact ⟨[], rfl, rfl⟩
  | cons x xs ih =>
    obtain ⟨answer, _, here, others, rfl⟩ := mapM_cons_eq_some_iff.mp first
    cases answer with
    | none =>
      obtain ⟨answers', all, same⟩ := ih others second
      refine ⟨none :: answers', ?_, by rw [same, reduceOption_cons_of_none]⟩
      rw [mapM_cons, here, all]
      rfl
    | some y =>
      obtain ⟨_, _, given, second', rfl⟩ := mapM_cons_eq_some_iff.mp second
      obtain ⟨result, gives, same'⟩ := map_eq_some_iff.mp given
      obtain ⟨answers', all, same⟩ := ih others second'
      refine ⟨result :: answers', ?_, ?_⟩
      · rw [mapM_cons, here, all]
        change (g y >>= _) = _
        rw [gives]
        rfl
      · rw [flatten_cons, same, ← same']
        cases result <;> simp

variable {tids : List Nat}

theorem Table.scanned?_visible {read : MemoryReader} {columns : List (Nat × Attribute)}
    {rowId : Option Attribute} {branch : Nat} {outs : List (List ValueRow)}
    (given : tids.mapM (t.scanned? read columns rowId branch) = some outs) :
    (tids.filter fun tid => t.isVisible tid branch).mapM (t.scanRow? read columns rowId) = some outs.flatten := by
  induction tids generalizing outs with
  | nil =>
    cases given
    rfl
  | cons tid tids ih =>
    obtain ⟨_, _, here, others, rfl⟩ := mapM_cons_eq_some_iff.mp given
    have later := ih others
    unfold scanned? at here
    split at here
    next visible =>
      obtain ⟨_, gives, same⟩ := map_eq_some_iff.mp here
      subst same
      simp only [filter_cons, visible, if_true, mapM_cons, gives, later]
      rfl
    next hidden =>
      cases here
      simp only [filter_cons, hidden, if_false, Bool.false_eq_true, later, flatten_cons, nil_append]

section

theorem Host.Produces.weaken (produces : host.Produces types db settings code outputs most need)
    (implies : ∀ out, outputs out → outputs' out) :
    host.Produces types db settings code outputs' most need :=
  fun R next s rows left parts grows database set stands room fits receives =>
    (produces R next s rows left parts grows database set stands room fits receives).mono
      fun _ _ _ ⟨out, given, few, moves⟩ => ⟨out, implies out given, few, moves⟩

/-- A step that a chain goes through after others. -/
theorem RowStep.run?_after {below : List RowStep} {row? : Nat → Option ValueRow}
    {f : ValueRow → Option (List ValueRow)} (same : ∀ row, f row = (step.answer? row).map toList) {out : List ValueRow}
    (given : ∃ ins outs, (∃ answers, tids.mapM (fun tid => do run? below (← row? tid)) = some answers ∧
      ins = answers.reduceOption) ∧ ins.mapM f = some outs ∧ out = outs.flatten) :
    ∃ answers, tids.mapM (fun tid => do run? (step :: below) (← row? tid)) = some answers ∧ out = answers.reduceOption := by
  obtain ⟨_, _, ⟨_, first, rfl⟩, second, rfl⟩ := given
  rw [show f = fun row => (step.answer? row).map toList from funext same] at second
  obtain ⟨answers', all, flat⟩ := mapM_reduceOption first second
  refine ⟨answers', ?_, flat⟩
  rw [← all]
  congr 1
  funext tid
  cases row? tid with
  | none => rfl
  | some row =>
    simp only [bind_eq_bind, bind_some, run?]
    congr 1
    funext answer
    cases answer <;> rfl

/-- The rows of an operator after steps above it. -/
theorem RowStep.produces_above {source : Physical} {row? : Nat → Option ValueRow}
    (below : host.Produces types db settings source.produce (fun out => tids.mapM row? = some out) most need)
    (steps : List RowStep) (typed : ∀ step ∈ steps, step.Typed types) :
    host.Produces types db settings (above source steps).produce (fun out => ∃ answers,
      tids.mapM (fun tid => do run? steps (← row? tid)) = some answers ∧ out = answers.reduceOption) most need := by
  induction steps with
  | nil =>
    refine below.weaken fun out given => ?_
    obtain ⟨answers, all, related⟩ := forall₂_of_mapM (R := fun row answer => answer = some row) given
      (g := fun tid => do run? [] (← row? tid)) fun tid _ row gives => ⟨some row, by rw [gives]; rfl, rfl⟩
    exact ⟨answers, all, (reduceOption_of_some related).symm⟩
  | cons step steps ih =>
    have inner := ih fun other member => typed other (mem_cons_of_mem _ member)
    have own := typed step mem_cons_self
    cases step with
    | select predicate =>
      rw [← Nat.mul_one most]
      refine (inner.select predicate).weaken fun out => run?_after fun row => ?_
      rw [Scalar.select?, answer?, Option.map_map]
      congr 1
      funext d
      dsimp only [Function.comp]
      split <;> rfl
    | map mappings =>
      rw [← Nat.mul_one most]
      refine (inner.map own).weaken fun out => run?_after fun row => ?_
      rw [mapped?, answer?, Option.map_map]
      rfl

end

/-- The scan with those of its attributes only that are in a set. -/
def TableScan.pruned (source : TableScan) (required : AttributeSet) : Physical :=
  .scan source.table (source.columns.filter fun column => required.contains column.2)
    (if required.contains source.rowId then some source.rowId else none) source.branch

/-- The scan reads columns of a table of the database, each into an attribute of its type. -/
structure TableScan.Fits (source : TableScan) (types : Nat → Shape) (db : Database) : Prop where
  table : ∃ t, db.table? source.table = some t ∧ t.Describes source.columns
  columns : ∀ column ∈ source.columns, column.2.Typed types
  rowId : source.rowId.Typed types ∧ source.rowId.ty.shape = .integer
  branch : source.branch < maxBranches

/-- The code of a chain hands on what the steps make of the rows of the table, whichever columns are read: where it comes to
run, it does not lack any. -/
theorem TableScan.Fits.produces {types : Nat → Shape} {db : Database} {settings : Settings}
    (fits : source.Fits types db) (valid : db.Valid) (indicator : host.program.encoding = .indicator)
    (required : AttributeSet) (steps : List RowStep) (typed : ∀ step ∈ steps, step.Typed types) :
    host.Produces types db settings (RowStep.above (source.pruned required) steps).produce
      (fun out => ∃ rows, source.rows? db steps = some rows ∧ Forall₂ ValueRow.Within out rows) maxRows 0 := by
  obtain ⟨t, found, describes⟩ := fits.table
  have scanned : host.Produces types db settings (source.pruned required).produce (fun out =>
      ((List.range t.rowCount).filter fun tid => t.isVisible tid source.branch).mapM (t.scanRow? db.heap.read
        (source.columns.filter fun column => required.contains column.2)
        (if required.contains source.rowId then some source.rowId else none)) = some out) maxRows 0 := by
    refine (Host.Produces.scan indicator valid found fits.branch
      (fun column member => describes column (mem_filter.mp member).1)
      (fun column member => fits.columns column (mem_filter.mp member).1) fun a same => ?_).weaken ?_
    · split at same
      · cases same
        exact fits.rowId
      · cases same
    · rintro _ ⟨_, given, rfl⟩
      exact Table.scanned?_visible given
  refine (RowStep.produces_above scanned steps typed).weaken ?_
  rintro _ ⟨_, given, rfl⟩
  obtain ⟨answers', all, related⟩ := forall₂_of_mapM (R := Option.Rel ValueRow.Within) given
    (g := fun tid => do RowStep.run? steps (← source.row? t db.heap.read tid)) fun tid member answer gives => by
      have isRow := mem_range.mp (mem_filter.mp member).1
      obtain ⟨_, scan, run⟩ := bind_eq_some_iff.mp gives
      obtain ⟨_, read, within⟩ := Table.scanRow?_within (valid.table found).1 valid.heap isRow describes required scan
      obtain ⟨answer', run', related⟩ := within.run? steps run
      exact ⟨answer', by rw [read]; exact run', related⟩
  refine ⟨answers'.reduceOption, ?_, reduceOption_forall₂ related⟩
  simp only [rows?, found, bind_eq_bind, bind_some] at all ⊢
  rw [all, bind_some]

namespace Lowering

variable {plan : Plan}

/-- A chain is lowered to a chain over a scan of some of its columns. -/
theorem below_chain (chain : plan.Chain source id steps) (lowered : below plan mode limit id cache = .ok tree cache') :
    ∃ required, tree = RowStep.above (source.pruned required) steps := by
  induction chain generalizing limit cache cache' tree with
  | scan isScan =>
    cases limit with
    | zero => cases lowered
    | succ limit =>
      unfold below at lowered
      rw [isScan] at lowered
      obtain ⟨_, cache1, ⟨⟩, lowered⟩ := bind_ran lowered
      obtain ⟨required, cache2, _, lowered⟩ := bind_ran lowered
      cases lowered
      exact ⟨required, rfl⟩
  | select isSelect _ ih | map isSelect _ ih =>
    cases limit with
    | zero => cases lowered
    | succ limit =>
      unfold below at lowered
      rw [isSelect] at lowered
      obtain ⟨_, cache1, ⟨⟩, lowered⟩ := bind_ran lowered
      obtain ⟨tree, cache2, inner, lowered⟩ := bind_ran lowered
      cases lowered
      obtain ⟨required, same⟩ := ih inner
      exact ⟨required, by rw [same]; rfl⟩

theorem below_collect {child : Nat}
    (result : plan.operator id = .ok (.result child selection)) (lowered : below plan .collect limit id cache = .ok tree cache') :
    ∃ limit' cache1 inner cache2, below plan .collect limit' child cache1 = .ok inner cache2 ∧
      tree = .collect inner selection := by
  cases limit with
  | zero => cases lowered
  | succ limit =>
    unfold below at lowered
    rw [result] at lowered
    obtain ⟨_, _, ⟨⟩, lowered⟩ := bind_ran lowered
    obtain ⟨inner, _, below, lowered⟩ := bind_ran lowered
    cases lowered
    exact ⟨limit, _, inner, _, below, rfl⟩

end Lowering

end QueryEngine
