import QueryEngine.Physical.Produce
import QueryEngine.Proofs.Emission.Values

set_option synthInstance.maxSize 512

namespace QueryEngine

open Emit
open List hiding all cons format nil

variable {law : Law} [law.Structured] {next : Sink}

theorem mapM_cons_eq_some_iff {f : α → Option β} :
    (x :: xs).mapM f = some ys ↔ ∃ y rest, f x = some y ∧ xs.mapM f = some rest ∧ ys = y :: rest := by
  simp [mapM_cons, Option.bind_eq_some_iff, @eq_comm _ ys]

theorem mapM_eq_some_iff : xs.mapM f = some ys ↔ List.Forall₂ (fun x y => f x = some y) xs ys := by
  induction xs generalizing ys with
  | nil => simp [eq_comm]
  | cons x xs ih => simp only [mapM_cons_eq_some_iff, forall₂_cons_left_iff, ih]

theorem mapM_of_forall₂ {R : α → β → Prop} (related : List.Forall₂ R xs ys) (given : xs.mapM f = some zs)
    (each : ∀ x y z, R x y → f x = some z → g y = some z) : ys.mapM g = some zs := by
  induction related generalizing zs with
  | nil => exact given
  | cons here _ ih =>
    obtain ⟨z, rest, first, others, rfl⟩ := mapM_cons_eq_some_iff.mp given
    exact mapM_cons_eq_some_iff.mpr ⟨z, rest, each _ _ _ here first, ih others, rfl⟩

namespace TupleLayout

theorem fieldsFrom_types (encoding : NullEncoding) (start : Nat) (types : List ValueType) :
    (fieldsFrom encoding start types).1.map TupleField.ty = types := by
  induction types generalizing start with
  | nil => rfl
  | cons ty types ih =>
    simp only [fieldsFrom, map_cons, ih]
    rfl

theorem make_types (encoding : NullEncoding) (types : List ValueType) : (make encoding types).types = types :=
  fieldsFrom_types encoding 0 types

end TupleLayout

namespace Held

instance : Obeys law (hashRest h values) := by
  induction values generalizing h with
  | nil => unfold hashRest; infer_instance
  | cons value values ih => unfold hashRest; infer_instance

instance : Obeys law (hashTuple values) := by
  cases values <;> (unfold hashTuple; infer_instance)

instance : Obeys law (equalsFrom all first second) := by
  induction first generalizing all second with
  | nil => unfold equalsFrom; infer_instance
  | cons a first ih => cases second <;> (unfold equalsFrom; infer_instance)

instance : Obeys law (equalsTuple first second) := by
  unfold equalsTuple
  infer_instance

instance : Obeys law (storeFields address values fields) := by
  induction values generalizing fields with
  | nil => unfold storeFields; infer_instance
  | cons value values ih => cases fields <;> (unfold storeFields; infer_instance)

instance : Obeys law (storeTuple layout address values) := by
  unfold storeTuple
  infer_instance

abbrev loadFlag (address : Reg) (offset : Nat) : Emit Reg := do
  let flag ← ptrOffset address offset
  Emit.load .i8 flag

abbrev loadField (address : Reg) (field : TupleField) : Emit Held := do
  let source ← ptrOffset address field.offset
  let indicator ← field.indicator.mapM (loadFlag address)
  load field.ty source indicator

instance : Obeys law (loadTuple layout address) := by
  unfold loadTuple
  infer_instance

theorem gives_loadTuple (layout : TupleLayout) (address : Reg) :
    Gives (loadTuple layout address) fun values => values.length = layout.fields.length := by
  have each : Gives (loadTuple layout address) fun values => List.Forall₂ (fun _ _ => True) values layout.fields :=
    .mapM fun _ _ => .any _
  exact fun b values b' emitted => (each b values b' emitted).length_eq

instance (value : Held) : Obeys law value.print := by
  have (value : Present) : Obeys law value.print := by cases value <;> (unfold Present.print; infer_instance)
  cases value <;> (unfold print; infer_instance)

end Held

variable {row : HeldRow} {aggregate : Aggregate} {e predicate : Scalar}

namespace HeldRow

/-- The numbers of the attributes of a row. -/
def ids (row : HeldRow) : List Nat := row.map fun item => item.1.id

theorem isSome_value? : (row.value? a).isSome = true ↔ a.id ∈ row.ids := by
  simp only [value?, ids, Option.isSome_map, find?_isSome, decide_eq_true_eq, mem_map]

/-- A row has these attributes. -/
def Has (row : HeldRow) (attributes : List Attribute) : Prop := ∀ a ∈ attributes, a.id ∈ row.ids

/-- A row with these attributes in which the items of another row are left. -/
def Extends (row : HeldRow) (attributes : List Attribute) (old : HeldRow) : Prop :=
  row.Has attributes ∧ old.ids ⊆ row.ids

theorem Extends.refl (row : HeldRow) : row.Extends [] row :=
  ⟨fun _ member => absurd member not_mem_nil, List.Subset.refl _⟩

variable {attributes : List Attribute}

theorem Extends.cons {old : HeldRow} {a : Attribute} {value : Held} (holds : row.Extends attributes ((a, value) :: old)) :
    row.Extends (a :: attributes) old := by
  refine ⟨fun a' member => ?_, fun id left => holds.2 (mem_cons_of_mem _ left)⟩
  rcases mem_cons.mp member with rfl | later
  · exact holds.2 mem_cons_self
  · exact holds.1 a' later

theorem Has.offers (has : row.Has attributes) :
    row.Offers law attributes := ⟨fun a member => obeys_value (isSome_value?.mpr (has a member))⟩

instance [offers : row.Offers law attributes] : Obeys law (row.values attributes) := by
  exact .mapM offers.offers

end HeldRow

instance (row : HeldRow) (expressions : List Scalar) [offers : row.Offers law (expressions.flatMap Scalar.reads)] :
    Obeys law (expressions.mapM (Scalar.emit row)) :=
  .mapM fun e member => e.obeys_emit (offers.mono fun _ reads => mem_flatMap.mpr ⟨e, member, reads⟩)

variable {columns : List (Nat × Attribute)} {rowId : Option Attribute} {carried : List Attribute} {bases : List Reg}

namespace Emit

instance : Obeys law (number n) := by
  unfold number
  infer_instance

instance : Obeys law (tableHandle table) := by
  unfold tableHandle
  infer_instance

instance : Obeys law (tupleSlot layout) := by
  unfold tupleSlot
  infer_instance

instance : Obeys law (tupleLayout types) := by
  unfold tupleLayout
  infer_instance

theorem gives_tupleLayout (types : List ValueType) :
    Gives (tupleLayout types) fun result => result.2.types = types := by
  have made : Gives (inProgram fun program => program.tupleLayout types) fun result => result.2.types = types := by
    intro b result b' emitted
    cases emitted
    show (b.program.tupleLayout types).1.2.types = types
    unfold Program.tupleLayout
    dsimp only
    split <;> exact TupleLayout.make_types _ types
  refine made.bind fun (id, layout) same => ?_
  exact .ite (fun _ => .after fun _ => .pure same) fun _ => .pure same

instance : Obeys law newCounter := by
  unfold newCounter
  infer_instance

instance : Obeys law (increment counter) := by
  unfold increment
  infer_instance

instance : Obeys law (printFormatted format n) := by
  unfold printFormatted
  infer_instance

instance : Obeys law (nodePayload node) := by
  unfold nodePayload
  infer_instance

theorem forNodes_eq (first : Reg) (body : Reg → Emit Reg) : forNodes first body =
    discard (whileLoop [first] (single fun node => do compare .ne node (← nullPtr)) (single fun node => do
      return [← body node])) := rfl

instance (body : Reg → Emit Reg) [∀ node, Obeys law (body node)] : Obeys law (forNodes first body) := by
  rw [forNodes_eq]
  infer_instance

theorem Gives.forNodes (gives : ∀ node, Gives (body node) fun _ => fact) :
    Gives (forNodes first body) fun _ => fact := by
  refine (Gives.whileLoop (.single fun node => ?_)).bind fun _ holds => .pure holds
  exact (gives node).bind fun _ holds => .pure holds

section Rows

instance : Obeys law (nullBit one nullWord index a) := by
  unfold nullBit
  split <;> infer_instance

instance : Obeys law (scanColumns tid one nullWord columns bases row) := by
  induction columns generalizing bases row with
  | nil => unfold scanColumns; infer_instance
  | cons column columns ih => cases bases <;> (unfold scanColumns; infer_instance)

theorem gives_scanColumns (tid one : Reg) (nullWord : Option Reg) (each : bases.length = columns.length) (row : HeldRow) :
    Gives (scanColumns tid one nullWord columns bases row) fun row' => row'.Extends (columns.map Prod.snd) row := by
  induction columns generalizing bases row with
  | nil =>
    exact .pure (.refl _)
  | cons column columns ih =>
    obtain _ | ⟨_, bases⟩ := bases
    · cases each
    · obtain ⟨_, a⟩ := column
      refine .after fun size => .after fun offset => .after fun address => .after fun indicator => .after fun value => ?_
      exact fun b row' b' emitted => (ih (Nat.succ.inj each) ((a, value) :: row) b row' b' emitted).cons

instance : Obeys law (nullWords handle columns) := by
  unfold nullWords
  infer_instance

instance : Obeys law (rowWord base offset) := by
  unfold rowWord
  infer_instance

abbrev columnStart (handle : Reg) (column : Nat × Attribute) : Emit Reg := do
  let index ← const .i64 column.1
  callValue .tableColumn [handle, index]

/-- The attributes that a scan hands on. -/
def scanned (columns : List (Nat × Attribute)) (rowId : Option Attribute) : List Attribute :=
  columns.map Prod.snd ++ rowId.toList

theorem Obeys.scanRow (full : bases.length = columns.length)
    (each : ∀ row, row.Has (scanned columns rowId) → Obeys law (next row)) (tid offset one : Reg) (nulls : Option Reg) :
    Obeys law (scanRow tid offset one nulls columns bases rowId next) := by
  refine .after fun nullWord => .bind inferInstance (gives_scanColumns tid one nullWord full []) fun row has => ?_
  cases rowId with
  | none =>
    refine each row fun a member => ?_
    rcases mem_append.mp member with column | none
    · exact has.1 a column
    · cases none
  | some id =>
    refine .after fun r => each _ fun a member => ?_
    rcases mem_append.mp member with column | rowId
    · exact mem_cons_of_mem _ (has.1 a column)
    · rw [Option.toList_some, mem_singleton] at rowId
      subst rowId
      exact mem_cons_self

theorem Obeys.scanVisible (full : bases.length = columns.length)
    (each : ∀ row, row.Has (scanned columns rowId) → Obeys law (next row)) (tid zero visibility : Reg) (branch : Nat)
    (nulls : Option Reg) :
    Obeys law (scanVisible tid zero visibility branch nulls columns bases rowId next) := by
  have (offset one : Reg) := Obeys.scanRow full each tid offset one nulls
  exact .after fun _ => .after fun _ => .after fun _ => .after fun _ =>
    inferInstance

theorem Obeys.scanRows (each : ∀ row, row.Has (scanned columns rowId) → Obeys law (next row)) (table : String)
    (branch : Nat) :
    Obeys law (scanRows table columns rowId branch next) := by
  refine .after fun handle => .after fun count => ?_
  have full : Gives (columns.mapM (columnStart handle)) fun bases => List.Forall₂ (fun _ _ => True) bases columns :=
    .mapM fun _ _ => .any _
  refine .bind inferInstance full fun bases same => .after fun nulls => .after fun visibility =>
    .after fun zero => ?_
  have (tid : Reg) := Obeys.scanVisible same.length_eq each tid zero visibility branch nulls
  infer_instance

instance [row.Offers law predicate.reads] [Obeys law (next row)] : Obeys law (filterRow predicate next row) := by
  unfold filterRow
  infer_instance

/-- The attributes that computed values are made from. -/
def mappingReads (mappings : List Mapping) : List Attribute := mappings.flatMap fun mapping => mapping.value.reads

instance (source : HeldRow) (mappings : List Mapping) [offers : source.Offers law (mappingReads mappings)]
    (row : HeldRow) : Obeys law (extendRow source mappings row) := by
  induction mappings generalizing row offers with
  | nil => unfold extendRow; infer_instance
  | cons mapping mappings ih =>
    have : source.Offers law mapping.value.reads := offers.mono (subset_append_left _ _)
    have : source.Offers law (mappingReads mappings) := offers.mono (subset_append_right _ _)
    unfold extendRow
    infer_instance

theorem gives_extendRow (source : HeldRow) (mappings : List Mapping) (row : HeldRow) :
    Gives (extendRow source mappings row) fun row' => row'.Extends (mappings.map Mapping.result) row := by
  induction mappings generalizing row with
  | nil =>
    exact .pure (.refl _)
  | cons mapping mappings ih =>
    refine .after fun value => .after fun value => ?_
    exact fun b row' b' emitted => (ih ((mapping.result, value) :: row) b row' b' emitted).cons

theorem Obeys.mapRow [row.Offers law (mappingReads mappings)]
    (each : ∀ row', row'.Has (mappings.map Mapping.result) → row.ids ⊆ row'.ids → Obeys law (next row')) :
    Obeys law (mapRow mappings next row) := by
  exact .bind inferInstance (gives_extendRow row mappings row) fun row' has => each row' has.1 has.2

end Rows

section Join

instance {keys : List Scalar} [row.Offers law (keys.flatMap Scalar.reads)] [row.Offers law carried] :
    Obeys law (buildRow list layout keys carried row) := by
  unfold buildRow
  infer_instance

instance {keys : List Held} [Obeys law code] : Obeys law (whenEqual code stored keys) := by
  induction stored generalizing keys with
  | nil => unfold whenEqual; infer_instance
  | cons value stored ih => cases keys <;> (unfold whenEqual; infer_instance)

/-- The row that is handed on has the attributes of both sides. -/
theorem has_joined (full : carried.length ≤ values.length) (row : HeldRow) :
    HeldRow.Has ((carried.zip values).reverse ++ row) carried := by
  intro a member
  simp only [HeldRow.ids, map_append, map_reverse, mem_append, mem_reverse, mem_map]
  obtain ⟨i, bound, rfl⟩ := getElem_of_mem member
  refine Or.inl ⟨(carried[i], values[i]), ?_, rfl⟩
  rw [mem_iff_getElem]
  exact ⟨i, by simp only [length_zip]; omega, by simp⟩

/-- What probing does at one node. -/
abbrev probeNode (table hash : Reg) (layout : TupleLayout) (keys : List Held) (carried : List Attribute) (next : Sink)
    (row : HeldRow) (node : Reg) : Emit Reg := do
  let payload ← nodePayload node
  let stored ← Held.loadTuple layout payload
  let joined := (carried.zip (stored.drop keys.length)).reverse ++ row
  whenEqual (next joined) (stored.take keys.length) keys
  callValue .joinNextSameHash [table, node, hash]

theorem Obeys.probeRow {keys : List Scalar} [row.Offers law (keys.flatMap Scalar.reads)]
    (full : layout.fields.length = keys.length + carried.length)
    (each : ∀ joined, joined.Has carried → row.ids ⊆ joined.ids → Obeys law (next joined)) (table : Reg) :
    Obeys law (probeRow table layout keys carried next row) := by
  have keyCount : Gives (keys.mapM (Scalar.emit row)) fun values => List.Forall₂ (fun _ _ => True) values keys :=
    .mapM fun _ _ => .any _
  refine .bind inferInstance keyCount fun values same => .after fun hash =>
    .after fun first => ?_
  have (node : Reg) : Obeys law (probeNode table hash layout values carried next row node) := by
    refine .after fun payload => .bind inferInstance (Held.gives_loadTuple layout payload) fun stored count => ?_
    have enough : carried.length ≤ (stored.drop values.length).length := by
      rw [length_drop, count, full, same.length_eq]
      omega
    have := each _ (has_joined enough row) (by
      simp only [HeldRow.ids, map_append]
      exact subset_append_right _ _)
    infer_instance
  infer_instance

/-- The code of an operator, whose rows all have the property `Row`, obeys a law if the code that takes them does. -/
def Feeds (law : Law) (Row : HeldRow → Prop) (code : Sink → Emit Unit) : Prop :=
  ∀ next : Sink, (∀ row, Row row → Obeys law (next row)) → Obeys law (code next)

theorem Obeys.joinRows {keys : List (Scalar × Scalar)} (first : Feeds law First left) (second : Feeds law Second right)
    (build : ∀ row, First row → row.Offers law ((keys.map Prod.fst).flatMap Scalar.reads) ∧ row.Offers law carried)
    (probe : ∀ row, Second row → row.Offers law ((keys.map Prod.snd).flatMap Scalar.reads))
    (each : ∀ row, Second row → ∀ joined, joined.Has carried → row.ids ⊆ joined.ids → Obeys law (next joined)) :
    Obeys law (joinRows left right keys carried next) := by
  refine .bind inferInstance (gives_tupleLayout _) fun (_, layout) types => .after fun list => ?_
  have built (row : HeldRow) (is : First row) :
      Obeys law (buildRow list layout (keys.map Prod.fst) carried row) := by
    obtain ⟨_, _⟩ := build row is
    infer_instance
  refine .seq (first _ built) fun _ => ?_
  have full : layout.fields.length = (keys.map Prod.snd).length + carried.length := by
    have count := congrArg length types
    simpa only [TupleLayout.types, joinTypes, length_map, length_append] using count
  refine .after fun table => .seq (second _ fun row is => ?_) fun _ => inferInstance
  have := probe row is
  exact .probeRow full (each row is) table

end Join

end Emit

namespace Aggregate

/-- The attributes that aggregates are computed from. -/
def allReads (aggregates : List Aggregate) : List Attribute := aggregates.flatMap reads

instance : Obeys law one := by
  unfold one
  infer_instance

instance [offers : row.Offers law aggregate.reads] : Obeys law (aggregate.initial row) := by
  cases aggregate with
  | keep a =>
    have := offers.offers a mem_cons_self
    unfold initial
    infer_instance
  | countAll => unfold initial; infer_instance
  | sum argument | avg argument | min argument =>
    have : row.Offers law argument.reads := offers
    unfold initial
    infer_instance

instance [offers : row.Offers law (allReads aggregates)] : Obeys law (initialState row aggregates) := by
  induction aggregates generalizing offers with
  | nil => unfold initialState; infer_instance
  | cons aggregate aggregates ih =>
    have : row.Offers law aggregate.reads := offers.mono (subset_append_left _ _)
    have : row.Offers law (allReads aggregates) := offers.mono (subset_append_right _ _)
    unfold initialState
    infer_instance

instance (ty : ValueType) (a b : Held) : Obeys law (a.min ty b) := by
  unfold Held.min
  infer_instance

instance : Obeys law (leastOf ty current value) := by
  unfold leastOf
  split <;> infer_instance

instance [offers : row.Offers law (allReads aggregates)] : Obeys law (updateState row aggregates state) := by
  fun_induction updateState row aggregates state generalizing offers with
  | case1 | case7 => infer_instance
  | case2 a aggregates key state ih | case5 a aggregates count state ih =>
    have : row.Offers law (allReads aggregates) := offers.mono (subset_append_right _ _)
    infer_instance
  | case3 argument a aggregates total state ih | case4 argument a aggregates total count state ih
  | case6 argument a aggregates current state ih =>
    have : row.Offers law argument.reads := offers.mono (subset_append_left _ _)
    have : row.Offers law (allReads aggregates) := offers.mono (subset_append_right _ _)
    infer_instance

instance : Obeys law (outputRow aggregates state row) := by
  fun_induction outputRow aggregates state row <;> infer_instance

theorem gives_outputRow (aggregates : List Aggregate) (state : List Held) (row : HeldRow) :
    Gives (outputRow aggregates state row) fun row' => row'.Extends (aggregates.map result) row := by
  fun_induction outputRow aggregates state row with
  | case1 => exact .pure (.refl _)
  | case2 argument a aggregates total count state row ih =>
    exact .after fun quotient b row' b' emitted => (ih quotient b row' b' emitted).cons
  | case3 aggregate aggregates value state row _ ih => exact fun b row' b' emitted => (ih b row' b' emitted).cons
  | case4 => exact .throw

end Aggregate

variable {child : Sink → Emit Unit} {Row : HeldRow → Prop}

namespace Emit

section Group

/-- The code that goes on to the next node of the loop that looks for a group. -/
def groupDiffers (aggregates : List Aggregate) (layout : TupleLayout) (keys : List Held) (node : Reg) :
    Emit (List Reg) := do
  let payload ← nodePayload node
  let stored ← Held.loadTuple layout payload
  let same ← Held.equalsTuple (Aggregate.keyFields aggregates stored) keys
  return [← Emit.not same]

/-- Whether the loop that looks for a group goes on. -/
def groupGoesOn (aggregates : List Aggregate) (layout : TupleLayout) (keys : List Held) : List Reg → Emit Reg
  | [node] => do
    let null ← nullPtr
    let present ← Emit.compare .ne node null
    match ← Emit.ifThenElse present (groupDiffers aggregates layout keys node) (do return [← Emit.constBool false]) with
    | [result] => return result
    | _ => trap
  | _ => trap

theorem groupGoesOn_eq (aggregates : List Aggregate) (layout : TupleLayout) (keys : List Held) (node : Reg) :
    groupGoesOn aggregates layout keys [node] = (do
      let null ← nullPtr
      let present ← compare .ne node null
      single pure (← ifThenElse present (groupDiffers aggregates layout keys node) (do return [← constBool false]))) := rfl

def groupFollows (table hash : Reg) : List Reg → Emit (List Reg)
  | [node] => do return [← Emit.callValue .chainNextSameHash [table, node, hash]]
  | _ => trap

section

variable [row.Offers law (Aggregate.allReads aggregates)]

instance : Obeys law (updateGroup aggregates layout row address) := by
  unfold updateGroup
  infer_instance

instance : Obeys law (singleRow aggregates layout slot seen row) := by
  unfold singleRow
  infer_instance

end

variable {keys : List Held}

instance : Obeys law (groupDiffers aggregates layout keys node) := by
  unfold groupDiffers
  infer_instance

instance : Obeys law (groupGoesOn aggregates layout keys nodes) := by
  unfold groupGoesOn
  split
  · exact .after fun _ => .after fun _ => .after fun _ => by split <;> infer_instance
  · infer_instance

instance : Obeys law (groupFollows table h nodes) := by
  unfold groupFollows
  split <;> infer_instance

theorem findGroup_eq (aggregates : List Aggregate) (layout : TupleLayout) (table hash : Reg) (keys : List Held) :
    findGroup aggregates layout table hash keys = (do
      let first ← callValue .chainLookup [table, hash]
      single pure (← whileLoop [first] (groupGoesOn aggregates layout keys) (groupFollows table hash))) := rfl

instance : Obeys law (findGroup aggregates layout table h keys) := by
  rw [findGroup_eq]
  infer_instance

/-- A row that offers what the aggregates read offers the grouping keys. -/
theorem keys_subset_reads (aggregates : List Aggregate) : Aggregate.keys aggregates ⊆ Aggregate.allReads aggregates := by
  intro a member
  obtain ⟨aggregate, among, isKey⟩ := mem_filterMap.mp member
  refine mem_flatMap.mpr ⟨aggregate, among, ?_⟩
  cases aggregate with
  | keep key =>
    cases isKey
    exact mem_cons_self
  | _ => cases isKey

instance [offers : row.Offers law (Aggregate.allReads aggregates)] :
    Obeys law (keyedRow aggregates layout table row) := by
  refine .seq (.mapM fun a member => ?_) fun _ => .after fun _ => .after fun _ => ?_
  · have := offers.offers a (keys_subset_reads aggregates member)
    infer_instance
  · infer_instance

variable {aggregates : List Aggregate}

theorem Obeys.finishGroup (each : ∀ row, row.Has (aggregates.map Aggregate.result) → Obeys law (next row))
    (layout : TupleLayout) (address : Reg) : Obeys law (finishGroup aggregates layout next address) := by
  refine .after fun state => ?_
  exact .bind inferInstance (Aggregate.gives_outputRow aggregates state []) fun row has => each row has.1

theorem Obeys.groupRows (feeds : Feeds law Row child)
    (takes : ∀ row, Row row → row.Offers law (Aggregate.allReads aggregates))
    (each : ∀ row, row.Has (aggregates.map Aggregate.result) → Obeys law (next row)) :
    Obeys law (groupRows child aggregates next) := by
  have (layout : TupleLayout) (address : Reg) := Obeys.finishGroup each layout address
  refine .after fun (_, layout) => ?_
  dsimp only
  split
  · refine .after fun slot => .after fun seen => .seq (feeds _ fun row is => ?_) fun _ =>
      inferInstance
    have := takes row is
    infer_instance
  · refine .after fun table => .seq (feeds _ fun row is => ?_) fun _ => inferInstance
    have := takes row is
    infer_instance

end Group

section Output

instance : Obeys law (printChar c) := by
  unfold printChar
  infer_instance

instance : Obeys law (printValues values) := by
  fun_induction printValues values <;> infer_instance

instance [row.Offers law selection] : Obeys law (printRow selection counter row) := by
  unfold printRow
  infer_instance

instance [row.Offers law selection] : Obeys law (collectRow selection row) := by
  unfold collectRow
  infer_instance

instance [HeldRow.Offers law [] (values.flatMap Scalar.reads)] : Obeys law (insertRow table types values) := by
  refine .after fun _ => .after fun _ => .after fun _ => ?_
  infer_instance

instance [Obeys law (row.value a)] : Obeys law (rowIdOf row a) := by
  refine .after fun value => ?_
  split <;> infer_instance

/-- The attributes that an update reads. -/
def updateReads (rowId : Attribute) (assignments : List Assignment) : List Attribute :=
  rowId :: assignments.flatMap fun assignment => assignment.value.reads

instance (table : String) (rowId : Attribute) (assignments : List Assignment) (counter : Reg) (row : HeldRow)
    [offers : row.Offers law (updateReads rowId assignments)] :
    Obeys law (updateRow table rowId assignments counter row) := by
  have values : Obeys law (assignments.mapM fun assignment => assignment.value.emit row) :=
    .mapM fun assignment member => assignment.value.obeys_emit (offers.mono fun _ reads =>
      mem_cons_of_mem _ (mem_flatMap.mpr ⟨assignment, member, reads⟩))
  have := offers.offers rowId mem_cons_self
  refine .after fun _ => .seq values fun _ => .after fun _ => .after fun _ => ?_
  exact .after fun _ => inferInstance

instance (table : String) (rowId : Attribute) (counter : Reg) (row : HeldRow) [offers : row.Offers law [rowId]] :
    Obeys law (deleteRow table rowId counter row) := by
  have := offers.offers rowId mem_cons_self
  unfold deleteRow
  infer_instance

theorem Obeys.printRows (feeds : Feeds law Row child) (takes : ∀ row, Row row → row.Offers law selection) :
    Obeys law (printRows child selection) := by
  refine .after fun counter => .seq (feeds _ fun row is => ?_) fun _ => inferInstance
  have := takes row is
  infer_instance

theorem Obeys.countedRows (feeds : Feeds law Row child) (changes : ∀ counter row, Row row → Obeys law (change counter row))
    (format : String) :
    Obeys law (countedRows child change format) := by
  exact .after fun counter => .seq (feeds _ (changes counter)) fun _ => inferInstance

end Output

section Growing

variable (next : Sink) [∀ row, Growing (next row)]

instance : Growing (scanRow tid offset one nulls columns bases rowId next) := by
  refine .after fun _ => .after fun _ => ?_
  cases rowId <;> infer_instance

instance : Growing (scanVisible tid zero visibility branch nulls columns bases rowId next) := by
  exact .after fun _ => .after fun _ => .after fun _ => .after fun _ =>
    inferInstance

instance : Growing (mapRow mappings next row) :=
  .mapRow fun _ _ _ => inferInstance

end Growing

end Emit

/-- The code of every tree of operators obeys a law if joins and groups do. -/
theorem Physical.feeds [law.Lenient]
    (joins : ∀ left right keys carried, Feeds law (fun _ => True) left → Feeds law (fun _ => True) right →
      Feeds law (fun _ => True) (joinRows left right keys carried))
    (groups : ∀ child aggregates, Feeds law (fun _ => True) child → Feeds law (fun _ => True) (groupRows child aggregates))
    (tree : Physical) : Feeds law (fun _ => True) tree.produce := by
  induction tree with
  | scan => exact fun next each => .scanRows (fun row _ => each row trivial) _ _
  | select child predicate ih =>
    intro next each
    refine ih _ fun row _ => ?_
    have := each row trivial
    infer_instance
  | map child mappings ih =>
    exact fun next each => ih _ fun row _ => .mapRow fun row' _ _ => each row' trivial
  | join left right keys carried first second => exact joins _ _ keys carried first second
  | group child aggregates ih => exact groups _ aggregates ih
  | print child selection ih => exact fun _ _ => .printRows ih fun _ _ => inferInstance
  | collect child selection ih => exact fun _ _ => ih _ fun _ _ => inferInstance
  | insert => intro _ _; unfold produce; infer_instance
  | update child table rowId assignments ih =>
    exact fun _ _ => .countedRows ih (fun _ _ _ => inferInstance) _
  | delete child table rowId ih =>
    exact fun _ _ => .countedRows ih (fun _ _ _ => inferInstance) _

/-- The code of every tree of operators only lets a function grow. -/
theorem Physical.feeds_growth (tree : Physical) : Feeds growth (fun _ => True) tree.produce :=
  tree.feeds
    (fun _ _ _ _ first second _ each => .joinRows first second (fun _ _ => ⟨inferInstance, inferInstance⟩)
      (fun _ _ => inferInstance) fun _ _ joined _ _ => each joined trivial)
    fun _ _ child _ each => .groupRows child (fun _ _ => inferInstance) fun row _ => each row trivial

end QueryEngine
