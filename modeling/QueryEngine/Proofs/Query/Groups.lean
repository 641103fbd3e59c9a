import QueryEngine.Proofs.Pipeline.GroupResults
import QueryEngine.Proofs.Query.Joins

namespace QueryEngine

open List ValueRow Aggregate ValueType

namespace ValueRow

variable {keys : List (List Datum)}

/-- The classes of rows are the same, whichever way they have been found. -/
theorem Partition.unique (partition : Partition attributes rows keys) (other : Partition attributes rows keys') :
    keys.Perm keys' := by
  have subset {first second : List (List Datum)} (one : Partition attributes rows first)
      (two : Partition attributes rows second) : first ⊆ second := by
    intro key member
    by_contra new
    exact one.nonempty key member (two.group_eq_nil new)
  exact (perm_ext_iff_of_nodup partition.nodup other.nodup).mpr fun key =>
    ⟨fun member => subset partition other member, fun member => subset other partition member⟩

/-- Rows that have more values than others fall into classes in the same way. -/
theorem group_within (within : Forall₂ Within rows rows')
    (known : ∀ row ∈ rows, ∃ key, row.selected? attributes = some key) (key : List Datum) :
    Forall₂ Within (group attributes rows key) (group attributes rows' key) := by
  induction within with
  | nil => exact .nil
  | @cons row whole rows rows' here _ ih =>
    obtain ⟨own, selected⟩ := known row mem_cons_self
    have whole' := (here.on attributes).selected? selected
    have rest := ih fun row member => known row (mem_cons_of_mem _ member)
    unfold group at rest ⊢
    by_cases same : own = key
    · rw [filter_cons_of_pos (by simpa [selected] using same), filter_cons_of_pos (by simpa [whole'] using same)]
      exact .cons here rest
    · rw [filter_cons_of_neg (by simpa [selected] using same), filter_cons_of_neg (by simpa [whole'] using same)]
      exact rest

theorem Partition.within (partition : Partition attributes rows keys) (within : Forall₂ Within rows rows') :
    Partition attributes rows' keys where
  nodup := partition.nodup
  known := by
    intro whole member
    obtain ⟨i, bound, rfl⟩ := getElem_of_mem member
    obtain ⟨lengths, each⟩ := forall₂_iff_get.mp within
    obtain ⟨key, known, selected⟩ := partition.known (rows.get ⟨i, by omega⟩) (get_mem _ _)
    exact ⟨key, known, ((each i (by omega) bound).on attributes).selected? selected⟩
  nonempty := by
    intro key member none
    have related := group_within within (fun row inside => (partition.known row inside).imp fun _ known => known.2) key
    rw [none] at related
    exact partition.nonempty key member (forall₂_nil_right_iff.mp related)

end ValueRow

namespace Aggregate

theorem Yields.within {aggregate : Aggregate} {d : Datum} (yields : aggregate.Yields reported rows d)
    (within : Forall₂ ValueRow.Within rows rows') : aggregate.Yields reported rows' d := by
  cases aggregate with
  | keep a =>
    intro whole member
    obtain ⟨i, bound, rfl⟩ := getElem_of_mem member
    obtain ⟨lengths, each⟩ := forall₂_iff_get.mp within
    exact each i (by omega) bound a d (yields _ (get_mem rows ⟨i, by omega⟩))
  | countAll =>
    have counted : d = .integer (Int32.ofNat rows.length) := yields
    rw [within.length_eq] at counted
    exact counted
  | sum | avg | min =>
    obtain ⟨xs, values, rest⟩ := yields
    exact ⟨xs, mapM_of_forall₂ within values fun _ _ _ here => here.value?, rest⟩

end Aggregate

variable {aggregates : List Aggregate}

/-- What a grouping makes of rows does not depend on values that it does not read. -/
theorem Grouped.within {rows rows' out : List ValueRow} (grouped : Grouped reported aggregates rows out)
    (within : Forall₂ ValueRow.Within rows rows') :
    Grouped reported aggregates rows' out := by
  obtain ⟨keys, partition, each⟩ := grouped
  refine ⟨keys, partition.within within, each.imp fun key row describes => ?_⟩
  have related := group_within within
    (fun row inside => (partition.known row inside).imp fun _ known => known.2) key
  exact describes.imp fun _ _ ⟨isResult, yields⟩ => ⟨isResult, yields.within related⟩

variable {db : Database}

/-- The row of a class has the values of its keys, and the number of its rows, of which 32 bits are kept. -/
def Aggregate.Counts (aggregates : List Aggregate) (rows : List ValueRow) (items : ValueRow) : Prop :=
  Forall₂ (fun aggregate item => item.1 = aggregate.result ∧
    (∀ a, aggregate = .keep a → ∀ row ∈ rows, row.value? a = some item.2) ∧
    ∀ a, aggregate = .countAll a → item.2 = .integer (Int32.ofNat rows.length)) aggregates items

theorem Aggregate.Describes.counts (describes : Aggregate.Describes reported aggregates rows items) :
    Aggregate.Counts aggregates rows items := by
  refine describes.imp fun aggregate item ⟨isResult, yields⟩ => ⟨isResult, ?_, ?_⟩ <;> rintro a rfl <;> exact yields

namespace Planner.GroupExample

def region : Attribute := ⟨0, ValueType.integer.asNullable⟩

def amount : Attribute := ⟨1, ValueType.integer.asNullable⟩

def count : Attribute := ⟨3, .integer⟩

def total : Attribute := ⟨4, ValueType.integer.asNullable⟩

def least : Attribute := ⟨5, ValueType.integer.asNullable⟩

/-- Averages are numerics, and all else is an integer. -/
def types (id : Nat) : Shape := if id = 6 then Aggregate.averageType.shape else .integer

def sales : TableScan where
  table := "sales"
  scan := 0
  columns := [(0, region), (1, amount)]
  rowId := ⟨2, .integer⟩
  branch := 0

def database? : Option Database :=
  Database.loaded? { encoding := .indicator } "sales" [("region", region.ty), ("amount", amount.ty)]
    [[.integer 1, .integer 10], [.null, .integer 5], [.integer 1, .null], [.null, .integer 7], [.integer 2, .integer 3]]

def plan (aggregates : List Aggregate) (selection : List Attribute) : Plan where
  nodes := #[
    { op := .scan sales, parent := some 1 },
    { op := .group 0 aggregates, parent := some 2 },
    { op := .result 1 selection }]
  root := some 2

theorem plan_built (aggregates : List Aggregate) (selection : List Attribute) : (plan aggregates selection).Built :=
  have first := @Plan.Built.add _ _ (.scan sales) _ .new rfl
  have second := @Plan.Built.add _ _ (.group 0 aggregates) _ first rfl
  @Plan.Built.addRoot _ _ (.result 1 selection) _ second rfl

def planner (aggregates : List Aggregate) (selection : List Attribute) (db : Database) : Planner :=
  { database := db, branch := 0, plan := plan aggregates selection }

/-- One bucket, so that it soon has to be split. -/
def settings : Settings := { resultMode := .collect, buckets := 1 }

theorem built (given : database? = some db) : db.Built := Database.Built.empty.loaded given

theorem input (given : database? = some db) (aggregates : List Aggregate) (selection : List Attribute) :
    (plan aggregates selection).TypedChain types db sales 0 [] :=
  ⟨.scan rfl, .of_describes given (by decide) (by decide) ⟨rfl, rfl⟩ (by decide), nofun⟩

def rows : List ValueRow :=
  [(0, .integer 1, .integer 10), (1, .null, .integer 5), (2, .integer 1, .null), (3, .null, .integer 7),
    (4, .integer 2, .integer 3)].map fun (id, r, a) => [(⟨2, .integer⟩, .integer id), (amount, a), (region, r)]

def counts : List Aggregate := [.countAll count, .keep region]

/-- NULL is a key like any other. -/
def classes : List (List Datum) := [[.integer 1], [.null], [.integer 2]]

theorem partition : ValueRow.Partition (keys counts) rows classes := ⟨by decide, by decide, by decide⟩

def answer (key : List Datum) : Row :=
  key ++ [.integer (Int32.ofNat (ValueRow.group (Aggregate.keys counts) rows key).length)]

theorem selected {key : List Datum} {row : ValueRow} (inhabited : group (keys counts) rows key ≠ [])
    (counted : Aggregate.Counts counts (group (keys counts) rows key) row.reverse) :
    row.selected? [region, count] = some (answer key) := by
  obtain ⟨⟨_, n⟩, _, ⟨rfl, _, isCount⟩, others, same⟩ := forall₂_cons_left_iff.mp counted
  obtain ⟨⟨_, d⟩, _, ⟨rfl, isKey, _⟩, ⟨⟩, rfl⟩ := forall₂_cons_left_iff.mp others
  rw [reverse_eq_iff.mp same]
  obtain ⟨first, rest, isGroup⟩ := exists_cons_of_ne_nil inhabited
  have member : first ∈ group (keys counts) rows key := isGroup ▸ mem_cons_self
  have isSelected : first.selected? [region] = _ := (mem_group.mp member).2
  obtain rfl : key = [d] := by
    obtain ⟨_, rest, value, ⟨⟩, rfl⟩ := forall₂_cons_left_iff.mp (mapM_eq_some_iff.mp isSelected)
    rw [isKey region rfl first member] at value
    cases value
    rfl
  rw [answer, ← isCount count rfl]
  rfl

end Planner.GroupExample

/-- Without keys all rows are one class, and there is none without rows. -/
theorem Grouped.keyless (grouped : Grouped reported aggregates rows out) (keyless : keys aggregates = []) :
    rows = [] ∧ out = [] ∨
      rows ≠ [] ∧ ∃ row, out = [row] ∧ Aggregate.Describes reported aggregates rows row.reverse := by
  obtain ⟨keys, partition, each⟩ := grouped
  rw [keyless] at partition each
  cases rows with
  | nil =>
    have none : keys = [] := eq_nil_iff_forall_not_mem.mpr fun key member => partition.nonempty key member rfl
    subst none
    exact .inl ⟨rfl, forall₂_nil_left_iff.mp each⟩
  | cons first rest =>
    have single : ValueRow.Partition [] (first :: rest) [[]] := by
      refine ⟨nodup_singleton _, fun row _ => ⟨[], mem_cons_self, rfl⟩, fun key member => ?_⟩
      rw [mem_singleton.mp member, group_keyless]
      exact cons_ne_nil _ _
    cases perm_singleton.mp (partition.unique single)
    obtain ⟨row, none, describes, ⟨⟩, rfl⟩ := forall₂_cons_left_iff.mp each
    rw [group_keyless] at describes
    exact .inr ⟨cons_ne_nil _ _, row, rfl, describes⟩

namespace Planner.GroupExample

end Planner.GroupExample

end QueryEngine
