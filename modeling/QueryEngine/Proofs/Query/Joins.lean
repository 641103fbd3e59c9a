import QueryEngine.Proofs.Plan.Joins
import QueryEngine.Proofs.Query.Pipelines

namespace QueryEngine

open Option

variable {settings : Settings}

/-- What is compiled is lowered from the plan, with the sets of the plan itself. -/
theorem Planner.compile_lowers {p : Planner} {cache cache' : SetCache} {query : CompiledQuery} {root : Nat}
    (built : p.plan.Built) (asked : cache.Asked p.plan) (top : p.plan.root = some root)
    (compiled : p.compile settings cache = .ok query cache') :
    ∃ physical, p.plan.Lowers settings.resultMode root physical ∧
      Compile.emit p.database.encoding physical = .ok query.program := by
  obtain ⟨_, _, physical, verified, chosen, emitted, _⟩ := compile_ok compiled
  have forest := built.forest
  obtain ⟨sound, _⟩ := forest.satisfied_of_verify (forest.sound_of_asked asked) top verified
  exact ⟨physical, (forest.lowers_of_lower sound top chosen).2, emitted⟩

theorem joinNeed_le (pool : settings.poolBlock ≤ 2 ^ 59) : joinNeed settings maxRows ≤ 2 ^ 60 := by
  have largest : largestNode = 2 ^ 20 + 32 := rfl
  have rows : maxRows = 2 ^ 34 := rfl
  unfold joinNeed Pool.cost
  rw [largest, rows]
  omega

/-- A query that collects the rows of a hash join of two chains comes to an end, whatever the database holds. Its rows are
the selected values of the pairs on which all equalities are true: for each row on the right, in order, those with the rows
on the left, in order. It leaves the database as it is. Where the two sides have no attribute in common, these are the pairs
that the predicate is true of. -/
theorem Planner.collects_joined_rows {p : Planner} {settings : Settings} {cache cache' : SetCache} {query : CompiledQuery}
    {root join left right : Nat} {selection : List Attribute} {predicate : Scalar} {leftSource rightSource : TableScan}
    {leftSteps rightSteps : List RowStep} {types : Nat → Shape} {db : Database}
    (built : p.plan.Built) (asked : cache.Asked p.plan) (compiled : p.compile settings cache = .ok query cache')
    (flagged : p.database.encoding = .indicator) (collects : settings.resultMode = .collect)
    (pool : settings.poolBlock ≤ 2 ^ 59) (top : p.plan.root = some root)
    (result : p.plan.operator root = .ok (.result join selection))
    (joins : p.plan.operator join = .ok (.join left right predicate .hash))
    (first : p.plan.TypedChain types db leftSource left leftSteps)
    (second : p.plan.TypedChain types db rightSource right rightSteps) (compares : predicate.Typed types)
    (selected : ∀ a ∈ selection, a.Typed types) (stored : db.Built) :
    ∃ lefts rights pairs keys outcome,
      leftSource.rows? db leftSteps = some lefts ∧ rightSource.rows? db rightSteps = some rights ∧
      predicate.equalityPairs? = some pairs ∧
      pairs.mapM (Lowering.orient? (p.plan.producedSet left) (p.plan.producedSet right)) = some keys ∧
      (∀ r ∈ rights, ∀ l ∈ lefts, ∃ equal, ValueRow.equalOn? keys l r = some equal) ∧
      (ValueRow.nestedLoop (fun l r => ValueRow.equalOn? keys l r = some true) lefts rights).mapM
        (ValueRow.selected? selection) = some outcome.rows.toList ∧
      ((∀ n, (p.plan.producedSet left).Has n → ¬(p.plan.producedSet right).Has n) →
        (ValueRow.nestedLoop (fun l r => predicate.value? (l ++ r) = some (.bool true)) lefts rights).mapM
          (ValueRow.selected? selection) = some outcome.rows.toList) ∧
      ∃ least, ∀ limit, least ≤ limit →
        query.program.executeWithin limit queryFunction query.settings db = (db, .ok outcome) := by
  have forest := built.forest
  obtain ⟨physical, lowers, emitted⟩ := compile_lowers built asked top compiled
  obtain ⟨tree, inner, rfl⟩ := lowers.lowered result
  rw [collects] at inner emitted
  rw [flagged] at emitted
  have expected : p.plan.expectedSet join = .ofList selection := by
    obtain ⟨node, found, isOp⟩ := Plan.operator_ok result
    have among : join ∈ node.op.children := by rw [isOp]; exact List.mem_cons_self
    rw [forest.expectedSet_input found among, forest.requiredSet_eq found, isOp]
    rfl
  have block : query.settings.poolBlock ≤ 2 ^ 59 := by rwa [compile_settings compiled]
  have room : query.settings.poolBlock + 16 < Pool.sizeLimit := by
    have limit : Pool.sizeLimit = 2 ^ 64 := rfl
    omega
  obtain ⟨pairs, keys, isPairs, oriented, produces⟩ :=
    inner.join_produces forest joins expected first second compares selected stored.valid room
  obtain ⟨outcome, out, ⟨lefts, rights, leftRows, rightRows, decided, related⟩, collected, ends⟩ :=
    Compile.collects query.settings emitted selected produces (joinNeed_le block)
  have given := ValueRow.WithinOn.selected_all? related collected
  refine ⟨lefts, rights, pairs, keys, outcome, leftRows, rightRows, isPairs, oriented, decided, given, fun apart => ?_, ends⟩
  rw [← Plan.nestedLoop_predicate forest first.chain second.chain isPairs oriented apart leftRows rightRows decided]
  exact given

/-- A database with one more table, and rows in it. -/
def Database.loaded? (db : Database) (name : String) (columns : List (String × ValueType)) (rows : List Row) :
    Option Database := do
  let db ← (db.createTable name columns).toOption
  rows.foldlM (fun db row => (db.addRow name row 0).toOption) db

variable {db : Database}

theorem Database.Built.loaded (built : db.Built) (given : db.loaded? name columns rows = some db') : db'.Built := by
  have ok {ε α : Type} {result : Except ε α} {x : α} := @Checked.ok_of_toOption ε α result x
  obtain ⟨empty, created, filled⟩ := bind_eq_some_iff.mp given
  clear given
  have start := Built.createTable built (ok created)
  clear created
  induction rows generalizing empty with
  | nil =>
    cases filled
    exact start
  | cons row rows ih =>
    obtain ⟨next, added, filled⟩ := bind_eq_some_iff.mp filled
    exact ih next filled (.addRow start (ok added))


namespace Planner.JoinExample

def customer : Attribute := ⟨0, ValueType.integer.asNullable⟩

def amount : Attribute := ⟨1, .integer⟩

def key : Attribute := ⟨3, ValueType.integer.asNullable⟩

def rating : Attribute := ⟨4, .integer⟩

def orders : TableScan where
  table := "orders"
  scan := 0
  columns := [(0, customer), (1, amount)]
  rowId := ⟨2, .integer⟩
  branch := 0

def customers : TableScan where
  table := "customers"
  scan := 1
  columns := [(0, key), (1, rating)]
  rowId := ⟨5, .integer⟩
  branch := 0

def rated : Scalar := .compare .less (.column rating) (.literal (.integer 9) .integer)

def same : Scalar := .compare .equal (.column key) (.column customer)

def plan : Plan where
  nodes := #[
    { op := .scan orders, parent := some 3 },
    { op := .scan customers, parent := some 2 },
    { op := .select 1 rated, parent := some 3 },
    { op := .join 0 2 same .hash, parent := some 4 },
    { op := .result 3 [amount, rating] }]
  root := some 4

theorem plan_built : plan.Built :=
  have first := @Plan.Built.add _ _ (.scan orders) _ .new rfl
  have second := @Plan.Built.add _ _ (.scan customers) _ first rfl
  have third := @Plan.Built.add _ _ (.select 1 rated) _ second rfl
  have fourth := @Plan.Built.add _ _ (.join 0 2 same .hash) _ third rfl
  @Plan.Built.addRoot _ _ (.result 3 [amount, rating]) _ fourth rfl

/-- Keys that are NULL, and keys that occur twice, in both tables. -/
def database? : Option Database :=
  (Database.loaded? { encoding := .indicator } "orders" [("customer", customer.ty), ("amount", amount.ty)]
    [[.integer 1, .integer 10], [.null, .integer 20], [.integer 1, .integer 30], [.integer 2, .integer 40]]).bind fun db =>
  db.loaded? "customers" [("key", key.ty), ("rating", rating.ty)]
    [[.integer 1, .integer 5], [.null, .integer 6], [.integer 1, .integer 7], [.integer 2, .integer 9]]

theorem built (given : database? = some db) : db.Built := by
  obtain ⟨_, first, second⟩ := bind_eq_some_iff.mp given
  exact (Database.Built.empty.loaded first).loaded second

def planner (db : Database) : Planner := { database := db, branch := 0, plan }

theorem first (db : Database) (given : database? = some db) : plan.TypedChain (fun _ => .integer) db orders 0 [] :=
  ⟨.scan rfl, .of_describes given (by decide) (by decide) ⟨rfl, rfl⟩ (by decide), nofun⟩

theorem second (db : Database) (given : database? = some db) :
    plan.TypedChain (fun _ => .integer) db customers 2 [.select rated] :=
  ⟨.select rfl (.scan rfl), .of_describes given (by decide) (by decide) ⟨rfl, rfl⟩ (by decide), by decide⟩

theorem apart (n : Nat) (inOrders : (plan.producedSet 0).Has n) : ¬(plan.producedSet 2).Has n := by
  have forest := plan_built.forest
  have left : plan.producedSet 0 = .ofList [customer, amount, ⟨2, .integer⟩] :=
    (forest.producedSet_eq (show plan.nodes[0]? = some _ from rfl)).trans rfl
  have scanned : plan.producedSet 1 = .ofList [key, rating, ⟨5, .integer⟩] :=
    (forest.producedSet_eq (show plan.nodes[1]? = some _ from rfl)).trans rfl
  have right : plan.producedSet 2 = plan.producedSet 1 := (forest.producedSet_eq (show plan.nodes[2]? = some _ from rfl)).trans rfl
  rw [left] at inOrders
  rw [right, scanned]
  intro inCustomers
  obtain ⟨a, member, rfl⟩ := AttributeSet.has_ofList.mp inOrders
  obtain ⟨b, member', number⟩ := AttributeSet.has_ofList.mp inCustomers
  simp only [List.mem_cons, List.not_mem_nil, or_false] at member member'
  rcases member with rfl | rfl | rfl <;> rcases member' with rfl | rfl | rfl <;> cases number

/-- The answer of nested loops. -/
def answer? (db : Database) : Option (List Row) := do
  let lefts ← orders.rows? db []
  let rights ← customers.rows? db [.select rated]
  (ValueRow.nestedLoop (fun l r => same.value? (l ++ r) = some (.bool true)) lefts rights).mapM
    (ValueRow.selected? [amount, rating])

theorem answers (given : database? = some db) : answer? db =
    some [[.integer 10, .integer 5], [.integer 30, .integer 5], [.integer 10, .integer 7], [.integer 30, .integer 7]] :=
  eq_of_bind given (by decide +kernel)

end Planner.JoinExample

theorem Planner.collects_customers_orders : ∃ db query cache, JoinExample.database? = some db ∧
    (JoinExample.planner db).compile { resultMode := .collect } {} = .ok query cache ∧
    ∃ outcome, outcome.rows.toList =
        [[.integer 10, .integer 5], [.integer 30, .integer 5], [.integer 10, .integer 7], [.integer 30, .integer 7]] ∧
      ∃ least, ∀ limit, least ≤ limit →
        query.program.executeWithin limit queryFunction query.settings db = (db, .ok outcome) := by
  have succeeds : compiles JoinExample.database? JoinExample.planner { resultMode := .collect } = true := by
    decide +kernel
  obtain ⟨db, query, cache, given, compiled⟩ := exists_of_compiles succeeds
  have built := JoinExample.built given
  obtain ⟨lefts, rights, _, _, outcome, leftRows, rightRows, _, _, _, _, selected, ends⟩ :=
    collects_joined_rows JoinExample.plan_built .new compiled built.valid.indicator rfl (by decide) rfl rfl rfl
      (JoinExample.first db given) (JoinExample.second db given) (by decide) (by decide) built
  refine ⟨db, query, cache, given, compiled, outcome, ?_, ends⟩
  have all := JoinExample.answers given
  rw [JoinExample.answer?, leftRows, rightRows] at all
  exact Option.some.inj ((selected JoinExample.apart).symm.trans all)

end QueryEngine
