import QueryEngine.Proofs.Pipeline.Joins
import QueryEngine.Proofs.Plan.Chains
import QueryEngine.Proofs.Plan.Supply

namespace QueryEngine

open Emit List ValueRow Option Ordering Datum Evaluation Lowering AttributeSet

variable {row first second : ValueRow} {keys : List (Scalar × Scalar)} {x y : Datum} {predicate : Scalar}

namespace ValueRow

/-- Whether all equalities are true of a row on the left and a row on the right. NULL is equal to nothing. -/
def equalOn? (keys : List (Scalar × Scalar)) (left right : ValueRow) : Option Bool := do
  let xs ← keys.mapM fun key => key.1.value? left
  let ys ← keys.mapM fun key => key.2.value? right
  allEqual? xs ys

/-- The pairs that a test holds of: for each row on the right, those with the rows on the left, all in their order. -/
def nestedLoop (test : ValueRow → ValueRow → Bool) (lefts rights : List ValueRow) : List ValueRow :=
  rights.flatMap fun right => (lefts.filter fun left => test left right).map fun left => left ++ right

theorem value?_append (first second : ValueRow) (a : Attribute) :
    value? (first ++ second) a = (first.value? a).or (second.value? a) := by
  unfold value?
  rw [find?_append, map_or]

theorem value?_eq_none : row.value? a = none ↔ ∀ item ∈ row, item.1.id ≠ a.id := by
  simp [value?]

theorem within_append_left (first second : ValueRow) : first.Within (first ++ second) := by
  intro a d found
  rw [value?_append, found, some_or]

theorem within_append_right (apart : ∀ a d, second.value? a = some d → first.value? a = none) :
    second.Within (first ++ second) := by
  intro a d found
  rw [value?_append, apart a d found, none_or, found]

variable {left left' right' : ValueRow}

/-- The values that are stored of a row are those of the whole row. -/
theorem tuple?_within (within : left'.Within left) (given : left'.tuple? (keys.map Prod.fst) carried = some stored) :
    keys.mapM (fun key => key.1.value? left) = some stored.1 ∧ left.selected? carried = some stored.2 := by
  obtain ⟨_, evaluated, given⟩ := bind_eq_some_iff.mp given
  obtain ⟨_, selected, ⟨⟩⟩ := bind_eq_some_iff.mp given
  refine ⟨?_, (within.on carried).selected? selected⟩
  rw [mapM_map, mapM_eq_some_iff] at evaluated
  exact mapM_eq_some_iff.mpr (evaluated.imp fun _ _ gives => within.value? gives)

/-- A row that is handed on has the values of the pair where the attribute is carried or the left row lacks it. -/
theorem joined_withinOn (within : right'.Within right) (selected : left.selected? carried = some handed)
    (covers : ∀ a ∈ selection, (∃ c ∈ carried, c.id = a.id) ∨ left.value? a = none) :
    (right'.joined carried handed).WithinOn selection (left ++ right) := by
  intro a member d found
  have stored := mapM_eq_some_iff.mp selected
  rw [joined, value?_append, or_eq_some_iff] at found
  rw [value?_append]
  rcases found with here | ⟨absent, there⟩
  · obtain ⟨⟨c, d'⟩, first, same⟩ := map_eq_some_iff.mp here
    have number : c.id = a.id := by simpa using find?_some first
    have paired : left.value? c = some d' := by
      have member := mem_reverse.mp (mem_of_find?_eq_some first)
      exact (forall₂_zip stored member)
    have alike : left.value? a = left.value? c := by simp only [value?, number]
    rw [alike, paired, some_or, ← same]
  · have lacks : left.value? a = none := by
      refine (covers a member).resolve_left ?_
      rintro ⟨c, among, number⟩
      obtain ⟨i, inside, rfl⟩ := mem_iff_getElem.mp among
      have length := stored.length_eq
      have item : (carried[i], handed[i]) ∈ (carried.zip handed).reverse :=
        mem_reverse.mpr (mem_iff_getElem.mpr ⟨i, by simp; omega, by simp⟩)
      exact value?_eq_none.mp absent _ item number
    rw [lacks, none_or, within a d there]

/-- The rows that are handed on for a row on the right are its pairs in the nested loops, as far as the selection goes. -/
theorem matches?_nested (within : Forall₂ Within lefts' lefts) (right_within : right'.Within right)
    (covers : ∀ left ∈ lefts, ∀ a ∈ selection, (∃ c ∈ carried, c.id = a.id) ∨ left.value? a = none)
    (stored : lefts'.mapM (tuple? (keys.map Prod.fst) carried) = some tuples)
    (found : right'.matches? (keys.map Prod.snd) carried tuples = some out) :
    (∀ left ∈ lefts, ∃ equal, equalOn? keys left right = some equal) ∧ Forall₂ (WithinOn selection) out
      ((lefts.filter fun left => equalOn? keys left right = some true).map fun left => left ++ right) := by
  obtain ⟨values, evaluated, answers⟩ := bind_eq_some_iff.mp found
  obtain ⟨pieces, compared, ⟨⟩⟩ := bind_eq_some_iff.mp answers
  rw [mapM_map, mapM_eq_some_iff] at evaluated
  have values_eq : keys.mapM (fun key => key.2.value? right) = some values :=
    mapM_eq_some_iff.mpr (evaluated.imp fun _ _ gives => right_within.value? gives)
  clear found answers
  induction within generalizing tuples pieces with
  | nil =>
    cases stored
    cases compared
    exact ⟨nofun, .nil⟩
  | @cons left' left lefts' lefts here _ ih =>
    obtain ⟨_, tuples, first, others, rfl⟩ := mapM_cons_eq_some_iff.mp stored
    obtain ⟨_, pieces, answer, later, rfl⟩ := mapM_cons_eq_some_iff.mp compared
    obtain ⟨equal, compares, ⟨⟩⟩ := bind_eq_some_iff.mp answer
    obtain ⟨keys_eq, selected⟩ := tuple?_within here first
    have decided : equalOn? keys left right = some equal := by
      unfold equalOn?
      rw [keys_eq, bind_eq_bind, bind_some, values_eq]
      exact compares
    obtain ⟨rest, related⟩ := ih (fun other member => covers other (mem_cons_of_mem _ member)) others pieces
      later
    refine ⟨forall_mem_cons.mpr ⟨⟨equal, decided⟩, rest⟩, ?_⟩
    cases equal with
    | false => simpa [decided] using related
    | true =>
      rw [filter_cons_of_pos (by simpa using decided), map_cons]
      exact .cons (joined_withinOn right_within selected (covers left mem_cons_self)) related

/-- What the code of a join hands on is what nested loops give, as far as the selection goes. -/
theorem joined_nested (left_within : Forall₂ Within lefts' lefts) (right_within : Forall₂ Within rights' rights)
    (covers : ∀ left ∈ lefts, ∀ a ∈ selection, (∃ c ∈ carried, c.id = a.id) ∨ left.value? a = none)
    (stored : lefts'.mapM (tuple? (keys.map Prod.fst) carried) = some tuples)
    (found : rights'.mapM (matches? (keys.map Prod.snd) carried tuples) = some outs) :
    (∀ right ∈ rights, ∀ left ∈ lefts, ∃ equal, equalOn? keys left right = some equal) ∧
      Forall₂ (WithinOn selection) outs.flatten
        (nestedLoop (fun left right => equalOn? keys left right = some true) lefts rights) := by
  induction right_within generalizing outs with
  | nil =>
    cases found
    exact ⟨nofun, .nil⟩
  | cons here _ ih =>
    obtain ⟨_, outs, first, others, rfl⟩ := mapM_cons_eq_some_iff.mp found
    obtain ⟨decided, related⟩ := matches?_nested left_within here covers stored first
    obtain ⟨decided', related'⟩ := ih others
    exact ⟨forall_mem_cons.mpr ⟨decided, decided'⟩, rel_append related related'⟩

end ValueRow

theorem Evaluation.map_fst_ofOption (x? : Option α) : Option.map Prod.fst (ofOption x?) = x? := by
  cases x? <;> rfl

/-- Whether two values are equal that are not NULL. -/
theorem Datum.equal?_of_present (first : x.isNull = false) (second : y.isNull = false) :
    x.equal? y = (Option.map Prod.fst (x.order y)).map Ordering.isEq := by
  rw [equal?, unlessNull₂, first, second, Bool.or_false, if_neg Bool.false_ne_true, Datum.compare,
    value_bind]
  cases x.order y with
  | none => rfl
  | some order =>
    have isBool : decide (bool order.1.isEq = bool true) = order.1.isEq := by cases order.1.isEq <;> rfl
    exact congrArg some isBool

/-- Equality does not depend on the order of its sides. -/
theorem Datum.equal?_comm (x y : Datum) : x.equal? y = y.equal? x := by
  by_cases null : x.isNull || y.isNull
  · have null' : y.isNull || x.isNull := by rwa [Bool.or_comm]
    simp only [equal?, unlessNull₂, null, null', if_true]
  · simp only [Bool.or_eq_true, not_or, Bool.not_eq_true] at null
    rw [equal?_of_present null.1 null.2, equal?_of_present null.2 null.1]
    have text (a b : String) : (textOrder a b).isEq = (textOrder b a).isEq := by
      rw [Bool.eq_iff_iff, isEq_iff_eq_eq, isEq_iff_eq_eq, textOrder_eq_eq_iff, textOrder_eq_eq_iff, eq_comm]
    have number (a b : Int) : (Ord.compare a b).isEq = (Ord.compare b a).isEq := by
      rw [Bool.eq_iff_iff, isEq_iff_eq_eq, isEq_iff_eq_eq, compare_eq_iff_eq, compare_eq_iff_eq, eq_comm]
    cases x <;> cases y <;> try rfl
    case bool.bool a b => cases a <;> cases b <;> rfl
    case integer.integer a b | date.date a b => exact congrArg some (number a.toInt b.toInt)
    case timestamp.timestamp a b => exact congrArg some (number a.toInt b.toInt)
    case char.char a b | varchar.varchar a b => exact congrArg some (text a b)
    case numeric.numeric a p b q =>
      have widest : max q p = max p q := by
        change (if q ≤ p then p else q) = if p ≤ q then q else p
        split <;> split
        · exact UInt8.le_antisymm ‹_› ‹_›
        · rfl
        · rfl
        · exact absurd (UInt8.le_total p q) (by tauto)
      simp only [order, value_bind, widest]
      cases Option.map Prod.fst (Evaluation.rescale a.toInt p (max p q)) <;>
        cases Option.map Prod.fst (Evaluation.rescale b.toInt q (max p q)) <;> try rfl
      exact congrArg some (number _ _)

theorem Scalar.value?_compare (mode : Comparison) (lhs rhs : Scalar) (row : ValueRow) :
    (Scalar.compare mode lhs rhs).value? row = (lhs.value? row).bind fun x => (rhs.value? row).bind fun y =>
      Option.map Prod.fst (x.unlessNull₂ y (Datum.compare mode)) := by
  unfold value?
  rw [evaluate, value_bind]
  simp only [value_bind]

theorem Scalar.value?_and (lhs rhs : Scalar) (row : ValueRow) :
    (Scalar.and lhs rhs).value? row = (lhs.value? row).bind fun x => (rhs.value? row).bind fun y =>
      x.truth?.bind fun p => y.truth?.bind fun q => some (ofTruth (conjunction p q)) := by
  unfold value?
  rw [evaluate, value_bind]
  simp only [value_bind, connect, map_fst_ofOption]
  rfl

/-- An equality has one of the three truth values. -/
theorem Datum.truth?_of_equal? (given : x.equal? y = some equal) :
    ∃ d truth, Option.map Prod.fst (x.unlessNull₂ y (Datum.compare .equal)) = some d ∧ d.truth? = some truth ∧
      (truth = some true ↔ equal = true) := by
  by_cases null : x.isNull || y.isNull
  · simp only [equal?, unlessNull₂, null, if_true] at given ⊢
    cases given
    exact ⟨.null, none, rfl, rfl, by decide⟩
  · simp only [unlessNull₂, null] at given ⊢
    simp only [Bool.or_eq_true, not_or, Bool.not_eq_true] at null
    rw [equal?_of_present null.1 null.2] at given
    obtain ⟨order, ordered, rfl⟩ := map_eq_some_iff.mp given
    refine ⟨.bool order.isEq, some order.isEq, ?_, rfl, by rw [some.injEq]⟩
    rw [if_neg Bool.false_ne_true, compare, value_bind, ordered]
    rfl

/-- A conjunction is true where all its equalities are. -/
theorem Scalar.value?_conjunction {pairs : List (Scalar × Scalar)} {bits : List Bool}
    (isPairs : predicate.equalityPairs? = some pairs)
    (each : pairs.mapM (fun pair => do (← pair.1.value? row).equal? (← pair.2.value? row)) = some bits) :
    ∃ d truth, predicate.value? row = some d ∧ d.truth? = some truth ∧ (truth = some true ↔ ∀ bit ∈ bits, bit = true) := by
  fun_induction equalityPairs? predicate generalizing pairs bits with
  | case1 lhs rhs =>
    cases isPairs
    obtain ⟨_, given, ⟨⟩⟩ := bind_eq_some_iff.mp each
    obtain ⟨x, first, given⟩ := bind_eq_some_iff.mp given
    obtain ⟨y, second, given⟩ := bind_eq_some_iff.mp given
    obtain ⟨d, truth, compared, known, same⟩ := Datum.truth?_of_equal? given
    refine ⟨d, truth, ?_, known, by simpa using same⟩
    rw [value?_compare, first, bind_some, second, bind_some, compared]
  | case2 lhs rhs first second =>
    simp only [bind_eq_bind, bind_eq_some_iff, some.injEq] at isPairs
    obtain ⟨_, isLeft, _, isRight, rfl⟩ := isPairs
    rw [mapM_append] at each
    obtain ⟨bits, eachLeft, each⟩ := bind_eq_some_iff.mp each
    obtain ⟨_, eachRight, ⟨⟩⟩ := bind_eq_some_iff.mp each
    obtain ⟨d, p, given, known, holds⟩ := first isLeft eachLeft
    obtain ⟨_, q, given', known', holds'⟩ := second isRight eachRight
    refine ⟨ofTruth (conjunction p q), conjunction p q, ?_, ?_, ?_⟩
    · rw [value?_and, given, bind_some, given', bind_some, known, bind_some, known', bind_some]
    · cases conjunction p q <;> rfl
    · rw [forall_mem_append, ← holds, ← holds']
      rcases p with _ | _ | _ <;> rcases q with _ | _ | _ <;> simp [conjunction]
  | case3 => cases isPairs

/-- Turning an equality round makes no difference to the pair it is about. -/
theorem Lowering.orient?_cases (oriented : orient? left right pair = some key) : key = pair ∨ key = pair.swap := by
  unfold orient? at oriented
  dsimp only at oriented
  split at oriented
  · cases oriented
    exact Or.inl rfl
  · split at oriented
    · cases oriented
      exact Or.inr rfl
    · cases oriented

namespace ValueRow

variable {left right : ValueRow}

/-- The equalities for a pair of rows that have no attribute in common, on both rows together. -/
theorem bits_of_allEqual?
    (oriented : Forall₂ (fun pair key => orient? sideLeft sideRight pair = some key) pairs keys)
    (apart : ∀ a d, right.value? a = some d → left.value? a = none) {xs ys : List Datum}
    (first : Forall₂ (fun key x => key.1.value? left = some x) keys xs)
    (second : Forall₂ (fun key y => key.2.value? right = some y) keys ys) (compared : allEqual? xs ys = some equal) :
    ∃ bits, pairs.mapM (fun pair => do (← pair.1.value? (left ++ right)).equal? (← pair.2.value? (left ++ right))) = some bits ∧
      (equal = true ↔ ∀ bit ∈ bits, bit = true) := by
  induction oriented generalizing xs ys equal with
  | nil =>
    cases first
    cases second
    cases compared
    exact ⟨[], rfl, by simp⟩
  | @cons pair key pairs keys here _ ih =>
    cases first with
    | @cons _ x _ xs atLeft first =>
      cases second with
      | @cons _ y _ ys atRight second =>
        obtain ⟨bit, compares, answers⟩ := bind_eq_some_iff.mp compared
        obtain ⟨_, later, ⟨⟩⟩ := bind_eq_some_iff.mp answers
        obtain ⟨bits, others, holds⟩ := ih first second later
        have inLeft := (within_append_left left right).value? atLeft
        have inRight := (within_append_right apart).value? atRight
        refine ⟨bit :: bits, ?_, by rw [Bool.and_eq_true, forall_mem_cons, holds]⟩
        rw [mapM_cons, others]
        rcases orient?_cases here with rfl | rfl
        · rw [inLeft, inRight]
          exact congrArg (fun b => b.bind fun bit => some (bit :: bits)) compares
        · rw [Prod.fst_swap] at inLeft
          rw [Prod.snd_swap] at inRight
          rw [inLeft, inRight]
          exact congrArg (fun b => b.bind fun bit => some (bit :: bits)) ((equal?_comm y x).trans compares)

/-- For rows that have no attribute in common, the equalities are those of the predicate on the pair. -/
theorem predicate_iff_equalOn? (isPairs : predicate.equalityPairs? = some pairs)
    (oriented : pairs.mapM (orient? sideLeft sideRight) = some keys)
    (apart : ∀ a d, right.value? a = some d → left.value? a = none) (decided : equalOn? keys left right = some equal) :
    predicate.value? (left ++ right) = some (.bool true) ↔ equal = true := by
  obtain ⟨_, first, decided⟩ := bind_eq_some_iff.mp decided
  obtain ⟨_, second, compared⟩ := bind_eq_some_iff.mp decided
  obtain ⟨_, each, holds⟩ := bits_of_allEqual? (mapM_eq_some_iff.mp oriented) apart (mapM_eq_some_iff.mp first)
    (mapM_eq_some_iff.mp second) compared
  obtain ⟨d, _, given, known, same⟩ := Scalar.value?_conjunction isPairs each
  rw [given, holds, ← same, some.injEq]
  constructor
  · rintro rfl
    cases known
    rfl
  · rintro rfl
    cases d <;> cases known
    rfl

end ValueRow

theorem Mapping.extend?_items (given : Mapping.extend? whole mappings row = some out) (member : item ∈ out) :
    item ∈ row ∨ item.1 ∈ mappings.map Mapping.result := by
  induction mappings generalizing row with
  | nil =>
    cases given
    exact Or.inl member
  | cons mapping mappings ih =>
    obtain ⟨d, _, given⟩ := bind_eq_some_iff.mp given
    rcases ih given with earlier | later
    · rcases mem_cons.mp earlier with rfl | earlier
      · exact Or.inr mem_cons_self
      · exact Or.inl earlier
    · exact Or.inr (mem_cons_of_mem _ later)

namespace Plan

variable {plan : Plan} {mode : ResultMode} {source : TableScan} {id : Nat} {steps : List RowStep}

theorem operator_ok (found : plan.operator id = .ok op) : ∃ node, plan.nodes[id]? = some node ∧ node.op = op := by
  unfold operator at found
  cases isNode : plan.node id with
  | error cause =>
    rw [isNode] at found
    cases found
  | ok node =>
    rw [isNode] at found
    cases found
    exact ⟨node, node_ok.mp isNode, rfl⟩

theorem operator_eq {node : PlanNode} (found : plan.operator id = .ok op) (atNode : plan.nodes[id]? = some node) :
    node.op = op := by
  obtain ⟨_, atNode', same⟩ := operator_ok found
  rw [atNode, some.injEq] at atNode'
  rw [atNode', same]

/-- What an operator is lowered to, by what it is. -/
def Lowered (plan : Plan) (mode : ResultMode) (id : Nat) : Operator → Physical → Prop
  | .scan source, tree => tree = source.pruned (plan.requiredSet id)
  | .select child predicate, tree => ∃ below, plan.Lowers mode child below ∧ tree = .select below predicate
  | .map child mappings, tree => ∃ below, plan.Lowers mode child below ∧ tree = .map below mappings
  | .join left right predicate _, tree => ∃ pairs keys first second, predicate.equalityPairs? = some pairs ∧
      pairs.mapM (Lowering.orient? (plan.producedSet left) (plan.producedSet right)) = some keys ∧
      plan.Lowers mode left first ∧ plan.Lowers mode right second ∧
      tree = .join first second keys ((plan.expectedSet id).inter (plan.producedSet left)).items
  | .group child aggregates, tree => ∃ below, plan.Lowers mode child below ∧ tree = .group below aggregates
  | .insert table types values _, tree => tree = .insert table types values
  | .update child table rowId assignments _, tree =>
      ∃ below, plan.Lowers mode child below ∧ tree = .update below table rowId assignments
  | .delete child table rowId _, tree => ∃ below, plan.Lowers mode child below ∧ tree = .delete below table rowId
  | .result child selection, tree => ∃ below, plan.Lowers mode child below ∧ tree = match mode with
      | .print => .print below selection
      | .collect => .collect below selection

theorem Lowers.lowered (lowers : plan.Lowers mode id tree) (found : plan.operator id = .ok op) :
    plan.Lowered mode id op tree := by
  cases lowers with
  | scan atNode isOp | insert atNode isOp =>
    rw [← operator_eq found atNode, isOp]
    rfl
  | select atNode isOp below | map atNode isOp below | group atNode isOp below | update atNode isOp below
  | delete atNode isOp below | result atNode isOp below =>
    rw [← operator_eq found atNode, isOp]
    exact ⟨_, below, rfl⟩
  | join atNode isOp isPairs oriented first second =>
    rw [← operator_eq found atNode, isOp]
    exact ⟨_, _, _, _, isPairs, oriented, first, second, rfl⟩

/-- A chain is lowered to a chain over a scan of those columns that are required. -/
theorem Chain.lowers (chain : plan.Chain source id steps) (lowers : plan.Lowers mode id tree) :
    ∃ required, tree = RowStep.above (source.pruned required) steps := by
  induction chain generalizing tree with
  | scan isScan => exact ⟨_, lowers.lowered isScan⟩
  | select isSelect _ ih =>
    obtain ⟨below, inner, rfl⟩ := lowers.lowered isSelect
    obtain ⟨required, rfl⟩ := ih inner
    exact ⟨required, rfl⟩
  | map isMap _ ih =>
    obtain ⟨below, inner, rfl⟩ := lowers.lowered isMap
    obtain ⟨required, rfl⟩ := ih inner
    exact ⟨required, rfl⟩

/-- A row that has gone through a chain has no attributes but those the chain produces. -/
theorem Chain.produced_run (forest : plan.Forest) (chain : plan.Chain source id steps)
    (scanned : ∀ item ∈ whole, item.1 ∈ source.columns.map Prod.snd ++ [source.rowId])
    (ran : RowStep.run? steps whole = some (some row)) : ∀ item ∈ row, (plan.producedSet id).Has item.1.id := by
  induction chain generalizing row with
  | scan isScan =>
    obtain ⟨node, found, isOp⟩ := operator_ok isScan
    cases ran
    intro item member
    rw [forest.producedSet_eq found, isOp]
    exact has_ofList_of_mem (scanned item member)
  | select isSelect _ ih =>
    obtain ⟨node, found, isOp⟩ := operator_ok isSelect
    obtain ⟨answer, before, ran⟩ := bind_eq_some_iff.mp ran
    cases answer with
    | none => cases ran
    | some row' =>
      obtain ⟨d, _, same⟩ := map_eq_some_iff.mp ran
      split at same <;> cases same
      rw [forest.producedSet_eq found, isOp]
      exact ih before
  | map isMap _ ih =>
    obtain ⟨node, found, isOp⟩ := operator_ok isMap
    obtain ⟨answer, before, ran⟩ := bind_eq_some_iff.mp ran
    cases answer with
    | none => cases ran
    | some row' =>
      obtain ⟨row, extended, ⟨⟩⟩ := map_eq_some_iff.mp ran
      intro item member
      rw [forest.producedSet_eq found, isOp]
      refine has_union.mpr ?_
      exact (Mapping.extend?_items extended member).imp (ih before item) has_ofList_of_mem

/-- The rows of a chain have no attributes but those it produces. -/
theorem Chain.produced (forest : plan.Forest) (chain : plan.Chain source id steps)
    (given : source.rows? db steps = some rows) (member : row ∈ rows) :
    ∀ item ∈ row, (plan.producedSet id).Has item.1.id := by
  obtain ⟨t, _, given⟩ := bind_eq_some_iff.mp given
  obtain ⟨_, all, ⟨⟩⟩ := bind_eq_some_iff.mp given
  obtain ⟨_, _, ran⟩ := mem_of_mapM all (reduceOption_mem_iff.mp member)
  obtain ⟨_, read, ran⟩ := bind_eq_some_iff.mp ran
  refine chain.produced_run forest (fun item scanned => ?_) ran
  obtain ⟨_, _, read⟩ := bind_eq_some_iff.mp read
  obtain ⟨_, columns, ⟨⟩⟩ := bind_eq_some_iff.mp read
  rcases mem_cons.mp scanned with rfl | scanned
  · simp
  · obtain ⟨_, among, here⟩ := mem_of_mapM columns (mem_reverse.mp scanned)
    obtain ⟨d, _, rfl⟩ := map_eq_some_iff.mp here
    exact mem_append_left _ (mem_map_of_mem among)

/-- A chain over a table of the database, with attributes of the types that their numbers stand for. -/
structure TypedChain (plan : Plan) (types : Nat → Shape) (db : Database) (source : TableScan) (id : Nat)
    (steps : List RowStep) : Prop where
  chain : plan.Chain source id steps
  fits : source.Fits types db
  typed : ∀ step ∈ steps, step.Typed types

variable {host : Host} {settings : Settings}

theorem TypedChain.produces (input : plan.TypedChain types db source id steps) (valid : db.Valid)
    (indicator : host.program.encoding = .indicator) (lowers : plan.Lowers mode id tree) :
    host.Produces types db settings tree.produce
      (fun out => ∃ rows, source.rows? db steps = some rows ∧ Forall₂ ValueRow.Within out rows) maxRows 0 := by
  obtain ⟨required, rfl⟩ := input.chain.lowers lowers
  exact input.fits.produces valid indicator required steps input.typed

/-- The sides of the keys of a join have the types that their attributes stand for. -/
theorem keys_typed (typed : predicate.Typed types) (isPairs : predicate.equalityPairs? = some pairs)
    (oriented : pairs.mapM (orient? sideLeft sideRight) = some keys) :
    (∀ key ∈ keys.map Prod.fst, key.Typed types) ∧ ∀ key ∈ keys.map Prod.snd, key.Typed types := by
  have reads {key : Scalar × Scalar} (member : key ∈ keys) : ∃ pair ∈ pairs, orient? sideLeft sideRight pair = some key :=
    mem_of_mapM oriented member
  constructor
  all_goals
    rintro _ member a among
    obtain ⟨key, isKey, rfl⟩ := mem_map.mp member
    obtain ⟨pair, isPair, turned⟩ := reads isKey
  · exact typed a (equalityPairs?_reads isPairs isPair ((orient?_reads turned).1 a among).2)
  · exact typed a (equalityPairs?_reads isPairs isPair ((orient?_reads turned).2 a among).2)

/-- The code of a join of chains hands on what nested loops over their rows give, as far as the parent needs it. -/
theorem Lowers.join_produces (forest : plan.Forest) (lowers : plan.Lowers mode id tree)
    (join : plan.operator id = .ok (.join left right predicate .hash)) (expected : plan.expectedSet id = .ofList selection)
    (first : plan.TypedChain types db leftSource left leftSteps) (second : plan.TypedChain types db rightSource right rightSteps)
    (compares : predicate.Typed types) (selected : ∀ a ∈ selection, a.Typed types) (valid : db.Valid)
    (pool : settings.poolBlock + 16 < Pool.sizeLimit) :
    ∃ pairs keys, predicate.equalityPairs? = some pairs ∧
      pairs.mapM (orient? (plan.producedSet left) (plan.producedSet right)) = some keys ∧
      ∀ host : Host, host.program.encoding = .indicator → host.Produces types db settings tree.produce (fun out =>
        ∃ lefts rights, leftSource.rows? db leftSteps = some lefts ∧ rightSource.rows? db rightSteps = some rights ∧
          (∀ right ∈ rights, ∀ left ∈ lefts, ∃ equal, equalOn? keys left right = some equal) ∧
          Forall₂ (ValueRow.WithinOn selection) out
            (nestedLoop (fun left right => equalOn? keys left right = some true) lefts rights))
        (maxRows * maxRows) (joinNeed settings maxRows) := by
  obtain ⟨pairs, keys, leftTree, rightTree, isPairs, oriented, leftLowers, rightLowers, rfl⟩ := lowers.lowered join
  refine ⟨pairs, keys, isPairs, oriented, fun host indicator => ?_⟩
  obtain ⟨leftTyped, rightTyped⟩ := keys_typed compares isPairs oriented
  set carried := ((plan.expectedSet id).inter (plan.producedSet left)).items with isCarried
  have carriedTyped (a : Attribute) (member : a ∈ carried) : a.Typed types := by
    rw [isCarried, expected] at member
    exact selected a (mem_ofList (mem_filter.mp member).1)
  have produces := Host.Produces.join (first.produces valid indicator leftLowers) (second.produces valid indicator rightLowers)
    (fun next each => leftTree.feeds_growth next fun held _ => each held)
    (fun next each => rightTree.feeds_growth next fun held _ => each held) indicator leftTyped rightTyped carriedTyped
    (by decide) pool
  refine produces.weaken ?_
  rintro out ⟨_, _, _, _, ⟨lefts, leftRows, leftWithin⟩, ⟨rights, rightRows, rightWithin⟩, stored, found, rfl⟩
  have covers (row : ValueRow) (member : row ∈ lefts) (a : Attribute) (isSelected : a ∈ selection) :
      (∃ c ∈ carried, c.id = a.id) ∨ row.value? a = none := by
    by_cases produced : (plan.producedSet left).Has a.id
    · refine Or.inl (has_inter.mpr ⟨?_, produced⟩)
      rw [expected]
      exact has_ofList_of_mem isSelected
    · refine Or.inr (value?_eq_none.mpr fun item among same => produced ?_)
      rw [← same]
      exact first.chain.produced forest leftRows member item among
  obtain ⟨decided, related⟩ := joined_nested leftWithin rightWithin covers stored found
  exact ⟨lefts, rights, leftRows, rightRows, decided, related⟩

/-- For chains with no attribute in common, the loops test the predicate on the pairs. -/
theorem nestedLoop_predicate (forest : plan.Forest) (first : plan.Chain leftSource left leftSteps)
    (second : plan.Chain rightSource right rightSteps) (isPairs : predicate.equalityPairs? = some pairs)
    (oriented : pairs.mapM (orient? (plan.producedSet left) (plan.producedSet right)) = some keys)
    (apart : ∀ n, (plan.producedSet left).Has n → ¬(plan.producedSet right).Has n)
    (leftRows : leftSource.rows? db leftSteps = some lefts) (rightRows : rightSource.rows? db rightSteps = some rights)
    (decided : ∀ right ∈ rights, ∀ left ∈ lefts, ∃ equal, equalOn? keys left right = some equal) :
    nestedLoop (fun left right => equalOn? keys left right = some true) lefts rights =
      nestedLoop (fun left right => predicate.value? (left ++ right) = some (.bool true)) lefts rights := by
  refine flatMap_congr fun r inRights => congrArg _ (filter_congr fun l inLefts => ?_)
  obtain ⟨_, given⟩ := decided r inRights l inLefts
  have distinct (a : Attribute) (d : Datum) (found : r.value? a = some d) : l.value? a = none := by
    refine value?_eq_none.mpr fun item among same => ?_
    obtain ⟨other, inRow, _⟩ := map_eq_some_iff.mp found
    have number : other.1.id = a.id := by simpa using find?_some inRow
    refine apart a.id (same ▸ first.produced forest leftRows inLefts item among) ?_
    exact number ▸ second.produced forest rightRows inRights other (mem_of_find?_eq_some inRow)
  rw [decide_eq_decide, given, some.injEq]
  exact (predicate_iff_equalOn? isPairs oriented distinct given).symm

end Plan

end QueryEngine
