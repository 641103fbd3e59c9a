import QueryEngine.Plan.Lowering
import QueryEngine.Proofs.Plan.Sets

namespace QueryEngine

open List

variable {ids : List Nat} {other root id limit : Nat} {plan : Plan} {cache cache' : SetCache} {mode : ResultMode}

namespace Plan

open Sets AttributeSet

variable {child : Nat} {node : PlanNode}

/-- `id` is `top` or below it. -/
inductive Under (plan : Plan) (top : Nat) : Nat → Prop
  | top : Under plan top top
  | input {id child : Nat} {node : PlanNode} : plan.nodes[id]? = some node → child ∈ node.op.children →
      Under plan top id → Under plan top child

theorem Under.of_input (found : plan.nodes[id]? = some node) (among : child ∈ node.op.children)
    (under : plan.Under child other) : plan.Under id other := by
  induction under with
  | top => exact .input found among .top
  | input found' among' _ ih => exact .input found' among' ih

theorem Under.eq_or_input (under : plan.Under id other) : other = id ∨
    ∃ node child, plan.nodes[id]? = some node ∧ child ∈ node.op.children ∧ plan.Under child other := by
  induction under with
  | top => exact Or.inl rfl
  | @input mid child node found among _ earlier =>
    rcases earlier with rfl | ⟨first, next, atFirst, among', under⟩
    · exact Or.inr ⟨node, child, found, among, .top⟩
    · exact Or.inr ⟨first, next, atFirst, among', .input found among under⟩

/-- The inputs of an operator, if it has any, produce what it requires. -/
def Satisfied (plan : Plan) (id : Nat) : Prop :=
  ∀ node, plan.nodes[id]? = some node → node.op.children ≠ [] → ∀ n, (plan.requiredSet id).Has n →
    ∃ child ∈ node.op.children, (plan.producedSet child).Has n

theorem Forest.answers_producedByAll (forest : plan.Forest) (each : ∀ id ∈ ids, id < plan.size) (set : AttributeSet) :
    Answers plan (plan.producedByAll ids set)
      (ids.foldl (fun set id => set.union (plan.producedSet id)) set) := by
  induction ids generalizing set with
  | nil => exact .pure set
  | cons id ids ih =>
    refine .bind (forest.answers_produced (each id mem_cons_self)) ?_
    exact ih (fun other member => each other (mem_cons_of_mem _ member)) _

theorem has_foldl_union {produced : Nat → AttributeSet} {set : AttributeSet} {n : Nat} :
    (ids.foldl (fun set id => set.union (produced id)) set).Has n ↔ set.Has n ∨ ∃ id ∈ ids, (produced id).Has n := by
  induction ids generalizing set with
  | nil => simp
  | cons id ids ih =>
    rw [foldl_cons, ih, has_union, exists_mem_cons_iff, or_assoc]

theorem Forest.input_lt_size (forest : plan.Forest) (found : plan.nodes[id]? = some node)
    (among : child ∈ node.op.children) : child < plan.size := by
  obtain ⟨_, atChild, _⟩ := forest.input_node found among
  exact (Array.getElem?_eq_some_iff.mp atChild).1

theorem satisfied_of_leaf (found : plan.nodes[id]? = some node) (leaf : node.op.children = [])
    (under : plan.Under id other) : plan.Satisfied other := by
  rcases under.eq_or_input with rfl | ⟨node', _, found', among, _⟩
  · intro node' found' inputs
    rw [found, Option.some.injEq] at found'
    subst found'
    exact absurd leaf inputs
  · rw [found, Option.some.injEq] at found'
    subst found'
    rw [leaf] at among
    exact absurd among not_mem_nil

/-- An operator has inputs, and `missing` is what it requires and none of them produces, which is not nothing. -/
structure Lacks (plan : Plan) (id : Nat) (node : PlanNode) (missing : AttributeSet) : Prop where
  found : plan.nodes[id]? = some node
  inputs : node.op.children ≠ []
  meaning : ∀ n, missing.Has n ↔
    (plan.requiredSet id).Has n ∧ ∀ child ∈ node.op.children, ¬(plan.producedSet child).Has n
  some : ∃ n, missing.Has n

theorem Lacks.not_satisfied (lacks : plan.Lacks id node missing) : ¬plan.Satisfied id := by
  intro satisfied
  obtain ⟨n, has⟩ := lacks.some
  obtain ⟨required, none⟩ := (lacks.meaning n).mp has
  obtain ⟨child, among, produced⟩ := satisfied node lacks.found lacks.inputs n required
  exact none child among produced

/-- What a check says of the operators `among`: all are satisfied, or it names one that lacks something. -/
def Decides (plan : Plan) (among : Nat → Prop) (check : Sets Unit) : Prop :=
  ∀ cache : SetCache, cache.Sound plan →
    (∃ cache', check cache = .ok () cache' ∧ cache'.Sound plan ∧ ∀ id, among id → plan.Satisfied id) ∨
      ∃ id node missing cache', among id ∧ plan.Lacks id node missing ∧
        check cache = .error (.unsatisfied node.op.name id missing) cache'

theorem Decides.bind {next : α → Sets Unit} (answers : Answers plan question answer) (rest : plan.Decides among (next answer)) :
    plan.Decides among (question >>= next) := by
  intro cache sound
  obtain ⟨cache', asked, sound'⟩ := answers cache sound
  have same : (question >>= next) cache = next answer cache' := by simp only [Bind.bind, EStateM.bind, asked]
  rw [same]
  exact rest cache' sound'

theorem Decides.forM (each : ∀ id ∈ ids, plan.Decides (plan.Under id) (check id)) :
    plan.Decides (fun other => ∃ id ∈ ids, plan.Under id other) (ids.forM check) := by
  induction ids with
  | nil =>
    intro cache sound
    refine Or.inl ⟨cache, rfl, sound, ?_⟩
    rintro other ⟨id, ⟨⟩, _⟩
  | cons id ids ih =>
    intro cache sound
    change (∃ cache', (check id >>= fun _ => ids.forM check) cache = _ ∧ _) ∨ ∃ _ _ _ _, _ ∧ _ ∧
      (check id >>= fun _ => ids.forM check) cache = _
    simp only [Bind.bind, EStateM.bind]
    rcases each id mem_cons_self cache sound with
      ⟨cache1, first, sound1, here⟩ | ⟨other, node, missing, cache1, under, lacks, first⟩
    · simp only [first]
      rcases ih (fun other member => each other (mem_cons_of_mem _ member)) cache1 sound1 with
        ⟨cache', rest, sound', later⟩ | ⟨other, node, missing, cache', ⟨next, member, under⟩, lacks, rest⟩
      · refine Or.inl ⟨cache', rest, sound', ?_⟩
        rintro other ⟨next, member, under⟩
        rcases mem_cons.mp member with rfl | member
        · exact here other under
        · exact later other ⟨next, member, under⟩
      · exact Or.inr ⟨other, node, missing, cache', ⟨next, mem_cons_of_mem _ member, under⟩, lacks, rest⟩
    · simp only [first]
      exact Or.inr ⟨other, node, missing, cache1, ⟨id, mem_cons_self, under⟩, lacks, rfl⟩

theorem Forest.decides_verifyBelow (forest : plan.Forest) (enough : id < limit) (bound : id < plan.size) :
    plan.Decides (plan.Under id) (plan.verifyBelow limit id) := by
  -- An input comes before its operator, so the limit suffices down to the scans.
  induction limit generalizing id with
  | zero => omega
  | succ limit ih =>
    obtain ⟨node, found⟩ := exists_node bound
    have each (child : Nat) (among : child ∈ node.op.children) := forest.input_lt_size found among
    have asked : Answers plan (ofExcept (plan.operator id)) node.op := by
      unfold operator
      rw [node_ok.mpr found]
      exact .pure _
    refine .bind asked ?_
    by_cases leaf : node.op.children = []
    · intro cache sound
      rw [if_pos (by simpa using leaf)]
      exact Or.inl ⟨cache, rfl, sound, fun other under => satisfied_of_leaf found leaf under⟩
    · rw [if_neg (by simpa using leaf)]
      refine .bind (forest.answers_producedByAll each .empty) (.bind (forest.answers_required bound) ?_)
      set missing := (plan.requiredSet id).diff
        (node.op.children.foldl (fun set id => set.union (plan.producedSet id)) .empty) with difference
      have meaning (n : Nat) : missing.Has n ↔
          (plan.requiredSet id).Has n ∧ ∀ child ∈ node.op.children, ¬(plan.producedSet child).Has n := by
        rw [difference, has_diff, has_foldl_union]
        simp only [has_empty, false_or, not_exists, not_and]
      by_cases nothing : missing.isEmpty
      · intro cache sound
        simp only [nothing, Bool.not_true, Bool.false_eq_true, if_false]
        have less (child : Nat) (among : child ∈ node.op.children) : child < limit := by
          have := (forest.input id node child found among).1
          omega
        have below := Decides.forM fun child among => ih (less child among) (each child among)
        have here : plan.Satisfied id := by
          intro node' found' _ n has
          rw [found, Option.some.injEq] at found'
          subst found'
          by_contra none
          push Not at none
          exact isEmpty_iff.mp nothing n ((meaning n).mpr ⟨has, none⟩)
        rcases below cache sound with ⟨cache', checked, sound', later⟩ |
          ⟨other, node', missing', cache', ⟨child, among, under⟩, lacks, checked⟩
        · refine Or.inl ⟨cache', checked, sound', fun other under => ?_⟩
          rcases under.eq_or_input with rfl | ⟨node', child, found', among, under⟩
          · exact here
          · rw [found, Option.some.injEq] at found'
            subst found'
            exact later other ⟨child, among, under⟩
        · exact Or.inr ⟨other, node', missing', cache', .of_input found among under, lacks, checked⟩
      · intro cache sound
        refine Or.inr ⟨id, node, missing, cache, .top, ⟨found, leaf, meaning, ?_⟩, ?_⟩
        · by_contra none
          push Not at none
          exact nothing (isEmpty_iff.mpr none)
        · simp only [nothing, Bool.not_false, if_true]
          rfl

theorem Forest.decides_verify (forest : plan.Forest) (top : plan.root = some root) :
    plan.Decides (plan.Under root) plan.verify := by
  have bound := forest.root root top
  unfold verify
  rw [top]
  exact forest.decides_verifyBelow bound bound

/-- The operators of a plan that passes its check are given what they require. -/
theorem Forest.satisfied_of_verify (forest : plan.Forest) (sound : cache.Sound plan) (top : plan.root = some root)
    (verified : plan.verify cache = .ok () cache') :
    cache'.Sound plan ∧ ∀ id, plan.Under root id → plan.Satisfied id := by
  rcases forest.decides_verify top cache sound with ⟨after, checked, sound', satisfied⟩ |
    ⟨_, _, _, after, _, _, checked⟩
  · rw [verified] at checked
    cases checked
    exact ⟨sound', satisfied⟩
  · rw [verified] at checked
    cases checked

/-- The physical operators that stand for an operator and all below it. -/
inductive Lowers (plan : Plan) (mode : ResultMode) : Nat → Physical → Prop
  | scan {id : Nat} {node : PlanNode} {source : TableScan} : plan.nodes[id]? = some node → node.op = .scan source →
      Lowers plan mode id (.scan source.table
        (source.columns.filter fun column => (plan.requiredSet id).contains column.2)
        (if (plan.requiredSet id).contains source.rowId then some source.rowId else none) source.branch)
  | select {id child : Nat} {node : PlanNode} {predicate : Scalar} {tree : Physical} : plan.nodes[id]? = some node →
      node.op = .select child predicate → Lowers plan mode child tree → Lowers plan mode id (.select tree predicate)
  | map {id child : Nat} {node : PlanNode} {mappings : List Mapping} {tree : Physical} : plan.nodes[id]? = some node →
      node.op = .map child mappings → Lowers plan mode child tree → Lowers plan mode id (.map tree mappings)
  | join {id left right : Nat} {node : PlanNode} {predicate : Scalar} {pairs keys : List (Scalar × Scalar)}
      {first second : Physical} : plan.nodes[id]? = some node → node.op = .join left right predicate .hash →
      predicate.equalityPairs? = some pairs →
      pairs.mapM (Lowering.orient? (plan.producedSet left) (plan.producedSet right)) = some keys →
      Lowers plan mode left first → Lowers plan mode right second →
      Lowers plan mode id (.join first second keys ((plan.expectedSet id).inter (plan.producedSet left)).items)
  | group {id child : Nat} {node : PlanNode} {aggregates : List Aggregate} {tree : Physical} :
      plan.nodes[id]? = some node → node.op = .group child aggregates → Lowers plan mode child tree →
      Lowers plan mode id (.group tree aggregates)
  | insert {id branch : Nat} {node : PlanNode} {table : String} {types : List ValueType} {values : List Scalar} :
      plan.nodes[id]? = some node → node.op = .insert table types values branch →
      Lowers plan mode id (.insert table types values)
  | update {id child branch : Nat} {node : PlanNode} {table : String} {rowId : Attribute}
      {assignments : List Assignment} {tree : Physical} : plan.nodes[id]? = some node →
      node.op = .update child table rowId assignments branch → Lowers plan mode child tree →
      Lowers plan mode id (.update tree table rowId assignments)
  | delete {id child branch : Nat} {node : PlanNode} {table : String} {rowId : Attribute} {tree : Physical} :
      plan.nodes[id]? = some node → node.op = .delete child table rowId branch → Lowers plan mode child tree →
      Lowers plan mode id (.delete tree table rowId)
  | result {id child : Nat} {node : PlanNode} {selection : List Attribute} {tree : Physical} :
      plan.nodes[id]? = some node → node.op = .result child selection → Lowers plan mode child tree →
      Lowers plan mode id (match mode with
        | .print => .print tree selection
        | .collect => .collect tree selection)

end Plan

namespace Lowering

open Sets Plan

theorem ask_ok (answers : Answers plan question answer) (sound : cache.Sound plan)
    (asked : ask question cache = .ok x cache') : x = answer ∧ cache'.Sound plan := by
  unfold ask at asked
  split at asked
  · cases asked
    exact answers.unique sound (by assumption)
  · cases asked

theorem joinKeys_ok {keys : List (Scalar × Scalar)} (forest : plan.Forest) (first : left < plan.size) (second : right < plan.size)
    (sound : cache.Sound plan) (chosen : joinKeys plan left right predicate cache = .ok keys cache') :
    cache'.Sound plan ∧
      ∃ pairs, predicate.equalityPairs? = some pairs ∧
        pairs.mapM (orient? (plan.producedSet left) (plan.producedSet right)) = some keys := by
  have fails {keys : List (Scalar × Scalar)} {cache : SetCache} : failJoin predicate cache ≠ .ok keys cache' := by
    unfold failJoin
    cases predicate.text? <;> exact fun ok => by cases ok
  unfold joinKeys at chosen
  cases isPairs : predicate.equalityPairs? with
  | none =>
    rw [isPairs] at chosen
    exact absurd chosen fails
  | some pairs =>
    rw [isPairs] at chosen
    obtain ⟨_, _, asked, rest⟩ := bind_ran chosen
    obtain ⟨rfl, sound1⟩ := ask_ok (forest.answers_produced first) sound asked
    obtain ⟨_, _, asked, rest⟩ := bind_ran rest
    obtain ⟨rfl, sound2⟩ := ask_ok (forest.answers_produced second) sound1 asked
    cases oriented : pairs.mapM (orient? (plan.producedSet left) (plan.producedSet right)) with
    | none =>
      rw [oriented] at rest
      exact absurd rest fails
    | some keys' =>
      rw [oriented] at rest
      cases rest
      exact ⟨sound2, pairs, rfl, oriented⟩

theorem below_ok (forest : plan.Forest) (bound : id < plan.size) (sound : cache.Sound plan)
    (lowered : below plan mode limit id cache = .ok tree cache') : cache'.Sound plan ∧ plan.Lowers mode id tree := by
  induction limit generalizing id cache cache' tree with
  | zero => cases lowered
  | succ limit ih =>
    obtain ⟨node, found⟩ := exists_node bound
    have asked : Answers plan (MonadExcept.ofExcept (plan.operator id)) node.op := by
      unfold operator
      rw [node_ok.mpr found]
      exact .pure _
    obtain ⟨op, cache1, first, rest⟩ := bind_ran lowered
    obtain ⟨rfl, sound1⟩ := ask_ok asked sound first
    have each (child : Nat) (among : child ∈ node.op.children) := forest.input_lt_size found among
    have single {child : Nat} {wrap : Physical → Physical}
        (rest : (below plan mode limit child >>= fun inner => return wrap inner : Lowering Physical) cache1 = .ok tree cache')
        (only : node.op.children = [child])
        (lowers : ∀ {inner}, plan.Lowers mode child inner → plan.Lowers mode id (wrap inner)) :
        cache'.Sound plan ∧ plan.Lowers mode id tree := by
      obtain ⟨inner, cache2, lowered, same⟩ := bind_ran rest
      obtain ⟨sound2, below⟩ := ih (each child (by rw [only]; exact mem_cons_self)) sound1 lowered
      cases same
      exact ⟨sound2, lowers below⟩
    cases hop : node.op with
    | scan source =>
      rw [hop] at rest
      obtain ⟨_, cache2, asked, rest⟩ := bind_ran rest
      obtain ⟨rfl, sound2⟩ := ask_ok (forest.answers_required bound) sound1 asked
      cases rest
      exact ⟨sound2, .scan found hop⟩
    | select child predicate =>
      rw [hop] at rest
      exact single rest (by rw [hop]; rfl) (.select found hop)
    | map child mappings =>
      rw [hop] at rest
      exact single rest (by rw [hop]; rfl) (.map found hop)
    | join left right predicate method =>
      rw [hop] at rest each
      have leftBound := each left mem_cons_self
      have rightBound := each right (mem_cons_of_mem _ mem_cons_self)
      cases method with
      | index => cases rest
      | hash =>
        obtain ⟨_, cache2, chosen, rest⟩ := bind_ran rest
        obtain ⟨sound2, _, isPairs, oriented⟩ := joinKeys_ok forest leftBound rightBound sound1 chosen
        obtain ⟨_, _, asked, rest⟩ := bind_ran rest
        obtain ⟨rfl, sound3⟩ := ask_ok (forest.answers_produced leftBound) sound2 asked
        obtain ⟨_, _, asked, rest⟩ := bind_ran rest
        obtain ⟨rfl, sound4⟩ := ask_ok (forest.answers_expected bound) sound3 asked
        obtain ⟨first, _, lowered, rest⟩ := bind_ran rest
        obtain ⟨sound5, lowers⟩ := ih leftBound sound4 lowered
        obtain ⟨_, _, lowered, rest⟩ := bind_ran rest
        obtain ⟨sound6, lowers'⟩ := ih rightBound sound5 lowered
        cases rest
        exact ⟨sound6, .join found hop isPairs oriented lowers lowers'⟩
    | group child aggregates =>
      rw [hop] at rest
      exact single rest (by rw [hop]; rfl) (.group found hop)
    | insert table types values branch =>
      rw [hop] at rest
      cases rest
      exact ⟨sound1, .insert found hop⟩
    | update child table rowId assignments branch =>
      rw [hop] at rest
      exact single rest (by rw [hop]; rfl) (.update found hop)
    | delete child table rowId branch =>
      rw [hop] at rest
      exact single rest (by rw [hop]; rfl) (.delete found hop)
    | result child selection =>
      rw [hop] at rest
      exact single rest (by rw [hop]; rfl) (.result found hop)

end Lowering

theorem Plan.Forest.lowers_of_lower {tree : Physical}
    (forest : plan.Forest) (sound : cache.Sound plan) (top : plan.root = some root)
    (lowered : plan.lower mode cache = .ok tree cache') : cache'.Sound plan ∧ plan.Lowers mode root tree := by
  unfold Plan.lower at lowered
  rw [top] at lowered
  exact Lowering.below_ok forest (forest.root root top) sound lowered

end QueryEngine
