import Mathlib.Data.List.Basic
import Mathlib.Tactic.Tauto
import QueryEngine.Plan.Sets
import QueryEngine.Proofs.Plan.Forest

namespace QueryEngine

open List

variable {plan : Plan} {id child parent : Nat} {set : AttributeSet}

namespace AttributeSet

variable {first second : AttributeSet} {a : Attribute} {n : Nat} {items : List Attribute}

/-- The set has an attribute with this number. -/
def Has (set : AttributeSet) (n : Nat) : Prop := ∃ a ∈ set.items, a.id = n

theorem contains_iff : set.contains a = true ↔ set.Has a.id := by
  simp [contains, Has]

theorem has_insertSorted (a : Attribute) (items : List Attribute) (n : Nat) :
    (∃ b ∈ insertSorted a items, b.id = n) ↔ a.id = n ∨ ∃ b ∈ items, b.id = n := by
  induction items with
  | nil => simp [insertSorted]
  | cons other rest ih =>
    unfold insertSorted
    split
    · simp
    · split
      next same =>
        simp only [exists_mem_cons_iff, same]
        tauto
      · simp only [exists_mem_cons_iff, ih]
        tauto

theorem has_insert : (set.insert a).Has n ↔ a.id = n ∨ set.Has n := has_insertSorted a set.items n

theorem has_foldl_insert (items : List Attribute) (set : AttributeSet) :
    (items.foldl insert set).Has n ↔ set.Has n ∨ ∃ a ∈ items, a.id = n := by
  induction items generalizing set with
  | nil => simp
  | cons a items ih =>
    rw [foldl_cons, ih, has_insert, exists_mem_cons_iff]
    tauto

theorem has_empty : ¬ empty.Has n := by
  simp [empty, Has]

theorem has_ofList : (ofList items).Has n ↔ ∃ a ∈ items, a.id = n := by
  rw [ofList, has_foldl_insert]
  simp [has_empty]

theorem mem_insertSorted (member : b ∈ insertSorted a items) : b = a ∨ b ∈ items := by
  induction items with
  | nil => exact Or.inl (mem_singleton.mp member)
  | cons other rest ih =>
    unfold insertSorted at member
    split at member
    · exact mem_cons.mp member
    · split at member
      · exact Or.inr member
      · rcases mem_cons.mp member with rfl | later
        · exact Or.inr mem_cons_self
        · exact (ih later).imp_right (mem_cons_of_mem _)

/-- A set of attributes has no other ones. -/
theorem mem_ofList (member : b ∈ (ofList items).items) : b ∈ items := by
  have step (items : List Attribute) (set : AttributeSet) (member : b ∈ (items.foldl insert set).items) :
      b ∈ items ∨ b ∈ set.items := by
    induction items generalizing set with
    | nil => exact Or.inr member
    | cons a rest ih =>
      rcases ih (set.insert a) member with later | earlier
      · exact Or.inl (mem_cons_of_mem _ later)
      · rcases mem_insertSorted earlier with rfl | earlier
        · exact Or.inl mem_cons_self
        · exact Or.inr earlier
  exact (step items empty member).resolve_right not_mem_nil

theorem has_union : (first.union second).Has n ↔ first.Has n ∨ second.Has n := has_foldl_insert second.items first

theorem has_inter : (first.inter second).Has n ↔ first.Has n ∧ second.Has n := by
  simp only [inter, Has, mem_filter, contains_iff]
  grind

theorem has_diff : (first.diff second).Has n ↔ first.Has n ∧ ¬ second.Has n := by
  simp only [diff, Has, mem_filter, Bool.not_eq_true', ← Bool.not_eq_true, contains_iff]
  grind

theorem isEmpty_iff : set.isEmpty = true ↔ ∀ n, ¬ set.Has n := by
  simp only [isEmpty, List.isEmpty_iff, Has]
  constructor
  · intro none n
    simp [none]
  · intro none
    refine List.eq_nil_iff_forall_not_mem.mpr fun a member => none a.id ⟨a, member, rfl⟩

theorem isSubset_iff : first.isSubset second = true ↔ ∀ n, first.Has n → second.Has n := by
  simp only [isSubset, all_eq_true, contains_iff]
  constructor
  · rintro all n ⟨a, among, rfl⟩
    exact all a among
  · exact fun all a among => all a.id ⟨a, among, rfl⟩

end AttributeSet

namespace Operator

/-- What an operator produces if its inputs produce `below`. -/
def produced (below : Nat → AttributeSet) : Operator → AttributeSet
  | scan source => .ofList (source.columns.map Prod.snd ++ [source.rowId])
  | select child _ => below child
  | map child mappings => (below child).union (.ofList (mappings.map Mapping.result))
  | join left right _ _ => (below left).union (below right)
  | group _ aggregates => .ofList (aggregates.map Aggregate.result)
  | insert .. | update .. | delete .. | result .. => .empty

/-- What an operator requires if it produces `produced`, of which `expected` is needed. -/
def required (op : Operator) (produced expected : AttributeSet) : AttributeSet :=
  match op with
  | scan _ => expected.inter produced
  | select .. | join .. => expected.union (.ofList op.reads)
  | map _ mappings => (expected.diff (.ofList (mappings.map Mapping.result))).union (.ofList op.reads)
  | group .. | insert .. | update .. | delete .. | result .. => .ofList op.reads

/-- What is expected of an input that produces `produced` if the operator requires `required`. -/
def expects (op : Operator) (required produced : AttributeSet) : AttributeSet :=
  match op with
  | join .. => required.inter produced
  | _ => required

theorem produced_congr (op : Operator) (same : ∀ child ∈ op.children, below child = below' child) :
    op.produced below = op.produced below' := by
  cases op with
  | select child | map child => simp only [produced, same child mem_cons_self]
  | join left right =>
    simp only [produced, same left mem_cons_self, same right (mem_cons_of_mem _ mem_cons_self)]
  | _ => rfl

end Operator

namespace Plan

variable {node : PlanNode}

/-- What an operator produces. -/
def producedSet (plan : Plan) (id : Nat) : AttributeSet :=
  match plan.nodes[id]? with
  | none => .empty
  | some node => node.op.produced fun child => if child < id then plan.producedSet child else .empty
termination_by id

/-- What an operator requires. -/
def requiredSet (plan : Plan) (id : Nat) : AttributeSet :=
  match plan.nodes[id]? with
  | none => .empty
  | some node => node.op.required (plan.producedSet id) <|
    match node.parent with
    | none => .empty
    | some parent => match plan.nodes[parent]? with
      | none => .empty
      | some above =>
        if id < parent ∧ parent < plan.size then above.op.expects (plan.requiredSet parent) (plan.producedSet id)
        else .empty
termination_by plan.size - id

/-- What the parent of an operator needs it to produce. -/
def expectedSet (plan : Plan) (id : Nat) : AttributeSet :=
  match plan.nodes[id]?.bind PlanNode.parent with
  | none => .empty
  | some parent => match plan.nodes[parent]? with
    | none => .empty
    | some above => above.op.expects (plan.requiredSet parent) (plan.producedSet id)

theorem Forest.producedSet_eq (forest : plan.Forest) (found : plan.nodes[id]? = some node) :
    plan.producedSet id = node.op.produced plan.producedSet := by
  rw [producedSet, found]
  exact Operator.produced_congr node.op fun child among => if_pos (forest.input id node child found among).1

theorem Forest.requiredSet_eq (forest : plan.Forest) (found : plan.nodes[id]? = some node) :
    plan.requiredSet id = node.op.required (plan.producedSet id) (plan.expectedSet id) := by
  rw [requiredSet, expectedSet, found]
  cases isParent : node.parent with
  | none => simp [isParent]
  | some parent =>
    obtain ⟨_, atParent, _⟩ := forest.parent id node parent found isParent
    have bounds := And.intro (forest.parent_lt found isParent) (forest.parent_exists found isParent)
    simp [isParent, atParent, bounds]

theorem expectedSet_root (found : plan.nodes[id]? = some node) (top : node.parent = none) :
    plan.expectedSet id = .empty := by
  simp [expectedSet, found, top]

/-- What is expected of an input of an operator. -/
theorem Forest.expectedSet_input (forest : plan.Forest) (found : plan.nodes[id]? = some node)
    (among : child ∈ node.op.children) :
    plan.expectedSet child = node.op.expects (plan.requiredSet id) (plan.producedSet child) := by
  obtain ⟨_, atChild, isParent⟩ := forest.input_node found among
  simp [expectedSet, atChild, isParent, found]

end Plan

/-- Every set that is remembered is the one of the plan. -/
structure SetCache.Sound (plan : Plan) (cache : SetCache) : Prop where
  produced : ∀ entry ∈ cache.produced, entry.2 = plan.producedSet entry.1
  required : ∀ entry ∈ cache.required, entry.2 = plan.requiredSet entry.1

/-- Whatever has been asked before, the question has this answer. -/
def Sets.Answers {α : Type} (plan : Plan) (question : Sets α) (answer : α) : Prop :=
  ∀ cache : SetCache, cache.Sound plan → ∃ cache', question cache = .ok answer cache' ∧ cache'.Sound plan

namespace Sets.Answers

variable {α β : Type} {question : Sets α} {next : α → Sets β} {x : α} {y : β}

theorem pure (x : α) : Answers plan (Pure.pure x) x := fun cache sound => ⟨cache, rfl, sound⟩

theorem bind (first : Answers plan question x) (rest : Answers plan (next x) y) : Answers plan (question >>= next) y := by
  intro cache sound
  obtain ⟨cache', asked, sound'⟩ := first cache sound
  obtain ⟨cache'', asked', sound''⟩ := rest cache' sound'
  refine ⟨cache'', ?_, sound''⟩
  simp only [Bind.bind, EStateM.bind, asked, asked']

theorem unique (answers : Answers plan question answer) (sound : cache.Sound plan) (asked : question cache = .ok x cache') :
    x = answer ∧ cache'.Sound plan := by
  obtain ⟨_, asked', sound'⟩ := answers cache sound
  rw [asked] at asked'
  cases asked'
  exact ⟨rfl, sound'⟩

/-- A question that looks at what is remembered. -/
theorem get {next : SetCache → Sets α}
    (each : ∀ cache : SetCache, cache.Sound plan → ∃ cache', next cache cache = .ok x cache' ∧ cache'.Sound plan) :
    Answers plan (MonadState.get >>= next) x := each

theorem node {node : PlanNode} (found : plan.nodes[id]? = some node) : Answers plan (ofExcept (plan.node id)) node := by
  rw [Plan.node_ok.mpr found]
  exact pure node

theorem keepProduced (same : plan.producedSet id = set) :
    Answers plan (keepProduced id set) (plan.producedSet id) := by
  subst same
  intro cache sound
  exact ⟨_, rfl, forall_mem_cons.mpr ⟨rfl, sound.produced⟩, sound.required⟩

theorem keepRequired (same : plan.requiredSet id = set) :
    Answers plan (keepRequired id set) (plan.requiredSet id) := by
  subst same
  intro cache sound
  exact ⟨_, rfl, sound.produced, forall_mem_cons.mpr ⟨rfl, sound.required⟩⟩

end Sets.Answers

namespace Plan

open Sets

variable {limit : Nat} {node : PlanNode}

theorem lookup_mem {sets : List (Nat × AttributeSet)} (known : sets.lookup id = some set) :
    (id, set) ∈ sets := by
  obtain ⟨_, _, rfl, _⟩ := lookup_eq_some_iff.mp known
  simp

variable (forest : plan.Forest)

include forest

theorem Forest.answers_producedWithin (enough : id < limit) (bound : id < plan.size) :
    Answers plan (plan.producedWithin limit id) (plan.producedSet id) := by
  induction limit generalizing id with
  | zero => exact absurd enough (Nat.not_lt_zero _)
  | succ limit ih =>
    obtain ⟨node, found⟩ := exists_node bound
    have equation := forest.producedSet_eq found
    have below (child : Nat) (among : child ∈ node.op.children) :
        Answers plan (plan.producedWithin limit child) (plan.producedSet child) := by
      have less := (forest.input id node child found among).1
      exact ih (by omega) (by omega)
    refine .bind (.node found) (.get fun cache sound => ?_)
    cases known : cache.produced.lookup id with
    | some set =>
      have same := sound.produced (id, set) (lookup_mem known)
      exact ⟨cache, by rw [← same]; rfl, sound⟩
    | none =>
      refine (show Answers plan _ (plan.producedSet id) from ?_) cache sound
      generalize node.op = op at equation below
      cases op with
      | scan | group | insert | update | delete | result => exact .keepProduced equation
      | select child | map child => exact .bind (below child mem_cons_self) (.keepProduced equation)
      | join left right =>
        refine .bind (below left mem_cons_self) ?_
        exact .bind (below right (mem_cons_of_mem _ mem_cons_self)) (.keepProduced equation)

theorem Forest.answers_produced (bound : id < plan.size) :
    Answers plan (plan.produced id) (plan.producedSet id) := forest.answers_producedWithin bound bound

theorem Forest.answers_expectedUnder (found : plan.nodes[id]? = some node) (isParent : node.parent = some parent) :
    Answers plan (plan.expectedUnder id parent (plan.requiredSet parent)) (plan.expectedSet id) := by
  obtain ⟨above, atParent, among⟩ := forest.parent id node parent found isParent
  have bound := (Array.getElem?_eq_some_iff.mp found).1
  rw [forest.expectedSet_input atParent among]
  refine .bind (.node atParent) ?_
  cases above.op with
  | join => exact .bind (forest.answers_produced bound) (.pure _)
  | _ => exact .pure _

theorem Forest.answers_requiredFrom (bound : id < plan.size) (op : Operator) {expected : Sets AttributeSet}
    (expects : Answers plan expected (plan.expectedSet id)) :
    Answers plan (plan.requiredFrom id op expected) (op.required (plan.producedSet id) (plan.expectedSet id)) := by
  cases op with
  | scan => exact .bind (forest.answers_produced bound) (.bind expects (.pure _))
  | select | join | map => exact .bind expects (.pure _)
  | _ => exact .pure _

theorem Forest.answers_requiredWithin (enough : plan.size ≤ id + limit) (bound : id < plan.size) :
    Answers plan (plan.requiredWithin limit id) (plan.requiredSet id) := by
  -- A parent comes after its inputs, so the limit suffices up to the root.
  induction limit generalizing id with
  | zero => omega
  | succ limit ih =>
    obtain ⟨node, found⟩ := exists_node bound
    refine .bind (.node found) (.get fun cache sound => ?_)
    cases known : cache.required.lookup id with
    | some set =>
      have same := sound.required (id, set) (lookup_mem known)
      exact ⟨cache, by rw [← same]; rfl, sound⟩
    | none =>
      refine (show Answers plan _ (plan.requiredSet id) from ?_) cache sound
      refine .bind (forest.answers_requiredFrom bound node.op ?_) (.keepRequired (forest.requiredSet_eq found))
      cases isParent : node.parent with
      | none =>
        rw [expectedSet_root found isParent]
        exact .pure _
      | some parent =>
        have less := forest.parent_lt found isParent
        exact .bind (ih (by omega) (forest.parent_exists found isParent)) (forest.answers_expectedUnder found isParent)

theorem Forest.answers_required (bound : id < plan.size) :
    Answers plan (plan.required id) (plan.requiredSet id) := forest.answers_requiredWithin (by omega) bound

theorem Forest.answers_expected (bound : id < plan.size) :
    Answers plan (plan.expected id) (plan.expectedSet id) := by
  obtain ⟨node, found⟩ := exists_node bound
  refine .bind (.node found) ?_
  cases isParent : node.parent with
  | none =>
    rw [expectedSet_root found isParent]
    exact .pure _
  | some parent =>
    exact .bind (forest.answers_required (forest.parent_exists found isParent))
      (forest.answers_expectedUnder found isParent)

end Plan

end QueryEngine
