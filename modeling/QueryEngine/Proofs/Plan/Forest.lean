import QueryEngine.Plan.Basic

namespace QueryEngine.Plan

open Option Checked

variable {plan plan' : Plan} {id child parent : Nat} {node : PlanNode} {op : Operator}

/-- Parents and inputs agree. -/
structure Forest (plan : Plan) : Prop where
  input : ∀ (id : Nat) (node : PlanNode) (child : Nat), plan.nodes[id]? = some node → child ∈ node.op.children →
    child < id ∧ plan.nodes[child]?.map PlanNode.parent = some (some id)
  parent : ∀ (id : Nat) (node : PlanNode) (parent : Nat), plan.nodes[id]? = some node → node.parent = some parent →
    ∃ above : PlanNode, plan.nodes[parent]? = some above ∧ id ∈ above.op.children
  root : ∀ id, plan.root = some id → id < plan.size

theorem Forest.parent_lt (forest : plan.Forest) (found : plan.nodes[id]? = some node)
    (below : node.parent = some parent) : id < parent := by
  obtain ⟨above, atParent, among⟩ := forest.parent id node parent found below
  exact (forest.input parent above id atParent among).1

theorem Forest.parent_exists (forest : plan.Forest) (found : plan.nodes[id]? = some node)
    (below : node.parent = some parent) : parent < plan.size := by
  obtain ⟨_, atParent, _⟩ := forest.parent id node parent found below
  exact (Array.getElem?_eq_some_iff.mp atParent).1

theorem Forest.input_node (forest : plan.Forest) (found : plan.nodes[id]? = some node)
    (among : child ∈ node.op.children) : ∃ below, plan.nodes[child]? = some below ∧ below.parent = some id := by
  obtain ⟨_, known⟩ := forest.input id node child found among
  exact map_eq_some_iff.mp known

theorem node_ok : plan.node id = .ok node ↔ plan.nodes[id]? = some node := by
  unfold Plan.node
  cases plan.nodes[id]? <;> simp

theorem exists_node (bound : id < plan.size) : ∃ node, plan.nodes[id]? = some node :=
  ⟨plan.nodes[id], Array.getElem?_eq_getElem bound⟩

theorem expectFree_ok (free : plan.expectFree id = .ok ()) :
    ∃ node, plan.nodes[id]? = some node ∧ node.parent = none := by
  obtain ⟨node, found, free⟩ := bind_ok free
  refine ⟨node, node_ok.mp found, ?_⟩
  cases parent : node.parent with
  | none => rfl
  | some above =>
    simp only [parent, isSome_some, if_true] at free
    cases free

theorem expectFree_all (ids : List Nat) (free : ids.forM plan.expectFree = .ok ()) :
    ∀ id ∈ ids, ∃ node, plan.nodes[id]? = some node ∧ node.parent = none := by
  induction ids with
  | nil => exact fun _ member => absurd member List.not_mem_nil
  | cons first ids ih =>
    obtain ⟨_, head, free⟩ := bind_ok free
    exact List.forall_mem_cons.mpr ⟨expectFree_ok head, ih free⟩

theorem attach_size (plan : Plan) (child : Nat) : (plan.attach child).size = plan.size := by
  simp [attach, size]

/-- Attaching changes the parents of the attached operators only. -/
theorem foldl_attach (children : List Nat) (plan : Plan) :
    (children.foldl attach plan).root = plan.root ∧ (children.foldl attach plan).size = plan.size ∧
      ∀ i, (children.foldl attach plan).nodes[i]? = plan.nodes[i]?.map fun node =>
        if i ∈ children then { node with parent := some plan.size } else node := by
  induction children generalizing plan with
  | nil => exact ⟨rfl, rfl, fun i => by simp⟩
  | cons child children ih =>
    obtain ⟨root, size, nodes⟩ := ih (plan.attach child)
    refine ⟨root, size.trans (attach_size plan child), fun i => ?_⟩
    rw [List.foldl_cons, nodes i, attach_size]
    simp only [attach, Array.getElem?_modify]
    by_cases here : child = i
    · subst here
      cases plan.nodes[child]? <;> simp
    · rw [if_neg here]
      simp [Ne.symm here]

/-- The plan with one more operator. -/
theorem add_ok (added : plan.add op = .ok (id, plan')) :
    id = plan.size ∧ plan'.size = plan.size + 1 ∧ plan'.root = plan.root ∧
      (∀ child ∈ op.children, ∃ node, plan.nodes[child]? = some node ∧ node.parent = none) ∧
      ∀ i, plan'.nodes[i]? = if i = plan.size then some { op } else plan.nodes[i]?.map fun node =>
        if i ∈ op.children then { node with parent := some plan.size } else node := by
  obtain ⟨_, free, added⟩ := bind_ok added
  cases added
  obtain ⟨root, size, nodes⟩ := foldl_attach op.children plan
  refine ⟨rfl, ?_, root, expectFree_all op.children free, fun i => ?_⟩
  · exact (Array.size_push _).trans (congrArg (· + 1) size)
  · rw [Array.getElem?_push, nodes i, show (op.children.foldl attach plan).nodes.size = plan.size from size]

theorem Forest.add (forest : plan.Forest) (added : plan.add op = .ok (id, plan')) : plan'.Forest := by
  obtain ⟨rfl, size, root, free, nodes⟩ := add_ok added
  have bound {i : Nat} {node : PlanNode} (found : plan.nodes[i]? = some node) : i < plan.size :=
    (Array.getElem?_eq_some_iff.mp found).1
  have known {child : Nat} (among : child ∈ op.children) : child < plan.size := by
    obtain ⟨node, found, _⟩ := free child among
    exact bound found
  -- An operator that is already there keeps its inputs, and its parent unless it had none.
  have old {i : Nat} {node : PlanNode} (found : plan.nodes[i]? = some node) : plan'.nodes[i]? =
      some (if i ∈ op.children then { node with parent := some plan.size } else node) := by
    rw [nodes i, if_neg (Nat.ne_of_lt (bound found)), found, map_some]
  have added : plan'.nodes[plan.size]? = some { op } := by rw [nodes, if_pos rfl]
  have inverse {i : Nat} {node : PlanNode} (found : plan'.nodes[i]? = some node) :
      i = plan.size ∧ node = { op } ∨ ∃ before, plan.nodes[i]? = some before ∧
        node = if i ∈ op.children then { before with parent := some plan.size } else before := by
    by_cases new : i = plan.size
    · subst new
      rw [added, some.injEq] at found
      exact Or.inl ⟨rfl, found.symm⟩
    · rw [nodes i, if_neg new] at found
      obtain ⟨before, atBefore, same⟩ := map_eq_some_iff.mp found
      exact Or.inr ⟨before, atBefore, same.symm⟩
  have opOf {i : Nat} {before : PlanNode} : (if i ∈ op.children then { before with parent := some plan.size }
      else before).op = before.op := by split <;> rfl
  refine ⟨fun i node child found among => ?_, fun i node parent found isParent => ?_, fun i isRoot => ?_⟩
  · rcases inverse found with ⟨rfl, rfl⟩ | ⟨before, atBefore, rfl⟩
    · obtain ⟨below, atBelow, _⟩ := free child among
      refine ⟨known among, ?_⟩
      rw [old atBelow, if_pos among]
      rfl
    · rw [opOf] at among
      obtain ⟨less, above⟩ := forest.input i before child atBefore among
      obtain ⟨below, atBelow, isParent⟩ := map_eq_some_iff.mp above
      refine ⟨less, ?_⟩
      have attached : child ∉ op.children := by
        intro among'
        obtain ⟨node, found', none⟩ := free child among'
        rw [found', some.injEq] at atBelow
        rw [← atBelow, none] at isParent
        cases isParent
      rw [old atBelow, if_neg attached, map_some, isParent]
  · rcases inverse found with ⟨rfl, rfl⟩ | ⟨before, atBefore, rfl⟩
    · cases isParent
    · by_cases among : i ∈ op.children
      · rw [if_pos among] at isParent
        cases isParent
        exact ⟨{ op }, added, among⟩
      · rw [if_neg among] at isParent
        obtain ⟨above, atParent, among'⟩ := forest.parent i before parent atBefore isParent
        exact ⟨_, old atParent, by rw [opOf]; exact among'⟩
  · rw [root] at isRoot
    have := forest.root i isRoot
    omega

theorem setRoot_ok (set : plan.setRoot id = .ok plan') :
    plan.expectFree id = .ok () ∧ plan' = { plan with root := some id } := by
  obtain ⟨_, free, set⟩ := bind_ok set
  cases set
  exact ⟨free, rfl⟩

theorem addRoot_ok (added : plan.addRoot op = .ok (id, plan')) :
    ∃ larger, plan.add op = .ok (id, larger) ∧ plan' = { larger with root := some id } := by
  obtain ⟨result, inner, added⟩ := bind_ok added
  cases added
  exact ⟨result.2, inner, rfl⟩

theorem Forest.setRoot (forest : plan.Forest) (set : plan.setRoot id = .ok plan') : plan'.Forest := by
  obtain ⟨free, rfl⟩ := setRoot_ok set
  obtain ⟨_, found, _⟩ := expectFree_ok free
  refine ⟨forest.input, forest.parent, ?_⟩
  rintro root ⟨⟩
  exact (Array.getElem?_eq_some_iff.mp found).1

theorem Forest.addRoot (forest : plan.Forest) (added : plan.addRoot op = .ok (id, plan')) : plan'.Forest := by
  obtain ⟨_, inner, rfl⟩ := addRoot_ok added
  have grown := forest.add inner
  obtain ⟨rfl, size, _⟩ := add_ok inner
  refine ⟨grown.input, grown.parent, ?_⟩
  rintro root ⟨⟩
  exact Nat.lt_of_lt_of_eq (Nat.lt_succ_self _) size.symm

/-- The plans that can be built. Adding a selection or a join checks its condition first. -/
inductive Built : Plan → Prop
  | new : Built {}
  | add {plan plan' : Plan} {op : Operator} {id : Nat} : Built plan → plan.add op = .ok (id, plan') → Built plan'
  | setRoot {plan plan' : Plan} {id : Nat} : Built plan → plan.setRoot id = .ok plan' → Built plan'
  | addRoot {plan plan' : Plan} {op : Operator} {id : Nat} : Built plan → plan.addRoot op = .ok (id, plan') →
      Built plan'

theorem Built.forest (built : plan.Built) : plan.Forest := by
  induction built with
  | new =>
    refine ⟨fun i node child found => ?_, fun i node parent found => ?_, fun i root => ?_⟩
    · exact absurd found (by simp)
    · exact absurd found (by simp)
    · cases root
  | add _ added forest => exact forest.add added
  | setRoot _ set forest => exact forest.setRoot set
  | addRoot _ added forest => exact forest.addRoot added

/-- A call that builds a plan: it adds an operator, or makes one the root. -/
inductive Call where
  | operator (op : Operator)
  | root (id : Nat)
deriving DecidableEq

/-- Selections and joins need a condition, and a result becomes the root. -/
def Call.run : Call → Plan → Except PlanError Plan
  | operator (.select child predicate), plan => Prod.snd <$> plan.addSelect child predicate
  | operator (.join left right predicate method), plan => Prod.snd <$> plan.addJoin left right predicate method
  | operator (.result child selection), plan => Prod.snd <$> plan.addRoot (.result child selection)
  | operator op, plan => Prod.snd <$> plan.add op
  | root id, plan => plan.setRoot id

/-- The plan after a call. One that fails changes nothing. -/
def after (plan : Plan) (call : Call) : Plan :=
  match call.run plan with
  | .ok plan => plan
  | .error _ => plan

variable {made : Except PlanError (Nat × Plan)}

theorem snd_ok (ok : Prod.snd <$> made = .ok plan') : ∃ id, made = .ok (id, plan') := by
  cases made with
  | error cause => cases ok
  | ok result => cases ok; exact ⟨result.1, rfl⟩

theorem checked_ok (ok : (checked >>= fun _ => made) = .ok (id, plan')) : made = .ok (id, plan') := by
  cases checked with
  | error cause => cases ok
  | ok => exact ok

variable {call : Call}

/-- What a call that succeeds has done. -/
theorem Call.run_ok (ran : call.run plan = .ok plan') :
    (∃ op id, call = .operator op ∧ (plan.add op = .ok (id, plan') ∨ plan.addRoot op = .ok (id, plan'))) ∨
      ∃ id, plan.setRoot id = .ok plan' := by
  cases call with
  | root id => exact .inr ⟨id, ran⟩
  | operator op =>
    refine .inl ⟨op, ?_⟩
    cases op with
    | select | join =>
      obtain ⟨id, added⟩ := snd_ok ran
      exact ⟨id, rfl, .inl (checked_ok added)⟩
    | result =>
      obtain ⟨id, added⟩ := snd_ok ran
      exact ⟨id, rfl, .inr added⟩
    | _ =>
      obtain ⟨id, added⟩ := snd_ok ran
      exact ⟨id, rfl, .inl added⟩

theorem Built.run (built : plan.Built) (ran : call.run plan = .ok plan') : plan'.Built := by
  obtain ⟨_, id, _, added | added⟩ | ⟨id, set⟩ := Call.run_ok ran
  · exact built.add added
  · exact built.addRoot added
  · exact built.setRoot set

/-- The operators of a plan after a call are those before it, and the one that has been added. -/
theorem Call.run_operators (ran : call.run plan = .ok plan') (found : plan'.nodes[id]? = some node) :
    call = .operator node.op ∨ ∃ before, plan.nodes[id]? = some before ∧ before.op = node.op := by
  have added {op : Operator} {new : Nat} {larger : Plan} (adds : plan.add op = .ok (new, larger))
      (found : larger.nodes[id]? = some node) : op = node.op ∨ ∃ before, plan.nodes[id]? = some before ∧ before.op = node.op := by
    obtain ⟨_, _, _, _, nodes⟩ := add_ok adds
    rw [nodes] at found
    split at found
    · cases found
      exact .inl rfl
    · obtain ⟨before, atBefore, rfl⟩ := map_eq_some_iff.mp found
      exact .inr ⟨before, atBefore, by split <;> rfl⟩
  obtain ⟨op, new, rfl, adds | adds⟩ | ⟨_, set⟩ := Call.run_ok ran
  · exact (added adds found).imp_left (congrArg _)
  · obtain ⟨larger, inner, rfl⟩ := addRoot_ok adds
    exact (added inner found).imp_left (congrArg _)
  · obtain ⟨_, rfl⟩ := setRoot_ok set
    exact .inr ⟨node, found, rfl⟩

/-- Every call of a sequence keeps what each call keeps. -/
theorem foldl_after (holds : Plan → Prop) {calls : List Call} (start : holds plan)
    (step : ∀ call ∈ calls, ∀ plan plan', holds plan → call.run plan = .ok plan' → holds plan') :
    holds (calls.foldl after plan) := by
  induction calls generalizing plan with
  | nil => exact start
  | cons call calls ih =>
    refine ih ?_ fun other member => step other (List.mem_cons_of_mem _ member)
    unfold after
    split
    · exact step call List.mem_cons_self _ _ start (by assumption)
    · exact start

/-- Whatever is called with whatever numbers, in a plan each operator comes after its inputs, the parent of an operator is
the one operator that has it as an input, and a call that fails leaves the plan as it is. Unless an operator is joined with
itself, none is an input twice. -/
theorem calls_build_forest (calls : List Call)
    (apart : ∀ child predicate method, .operator (.join child child predicate method) ∉ calls) :
    let plan := calls.foldl after {}
    (∀ (id : Nat) (node : PlanNode), plan.nodes[id]? = some node →
      (∀ child ∈ node.op.children, child < id) ∧ node.op.children.Nodup ∧
      ∀ parent, node.parent = some parent ↔ ∃ above, plan.nodes[parent]? = some above ∧ id ∈ above.op.children) ∧
    ∀ (call : Call) cause, call.run plan = .error cause → plan.after call = plan := by
  intro plan
  have forest : plan.Forest := Built.forest (foldl_after Built .new fun _ _ _ _ built ran => built.run ran)
  have called : ∀ (id : Nat) (node : PlanNode), plan.nodes[id]? = some node → .operator node.op ∈ calls := by
    have none (id : Nat) (node : PlanNode) (found : ({} : Plan).nodes[id]? = some node) : .operator node.op ∈ calls := by
      simp at found
    refine foldl_after (fun plan => ∀ (id : Nat) (node : PlanNode), plan.nodes[id]? = some node → .operator node.op ∈ calls)
      none fun call member before after old ran id node found => ?_
    rcases Call.run_operators ran found with rfl | ⟨node', found', same⟩
    · exact member
    · rw [← same]
      exact old id node' found'
  refine ⟨fun id node found => ⟨fun child among => (forest.input id node child found among).1, ?_, fun parent => ?_⟩,
    fun call cause fails => by rw [after, fails]⟩
  · have member := called id node found
    cases op : node.op with
    | join left right predicate method =>
      rw [op] at member
      have different : left ≠ right := by
        rintro rfl
        exact apart left predicate method member
      simp [Operator.children, different]
    | scan | insert => exact .nil
    | _ => simp [Operator.children]
  · constructor
    · exact forest.parent id node parent found
    · rintro ⟨above, atParent, among⟩
      obtain ⟨below, found', isParent⟩ := forest.input_node atParent among
      cases found.symm.trans found'
      exact isParent

namespace Example

def source : TableScan := { table := "t", scan := 0, columns := [], rowId := ⟨0, .integer⟩, branch := 0 }

def always : Scalar := .literal (.bool true) .bool

/-- The fourth call names an operator that has a parent already, the last one an operator that does not exist. -/
def calls : List Call :=
  [.operator (.scan source), .operator (.scan source), .operator (.join 1 0 always .hash), .operator (.select 0 always),
    .operator (.result 2 []), .root 7]

end Example

theorem calls_build_forest_example : let plan := Example.calls.foldl after {}
    (∀ child predicate method, .operator (.join child child predicate method) ∉ Example.calls) ∧
      plan.nodes.toList.map (fun node => (node.op.children, node.parent)) =
        [([], some 2), ([], some 2), ([1, 0], some 3), ([2], none)] ∧
      (plan.nodes[2]?.map fun node => node.op.children.Nodup) = some True := by
  have apart : ∀ child predicate method, .operator (.join child child predicate method) ∉ Example.calls := by
    intro child predicate method member
    simp only [Example.calls, List.mem_cons, Call.operator.injEq, Operator.join.injEq, reduceCtorEq, List.not_mem_nil,
      or_false, false_or] at member
    omega
  refine ⟨apart, by decide, ?_⟩
  have known : (Example.calls.foldl after {}).nodes[2]? = some ⟨.join 1 0 Example.always .hash, some 3⟩ := by decide
  rw [known]
  exact congrArg some (eq_true ((calls_build_forest Example.calls apart).1 2 _ known).2.1)

/-- An operator that is joined with itself is an input twice. -/
theorem joins_operator_with_itself :
    (([.operator (.scan Example.source), .operator (.join 0 0 Example.always .hash)] : List Call).foldl after {}).nodes[1]?.map
      (fun node => node.op.children) = some [0, 0] := by decide

end QueryEngine.Plan
