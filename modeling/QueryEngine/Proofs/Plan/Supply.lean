import QueryEngine.Proofs.Emission.Operators
import QueryEngine.Proofs.Plan.Memoization

namespace QueryEngine

open List
open AttributeSet hiding items

namespace Emit

variable {α β : Type}

/-- No row is asked for an attribute that it does not have. -/
def supplied : Law where
  Holds code := ∀ (b b' : Builder) (a : Attribute), code b ≠ .error (.error (.missingValue a)) b'

theorem supplied_of_ok {code : Emit α} (total : ∀ b, ∃ x b', code b = .ok x b') : supplied.Holds code := by
  intro b b' a failed
  obtain ⟨x, c, done⟩ := total b
  rw [done] at failed
  cases failed

instance : supplied.Stepwise where
  pure x := supplied_of_ok fun b => ⟨x, b, rfl⟩
  bind := by
    intro _ _ code next result first gives rest b b' a failed
    simp only [bind, EStateM.bind] at failed
    split at failed
    next x c emitted => exact rest x (gives b x c emitted) c b' a failed
    next fault c emitted =>
      cases failed
      exact first b _ a emitted
  throw := by
    intro _ fault plain b b' a failed
    cases failed
    exact plain
  get := supplied_of_ok fun b => ⟨b, b, rfl⟩
  define _ _ _ := supplied_of_ok fun _ => ⟨_, _, rfl⟩
  append _ := supplied_of_ok fun _ => ⟨_, _, rfl⟩
  intern := by
    intro bytes b b' a failed
    unfold intern at failed
    cases found : b.program.literals.intern? bytes with
    | none =>
      rw [get_bind, found] at failed
      cases failed
    | some result =>
      rw [get_bind, found] at failed
      cases failed
  stackSlot _ := supplied_of_ok fun _ => ⟨_, _, rfl⟩
  inProgram _ := supplied_of_ok fun _ => ⟨_, _, rfl⟩
  newBlock := supplied_of_ok fun _ => ⟨_, _, rfl⟩
  enter _ := supplied_of_ok fun _ => ⟨_, _, rfl⟩
  terminate _ := supplied_of_ok fun _ => ⟨_, _, rfl⟩
  phi _ _ := supplied_of_ok fun _ => ⟨_, _, rfl⟩
  addIncoming _ _ _ := supplied_of_ok fun _ => ⟨_, _, rfl⟩
  between := by
    intro _ entry exit body supplies b b' a failed
    unfold between at failed
    split at failed
    · cases failed
    next fault c emitted =>
      cases failed
      exact supplies _ _ _ emitted
  loopCondition := by
    intro _ exit cond supplies b b' a failed
    unfold loopCondition at failed
    split at failed
    · cases failed
    next fault c emitted =>
      cases failed
      exact supplies _ _ _ emitted

end Emit

open Emit

namespace Plan

variable {plan : Plan} {mode : ResultMode} {id child : Nat} {node : PlanNode} {tree : Physical}

/-- A row has what is expected of the operator it comes from, as far as the operator produces it. -/
def Delivers (plan : Plan) (id : Nat) (row : HeldRow) : Prop :=
  ∀ n, (plan.expectedSet id).Has n → (plan.producedSet id).Has n → n ∈ row.ids

theorem Operator.expects_of_single {op : Operator} (only : op.children = [child]) (required produced : AttributeSet) :
    op.expects required produced = required := by
  cases op with
  | join => cases only
  | _ => rfl

/-- The rows of the only input of an operator have all that the operator requires. -/
theorem Delivers.required (forest : plan.Forest) (found : plan.nodes[id]? = some node) (only : node.op.children = [child])
    (satisfied : plan.Satisfied id) (delivers : plan.Delivers child row) (required : (plan.requiredSet id).Has n) :
    n ∈ row.ids := by
  have among : child ∈ node.op.children := by rw [only]; exact mem_cons_self
  refine delivers n ?_ ?_
  · rw [forest.expectedSet_input found among, Operator.expects_of_single only]
    exact required
  · obtain ⟨_, member, has⟩ := satisfied node found (by simp [only]) n required
    rw [only, mem_singleton] at member
    subst member
    exact has

theorem has_ofList_of_mem (member : a ∈ items) :
    (AttributeSet.ofList items).Has a.id := AttributeSet.has_ofList.mpr ⟨a, member, rfl⟩

/-- An operator requires what it reads, unless it is a scan. -/
theorem Forest.requires_reads (forest : plan.Forest) (found : plan.nodes[id]? = some node) :
    ∀ a ∈ node.op.reads, (plan.requiredSet id).Has a.id := by
  intro a member
  rw [forest.requiredSet_eq found]
  cases hop : node.op with
  | scan =>
    rw [hop] at member
    exact absurd member not_mem_nil
  | select | join | map =>
    rw [hop] at member
    exact has_union.mpr (Or.inr (has_ofList_of_mem member))
  | _ =>
    rw [hop] at member
    exact has_ofList_of_mem member

/-- Both sides of a key are read by the predicate, and each is made from what its input produces. -/
theorem orient?_reads (oriented : Lowering.orient? left right pair = some key) :
    (∀ a ∈ key.1.reads, left.Has a.id ∧ a ∈ pair.1.reads ++ pair.2.reads) ∧
      ∀ a ∈ key.2.reads, right.Has a.id ∧ a ∈ pair.1.reads ++ pair.2.reads := by
  have covers {e : Scalar} {set : AttributeSet} (subset : e.attributes.isSubset set = true) {a : Attribute}
      (member : a ∈ e.reads) : set.Has a.id :=
    isSubset_iff.mp subset a.id (has_ofList_of_mem member)
  unfold Lowering.orient? at oriented
  dsimp only at oriented
  split at oriented
  next subsets =>
    rw [Bool.and_eq_true] at subsets
    cases oriented
    exact ⟨fun a member => ⟨covers subsets.1 member, mem_append_left _ member⟩,
      fun a member => ⟨covers subsets.2 member, mem_append_right _ member⟩⟩
  · split at oriented
    next subsets =>
      rw [Bool.and_eq_true] at subsets
      cases oriented
      exact ⟨fun a member => ⟨covers subsets.1 member, mem_append_right _ member⟩,
        fun a member => ⟨covers subsets.2 member, mem_append_left _ member⟩⟩
    · cases oriented

theorem equalityPairs?_reads {predicate : Scalar} {pairs : List (Scalar × Scalar)}
    (isPairs : predicate.equalityPairs? = some pairs) {pair : Scalar × Scalar} (member : pair ∈ pairs) :
    pair.1.reads ++ pair.2.reads ⊆ predicate.reads := by
  fun_induction Scalar.equalityPairs? predicate generalizing pairs with
  | case1 lhs rhs =>
    cases isPairs
    rw [mem_singleton] at member
    subst member
    exact List.Subset.refl _
  | case2 lhs rhs first second =>
    simp only [Option.bind_eq_bind, Option.bind_eq_some_iff, Option.some.injEq] at isPairs
    obtain ⟨_, isLeft, _, isRight, rfl⟩ := isPairs
    rcases mem_append.mp member with inLeft | inRight
    · exact fun a reads => mem_append_left _ (first isLeft inLeft reads)
    · exact fun a reads => mem_append_right _ (second isRight inRight reads)
  | case3 => cases isPairs

theorem mem_of_mapM {f : α → Option β} {items : List α} (mapped : items.mapM f = some results) (member : y ∈ results) :
    ∃ x ∈ items, f x = some y := by
  induction mapM_eq_some_iff.mp mapped with
  | nil => cases member
  | cons first others ih =>
    rcases mem_cons.mp member with rfl | later
    · exact ⟨_, mem_cons_self, first⟩
    · obtain ⟨x, among, same⟩ := ih (mapM_eq_some_iff.mpr others) later
      exact ⟨x, mem_cons_of_mem _ among, same⟩

/-- No insert from `top` down reads an attribute. -/
def ConstantInserts (plan : Plan) (top : Nat) : Prop :=
  ∀ id node table types values branch, plan.Under top id → plan.nodes[id]? = some node →
    node.op = .insert table types values branch → values.flatMap Scalar.reads = []

/-- What the check of a plan ensures for `top` and all below it, and what it leaves open: an insert has no inputs, so
its values are not checked. -/
structure Supplied (plan : Plan) (top : Nat) : Prop where
  satisfied : ∀ id, plan.Under top id → plan.Satisfied id
  constant : plan.ConstantInserts top

theorem Supplied.input (supplied : plan.Supplied id) (found : plan.nodes[id]? = some node)
    (among : child ∈ node.op.children) : plan.Supplied child where
  satisfied other under := supplied.satisfied other (.of_input found among under)
  constant other node' table types values branch under :=
    supplied.constant other node' table types values branch (.of_input found among under)

/-- The only input of an operator hands on rows with what the operator reads and with all else that it requires. -/
theorem Supplied.single (supplied : plan.Supplied id) (forest : plan.Forest) (found : plan.nodes[id]? = some node)
    (isOp : node.op = op) (only : op.children = [child])
    (feeds : plan.Supplied child → Feeds law (plan.Delivers child) code) :
    Feeds law (fun row => row.Has op.reads ∧ ∀ n, (plan.requiredSet id).Has n → n ∈ row.ids) code := by
  subst isOp
  have child' := feeds (supplied.input found (by rw [only]; exact mem_cons_self))
  refine fun next each => child' next fun row delivers => ?_
  have has (n : Nat) := @Delivers.required _ _ _ _ _ n forest found only (supplied.satisfied id .top) delivers
  exact each row ⟨fun a member => has a.id (forest.requires_reads found a member), has⟩

/-- The code of every operator is supplied with what it reads, and delivers what is expected of it. -/
theorem Lowers.feeds_supplied (forest : plan.Forest) (lowers : plan.Lowers mode id tree)
    (checked : plan.Supplied id) : Feeds supplied (plan.Delivers id) tree.produce := by
  induction lowers with
  | @scan id node source found hop =>
    intro next each
    refine .scanRows (fun row has => each row fun n expected produced => ?_) _ _
    have required : (plan.requiredSet id).Has n := by
      rw [forest.requiredSet_eq found, hop]
      exact has_inter.mpr ⟨expected, produced⟩
    rw [forest.producedSet_eq found, hop] at produced
    obtain ⟨a, member, rfl⟩ := has_ofList.mp produced
    refine has a ?_
    rcases mem_append.mp member with isColumn | rowId
    · obtain ⟨column, among, rfl⟩ := mem_map.mp isColumn
      exact mem_append_left _ (mem_map.mpr
        ⟨column, mem_filter.mpr ⟨among, contains_iff.mpr required⟩, rfl⟩)
    · rw [mem_singleton] at rowId
      subst rowId
      rw [if_pos (contains_iff.mpr required)]
      exact mem_append_right _ mem_cons_self
  | @select id child node predicate tree found hop _ ih =>
    refine fun next each => checked.single forest found hop rfl ih _ fun row ⟨reads, has⟩ => ?_
    have : row.Offers supplied predicate.reads := reads.offers
    have := each row fun n expected _ => has n (by
      rw [forest.requiredSet_eq found, hop]
      exact has_union.mpr (Or.inl expected))
    infer_instance
  | @map id child node mappings tree found hop _ ih =>
    refine fun next each => checked.single forest found hop rfl ih _ fun row ⟨reads, has⟩ => ?_
    have : row.Offers supplied (mappingReads mappings) := reads.offers
    refine .mapRow fun row' results kept => each row' fun n expected _ => ?_
    by_cases computed : (ofList (mappings.map Mapping.result)).Has n
    · obtain ⟨a, member, rfl⟩ := has_ofList.mp computed
      exact results a member
    · refine kept (has n ?_)
      rw [forest.requiredSet_eq found, hop]
      exact has_union.mpr (Or.inl (has_diff.mpr ⟨expected, computed⟩))
  | @join id left right node predicate pairs keys first second found hop isPairs oriented _ _ ihLeft ihRight =>
    have leftAmong : left ∈ node.op.children := by rw [hop]; exact mem_cons_self
    have rightAmong : right ∈ node.op.children := by rw [hop]; exact mem_cons_of_mem _ mem_cons_self
    have left' := ihLeft (checked.input found leftAmong)
    have right' := ihRight (checked.input found rightAmong)
    -- An input delivers the part of what is required that it produces.
    have has {side : Nat} (among : side ∈ node.op.children) {row : HeldRow} (delivers : plan.Delivers side row) (n : Nat)
        (required : (plan.requiredSet id).Has n) (produced : (plan.producedSet side).Has n) : n ∈ row.ids := by
      refine delivers n ?_ produced
      rw [forest.expectedSet_input found among, hop]
      exact has_inter.mpr ⟨required, produced⟩
    have expects (n : Nat) (expected : (plan.expectedSet id).Has n) : (plan.requiredSet id).Has n := by
      rw [forest.requiredSet_eq found, hop]
      exact has_union.mpr (Or.inl expected)
    have requires (a : Attribute) (member : a ∈ predicate.reads) : (plan.requiredSet id).Has a.id :=
      forest.requires_reads found a (by rw [hop]; exact member)
    have keyed {side : Nat} (among : side ∈ node.op.children) {part : Scalar × Scalar → Scalar}
        (reads : ∀ pair ∈ pairs, ∀ key ∈ keys, Lowering.orient? (plan.producedSet left) (plan.producedSet right) pair = some key →
          ∀ a ∈ (part key).reads, (plan.producedSet side).Has a.id ∧ a ∈ pair.1.reads ++ pair.2.reads)
        {row : HeldRow} (delivers : plan.Delivers side row) : row.Has ((keys.map part).flatMap Scalar.reads) := by
      intro a member
      obtain ⟨e, isKey, isRead⟩ := mem_flatMap.mp member
      obtain ⟨key, amongKeys, rfl⟩ := mem_map.mp isKey
      obtain ⟨pair, amongPairs, isOriented⟩ := mem_of_mapM oriented amongKeys
      obtain ⟨produced, inPair⟩ := reads pair amongPairs key amongKeys isOriented a isRead
      exact has among delivers a.id (requires a (equalityPairs?_reads isPairs amongPairs inPair)) produced
    intro next each
    refine .joinRows left' right' (fun row delivers => ⟨HeldRow.Has.offers ?_, HeldRow.Has.offers ?_⟩)
      (fun row delivers => HeldRow.Has.offers ?_) fun row delivers joined hasCarried kept => each joined ?_
    · exact keyed leftAmong (fun _ _ _ _ isOriented => (orient?_reads isOriented).1) delivers
    · intro a member
      have carried : ((plan.expectedSet id).inter (plan.producedSet left)).Has a.id := ⟨a, member, rfl⟩
      obtain ⟨expected, produced⟩ := has_inter.mp carried
      exact has leftAmong delivers a.id (expects a.id expected) produced
    · exact keyed rightAmong (fun _ _ _ _ isOriented => (orient?_reads isOriented).2) delivers
    · intro n expected produced
      rw [forest.producedSet_eq found, hop] at produced
      by_cases fromLeft : (plan.producedSet left).Has n
      · obtain ⟨a, member, rfl⟩ := has_inter.mpr ⟨expected, fromLeft⟩
        exact hasCarried a member
      · rcases has_union.mp produced with other | fromRight
        · exact absurd other fromLeft
        · exact kept (has rightAmong delivers n (expects n expected) fromRight)
  | @group id child node aggregates tree found hop _ ih =>
    refine fun next each => .groupRows (checked.single forest found hop rfl ih) (fun row delivers => delivers.1.offers)
      fun row has => each row fun n _ produced => ?_
    rw [forest.producedSet_eq found, hop] at produced
    obtain ⟨a, member, rfl⟩ := has_ofList.mp produced
    exact has a member
  | @insert id branch node table types values found hop =>
    intro next each
    have none := checked.constant id node table types values branch .top found hop
    have : HeldRow.Offers supplied [] (values.flatMap Scalar.reads) := by
      rw [none]
      exact (HeldRow.Extends.refl []).1.offers
    unfold Physical.produce
    infer_instance
  | @update id child branch node table rowId assignments tree found hop _ ih =>
    refine fun next each => .countedRows (checked.single forest found hop rfl ih) (fun counter row delivers => ?_) _
    have : row.Offers supplied (updateReads rowId assignments) := delivers.1.offers
    infer_instance
  | @delete id child branch node table rowId tree found hop _ ih =>
    refine fun next each => .countedRows (checked.single forest found hop rfl ih) (fun counter row delivers => ?_) _
    have : row.Offers supplied [rowId] := delivers.1.offers
    infer_instance
  | @result id child node selection tree found hop _ ih =>
    have input := checked.single forest found hop rfl ih
    intro next each
    cases mode with
    | print => exact .printRows input fun row delivers => delivers.1.offers
    | collect =>
      refine input _ fun row delivers => ?_
      have : row.Offers supplied selection := delivers.1.offers
      infer_instance

end Plan

/-- What can be remembered of a finished plan: it starts with nothing. -/
inductive SetCache.Asked (plan : Plan) : SetCache → Prop
  | new : Asked plan {}
  | produced {cache : SetCache} (id : Nat) : Asked plan cache → Asked plan (Sets.after (plan.produced id) cache)
  | required {cache : SetCache} (id : Nat) : Asked plan cache → Asked plan (Sets.after (plan.required id) cache)
  | expected {cache : SetCache} (id : Nat) : Asked plan cache → Asked plan (Sets.after (plan.expected id) cache)
  | verified {cache cache' : SetCache} : Asked plan cache → plan.verify cache = .ok () cache' → Asked plan cache'

namespace Plan

variable {plan : Plan} {cache : SetCache}

theorem Forest.sound_of_asked (forest : plan.Forest) (asked : cache.Asked plan) : cache.Sound plan := by
  induction asked with
  | new => exact ⟨nofun, nofun⟩
  | produced id _ sound => exact forest.keeps_produced id _ sound
  | required id _ sound => exact forest.keeps_required id _ sound
  | expected id _ sound => exact leads_expected forest.keeps_produced forest.keeps_required id _ sound
  | verified _ checked sound =>
    have kept := leads_verify forest.keeps_produced forest.keeps_required _ sound
    unfold Sets.after at kept
    rwa [checked] at kept

/-- The code of a plan that has passed its check and whose inserts are constant never asks a row for an attribute that
the row does not have. -/
theorem emit_never_lacks_value {after before lowered : SetCache} {mode : ResultMode} {tree : Physical}
    (built : plan.Built) (asked : cache.Asked plan) (verified : plan.verify cache = .ok () after)
    (asked' : before.Asked plan) (chosen : plan.lower mode before = .ok tree lowered)
    (constant : ∀ root, plan.root = some root → plan.ConstantInserts root) (b b' : Builder) (a : Attribute) :
    tree.emit b ≠ .error (.error (.missingValue a)) b' := by
  have forest := built.forest
  cases top : plan.root with
  | none =>
    unfold verify at verified
    rw [top] at verified
    cases verified
  | some root =>
    obtain ⟨_, satisfied⟩ := forest.satisfied_of_verify (forest.sound_of_asked asked) top verified
    obtain ⟨_, lowers⟩ := forest.lowers_of_lower (forest.sound_of_asked asked') top chosen
    have feeds := lowers.feeds_supplied forest ⟨satisfied, constant root top⟩
    have : Obeys supplied (tree.produce fun _ => fail (.flow (.noParent (tree.size - 1)))) :=
      feeds _ fun _ _ => inferInstance
    have obeys : Obeys supplied tree.emit := by
      unfold Physical.emit Physical.checkFrame
      infer_instance
    exact obeys.holds b b' a

namespace Example

/-- The rows of one scan joined with those of another one, with a value computed from both. -/
def joined : Plan where
  nodes := #[
    { op := .scan ⟨"t", 0, [(0, ⟨0, .integer⟩)], ⟨1, .integer⟩, 0⟩, parent := some 2 },
    { op := .scan ⟨"t", 1, [(0, ⟨2, .integer⟩)], ⟨3, .integer⟩, 0⟩, parent := some 2 },
    { op := .join 0 1 (.compare .equal (.column ⟨0, .integer⟩) (.column ⟨2, .integer⟩)) .hash, parent := some 3 },
    { op := .map 2 [⟨⟨4, .integer⟩, .arithmetic .add (.column ⟨1, .integer⟩) (.column ⟨3, .integer⟩) .integer⟩],
      parent := some 4 },
    { op := .result 3 [⟨4, .integer⟩, ⟨0, .integer⟩] }]
  root := some 4

/-- A row whose value is taken from an attribute that nothing produces. -/
def unsupplied : Plan where
  nodes := #[
    { op := .insert "t" [.integer] [.column ⟨0, .integer⟩] 0, parent := some 1 },
    { op := .result 0 [] }]
  root := some 1

theorem joined_built : joined.Built :=
  have first := @Built.add _ _ (.scan ⟨"t", 0, [(0, ⟨0, .integer⟩)], ⟨1, .integer⟩, 0⟩) _ .new rfl
  have second := @Built.add _ _ (.scan ⟨"t", 1, [(0, ⟨2, .integer⟩)], ⟨3, .integer⟩, 0⟩) _ first rfl
  have third := @Built.add _ _
    (.join 0 1 (.compare .equal (.column ⟨0, .integer⟩) (.column ⟨2, .integer⟩)) .hash) _ second rfl
  have fourth := @Built.add _ _ (.map 2
    [⟨⟨4, .integer⟩, .arithmetic .add (.column ⟨1, .integer⟩) (.column ⟨3, .integer⟩) .integer⟩]) _ third rfl
  @Built.addRoot _ _ (.result 3 [⟨4, .integer⟩, ⟨0, .integer⟩]) _ fourth rfl

theorem joined_lowered : ∃ after tree lowered, joined.verify {} = .ok () after ∧
    joined.lower .collect after = .ok tree lowered := ⟨_, _, _, rfl, rfl⟩

theorem joined_constant : ∀ root, joined.root = some root → joined.ConstantInserts root := by
  intro root _ id node table types values branch _ found isInsert
  have member := Array.mem_of_getElem? found
  simp only [joined, mem_toArray, mem_cons, not_mem_nil, or_false] at member
  rcases member with rfl | rfl | rfl | rfl | rfl <;> cases isInsert

theorem unsupplied_built : unsupplied.Built :=
  have inserted := @Built.add _ _ (.insert "t" [.integer] [.column ⟨0, .integer⟩] 0) _ .new rfl
  @Built.addRoot _ _ (.result 0 []) _ inserted rfl

end Example

theorem emit_never_lacks_value_joined : Example.joined.Built ∧ ∃ after tree lowered,
    Example.joined.verify {} = .ok () after ∧ Example.joined.lower .collect after = .ok tree lowered ∧
      ∀ b b' a, tree.emit b ≠ .error (.error (.missingValue a)) b' := by
  obtain ⟨after, tree, lowered, verified, chosen⟩ := Example.joined_lowered
  refine ⟨Example.joined_built, after, tree, lowered, verified, chosen, fun b b' a => ?_⟩
  exact emit_never_lacks_value Example.joined_built .new verified (.verified .new verified) chosen
    Example.joined_constant b b' a

/-- An insert below the root is not checked: its plan passes, and its code lacks a value. -/
theorem verified_insert_lacks_value : Example.unsupplied.Built ∧ ∃ after tree lowered b',
    Example.unsupplied.verify {} = .ok () after ∧ Example.unsupplied.lower .collect after = .ok tree lowered ∧
      tree.emit (Builder.start { name := "query", encoding := .indicator } "query" [] none) =
        .error (.error (.missingValue ⟨0, .integer⟩)) b' :=
  ⟨Example.unsupplied_built, _, _, _, _, rfl, rfl, rfl⟩

end Plan

end QueryEngine
