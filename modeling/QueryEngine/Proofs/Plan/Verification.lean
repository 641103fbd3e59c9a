import QueryEngine.Query
import QueryEngine.Proofs.Plan.Supply

namespace QueryEngine

open List

/-- A plan passes its check exactly if the operators that have inputs are given what they require. Otherwise the check
names one that is not and what it lacks, and that is why the plan is not compiled. -/
theorem Planner.compile_refuses_unsatisfied {p : Planner} {cache : SetCache} {root : Nat} (built : p.plan.Built)
    (asked : cache.Asked p.plan) (top : p.plan.root = some root) (settings : Settings) :
    ((∃ after, p.plan.verify cache = .ok () after) ↔ ∀ id, p.plan.Under root id → p.plan.Satisfied id) ∧
      ((∃ id, p.plan.Under root id ∧ ¬p.plan.Satisfied id) →
        ∃ id node missing after, p.plan.Under root id ∧ p.plan.Lacks id node missing ∧
          p.plan.verify cache = .error (.unsatisfied node.op.name id missing) after ∧
          p.compile settings cache =
            .error (.error (.dependencies (.unsatisfied node.op.name id missing))) after) := by
  have forest := built.forest
  rcases forest.decides_verify top cache (forest.sound_of_asked asked) with ⟨after, checked, _, satisfied⟩ |
    ⟨id, node, missing, after, under, lacks, checked⟩
  · refine ⟨⟨fun _ => satisfied, fun _ => ⟨after, checked⟩⟩, ?_⟩
    rintro ⟨id, under, unsatisfied⟩
    exact absurd (satisfied id under) unsatisfied
  · refine ⟨⟨?_, fun all => absurd (all id under) lacks.not_satisfied⟩, fun _ => ?_⟩
    · rintro ⟨after', passed⟩
      rw [checked] at passed
      cases passed
    · refine ⟨id, node, missing, after, under, lacks, checked, ?_⟩
      simp [compile, top, Compile.checkDependencies, checked, Bind.bind, EStateM.bind]

namespace Plan.Example

/-- A selection on an attribute that its scan does not produce. -/
def unread : Plan where
  nodes := #[
    { op := .scan ⟨"t", 0, [(0, ⟨0, .integer⟩)], ⟨1, .integer⟩, 0⟩, parent := some 1 },
    { op := .select 0 (.column ⟨2, .bool⟩), parent := some 2 },
    { op := .result 1 [⟨0, .integer⟩] }]
  root := some 2

/-- One row whose value is taken from an attribute that nothing produces. -/
def uncheckedInsert : Plan where
  nodes := #[{ op := .insert "t" [.integer] [.column ⟨0, .integer⟩] 0 }]
  root := some 0

/-- A planner that has made the plan with the unread attribute. -/
def unreadPlanner : Planner where
  database := { encoding := .indicator }
  branch := 0
  plan := unread

theorem unread_built : unread.Built :=
  have first := @Built.add _ _ (.scan ⟨"t", 0, [(0, ⟨0, .integer⟩)], ⟨1, .integer⟩, 0⟩) _ .new rfl
  have second := @Built.add _ _ (.select 0 (.column ⟨2, .bool⟩)) _ first rfl
  @Built.addRoot _ _ (.result 1 [⟨0, .integer⟩]) _ second rfl

theorem unread_unsatisfied : ∃ id, unread.Under 2 id ∧ ¬unread.Satisfied id := by
  refine ⟨1, @Under.input _ _ 2 _ _ rfl mem_cons_self .top, fun satisfied => ?_⟩
  have forest := unread_built.forest
  have required : (unread.requiredSet 1).Has 2 := by
    rw [@Forest.requiredSet_eq _ 1 _ forest rfl]
    exact AttributeSet.has_union.mpr (Or.inr (has_ofList_of_mem (a := ⟨2, .bool⟩) mem_cons_self))
  obtain ⟨_, among, produced⟩ := satisfied _ rfl (by decide) 2 required
  rw [mem_singleton.mp among, @Forest.producedSet_eq _ 0 _ forest rfl] at produced
  obtain ⟨a, member, same⟩ := AttributeSet.has_ofList.mp produced
  simp only [map_cons, map_nil, cons_append, nil_append, mem_cons, not_mem_nil,
    or_false] at member
  rcases member with rfl | rfl <;> cases same

theorem uncheckedInsert_built : uncheckedInsert.Built :=
  @Built.addRoot _ _ (.insert "t" [.integer] [.column ⟨0, .integer⟩] 0) _ .new rfl

end Plan.Example

theorem Planner.compile_refuses_unread : Plan.Example.unread.Built ∧
    (∃ id, Plan.Example.unread.Under 2 id ∧ ¬Plan.Example.unread.Satisfied id) ∧
      (¬∃ after, Plan.Example.unread.verify {} = .ok () after) ∧
        ∃ cause after, Plan.Example.unreadPlanner.compile {} {} =
          .error (.error (.dependencies cause)) after := by
  obtain ⟨decides, refuses⟩ := Planner.compile_refuses_unsatisfied (p := Plan.Example.unreadPlanner)
    Plan.Example.unread_built .new rfl {}
  obtain ⟨id, under, unsatisfied⟩ := Plan.Example.unread_unsatisfied
  refine ⟨Plan.Example.unread_built, Plan.Example.unread_unsatisfied, fun passed => ?_, ?_⟩
  · exact unsatisfied (decides.mp passed id under)
  · obtain ⟨_, node, missing, after, _, _, _, refused⟩ := refuses Plan.Example.unread_unsatisfied
    exact ⟨_, after, refused⟩

/-- An insert has no input, so nothing produces what it requires, and its plan passes the check all the same. -/
theorem Plan.verify_passes_insert : Example.uncheckedInsert.Built ∧ Example.uncheckedInsert.root = some 0 ∧
    (Example.uncheckedInsert.requiredSet 0).Has 0 ∧
      (∃ node, Example.uncheckedInsert.nodes[0]? = some node ∧ node.op.children = []) ∧
        ∃ after, Example.uncheckedInsert.verify {} = .ok () after := by
  refine ⟨Example.uncheckedInsert_built, rfl, ?_, ⟨_, rfl, rfl⟩, ⟨_, rfl⟩⟩
  rw [@Forest.requiredSet_eq _ 0 _ Example.uncheckedInsert_built.forest rfl]
  exact has_ofList_of_mem (a := ⟨0, .integer⟩) mem_cons_self

end QueryEngine
