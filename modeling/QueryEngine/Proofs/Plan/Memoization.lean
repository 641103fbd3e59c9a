import Mathlib.Data.List.Perm.Subperm
import QueryEngine.Proofs.Plan.Lowering

namespace QueryEngine

open List

variable {α : Type} {question : Sets α}

/-- Sets of operators of the plan, none of them twice. The sets that are still being worked on are not among them. -/
structure SetCache.Distinct (plan : Plan) (pending : Nat → Prop) (sets : List (Nat × AttributeSet)) : Prop where
  nodup : (sets.map Prod.fst).Nodup
  known : ∀ id ∈ sets.map Prod.fst, id < plan.size ∧ ¬pending id

namespace SetCache.Distinct

variable {plan : Plan} {pending : Nat → Prop} {sets : List (Nat × AttributeSet)} {id : Nat}

theorem begin (distinct : Distinct plan pending sets) (unknown : sets.lookup id = none) :
    Distinct plan (fun n => pending n ∨ n = id) sets where
  nodup := distinct.nodup
  known := by
    intro n member
    obtain ⟨bound, other⟩ := distinct.known n member
    refine ⟨bound, ?_⟩
    rintro (earlier | rfl)
    · exact other earlier
    · obtain ⟨entry, among, rfl⟩ := mem_map.mp member
      exact absurd (lookup_eq_none_iff.mp unknown entry among) (by simp)

theorem forget (distinct : Distinct plan (fun n => pending n ∨ n = id) sets) : Distinct plan pending sets where
  nodup := distinct.nodup
  known := fun n member => (distinct.known n member).imp_right fun other earlier => other (Or.inl earlier)

/-- A set is kept when the work on it is over. -/
theorem keep (distinct : Distinct plan (fun n => pending n ∨ n = id) sets) (bound : id < plan.size) (ended : ¬pending id)
    (set : AttributeSet) : Distinct plan pending ((id, set) :: sets) where
  nodup := nodup_cons.mpr ⟨fun member => (distinct.known id member).2 (Or.inr rfl), distinct.nodup⟩
  known := forall_mem_cons.mpr ⟨⟨bound, ended⟩, distinct.forget.known⟩

/-- There are no more of them than operators. -/
theorem length_le (distinct : Distinct plan pending sets) : sets.length ≤ plan.size := by
  have inside : sets.map Prod.fst ⊆ List.range plan.size := fun n member => mem_range.mpr (distinct.known n member).1
  simpa using (distinct.nodup.subperm inside).length_le

end SetCache.Distinct

/-- Every set that has been computed is remembered, and none of them twice. -/
structure SetCache.Once (plan : Plan) (producing requiring : Nat → Prop) (cache : SetCache) : Prop where
  produced : Distinct plan producing cache.produced
  required : Distinct plan requiring cache.required
  computed : cache.computed = cache.produced.length + cache.required.length

/-- What is remembered after a question, whether it has an answer or not. -/
def Sets.after {α : Type} (question : Sets α) (cache : SetCache) : SetCache :=
  match question cache with
  | .ok _ cache | .error _ cache => cache

/-- What is remembered before a question, and after it. -/
def Sets.Leads {α : Type} (before after : SetCache → Prop) (question : Sets α) : Prop :=
  ∀ cache, before cache → after (question.after cache)

/-- A question that leaves something true of what is remembered. -/
abbrev Sets.Keeps {α : Type} (holds : SetCache → Prop) (question : Sets α) : Prop := Leads holds holds question

namespace Sets.Leads

variable {β : Type} {next : α → Sets β} {before mid after : SetCache → Prop}

theorem pure (x : α) : Keeps before (Pure.pure x : Sets α) := fun _ holds => holds

theorem throw (cause : PlanError) : Keeps before (MonadExcept.throw cause : Sets α) := fun _ holds => holds

theorem bind (first : Leads before mid question) (rest : ∀ x, Leads mid after (next x))
    (weaker : ∀ cache, mid cache → after cache) : Leads before after (question >>= next) := by
  intro cache holds
  have there := first cache holds
  unfold Sets.after at there ⊢
  simp only [Bind.bind, EStateM.bind]
  cases asked : question cache with
  | ok x cache' =>
    rw [asked] at there
    exact rest x cache' there
  | error cause cache' =>
    rw [asked] at there
    exact weaker cache' there

theorem seq (first : Keeps before question) (rest : ∀ x, Keeps before (next x)) : Keeps before (question >>= next) :=
  first.bind rest fun _ => id

/-- Operators are looked up first, and what is asked next is about one that is there. -/
theorem look {answer : Except PlanError α} (rest : ∀ x, answer = .ok x → Keeps before (next x)) :
    Keeps before (ofExcept answer >>= next) := by
  cases answer with
  | ok x => exact rest x rfl
  | error cause => exact fun _ holds => holds

theorem get {next : SetCache → Sets α} (each : ∀ cache, before cache → after ((next cache).after cache)) :
    Leads before after (MonadState.get >>= next) := each

end Sets.Leads

namespace Plan

open Sets

variable {plan : Plan} {id limit : Nat} {producing requiring : Nat → Prop} {holds : SetCache → Prop}

theorem Forest.leads_producedWithin (forest : plan.Forest) (above : ∀ n, producing n → id < n) :
    Keeps (SetCache.Once plan producing requiring) (plan.producedWithin limit id) := by
  -- What is asked for on the way lies below all operators that are worked on.
  induction limit generalizing id producing with
  | zero => exact .throw _
  | succ limit ih =>
    refine .look fun node found => .get fun cache once => ?_
    rw [node_ok] at found
    cases unknown : cache.produced.lookup id with
    | some set => exact once
    | none =>
      have bound : id < plan.size := (Array.getElem?_eq_some_iff.mp found).1
      have keep (set : AttributeSet) : Leads (SetCache.Once plan (fun n => producing n ∨ n = id) requiring)
          (SetCache.Once plan producing requiring) (keepProduced id set) := fun cache once =>
        ⟨once.produced.keep bound (fun pending => Nat.lt_irrefl id (above id pending)) set, once.required,
          (congrArg (· + 1) once.computed).trans (Nat.add_right_comm ..)⟩
      have below (child : Nat) (among : child ∈ node.op.children) :
          Keeps (SetCache.Once plan (fun n => producing n ∨ n = id) requiring) (plan.producedWithin limit child) := by
        have less := (forest.input id node child found among).1
        refine ih fun n pending => ?_
        rcases pending with pending | rfl
        · exact Nat.lt_trans less (above n pending)
        · exact less
      have weaker (cache : SetCache) (once : cache.Once plan (fun n => producing n ∨ n = id) requiring) :
          cache.Once plan producing requiring := { once with produced := once.produced.forget }
      refine (show Leads _ (SetCache.Once plan producing requiring) _ from ?_) cache
        { once with produced := once.produced.begin unknown }
      generalize node.op = op at below
      cases op with
      | scan | group | insert | update | delete | result => exact keep _
      | select child | map child => exact .bind (below child mem_cons_self) (fun _ => keep _) weaker
      | join left right =>
        refine .bind (below left mem_cons_self) (fun _ => ?_) weaker
        exact .bind (below right (mem_cons_of_mem _ mem_cons_self)) (fun _ => keep _) weaker

theorem Forest.leads_produced (forest : plan.Forest) (id : Nat) :
    Keeps (SetCache.Once plan (fun _ => False) requiring) (plan.produced id) := forest.leads_producedWithin nofun

section

variable (produced : ∀ id, Keeps holds (plan.produced id))

include produced

theorem leads_expectedUnder (id parent : Nat) (required : AttributeSet) :
    Keeps holds (plan.expectedUnder id parent required) := by
  refine .look fun above _ => ?_
  cases above.op with
  | join => exact .seq (produced id) fun _ => .pure _
  | _ => exact .pure _

theorem leads_requiredFrom (id : Nat) (op : Operator) {expected : Sets AttributeSet} (expects : Keeps holds expected) :
    Keeps holds (plan.requiredFrom id op expected) := by
  cases op with
  | scan => exact .seq (produced id) fun _ => .seq expects fun _ => .pure _
  | select | join | map => exact .seq expects fun _ => .pure _
  | _ => exact .pure _

omit produced in
theorem Forest.leads_requiredWithin (forest : plan.Forest) (below : ∀ n, requiring n → n < id) :
    Keeps (SetCache.Once plan (fun _ => False) requiring) (plan.requiredWithin limit id) := by
  induction limit generalizing id requiring with
  | zero => exact .throw _
  | succ limit ih =>
    refine .look fun node found => .get fun cache once => ?_
    rw [node_ok] at found
    cases unknown : cache.required.lookup id with
    | some set => exact once
    | none =>
      refine (show Leads (SetCache.Once plan (fun _ => False) fun n => requiring n ∨ n = id) _ _ from ?_) cache
        { once with required := once.required.begin unknown }
      refine .bind (leads_requiredFrom forest.leads_produced id node.op ?_) (fun set cache once => ?_)
        fun cache once => { once with required := once.required.forget }
      · cases isParent : node.parent with
        | none => exact .pure _
        | some parent =>
          have less := forest.parent_lt found isParent
          refine .seq (ih fun n pending => ?_) fun _ => leads_expectedUnder forest.leads_produced id parent _
          rcases pending with pending | rfl
          · exact Nat.lt_trans (below n pending) less
          · exact less
      · have bound : id < plan.size := (Array.getElem?_eq_some_iff.mp found).1
        exact ⟨once.produced, once.required.keep bound (fun pending => Nat.lt_irrefl id (below id pending)) set,
          congrArg (· + 1) once.computed⟩

/-- The other questions are made of these two. -/
theorem leads_expected (required : ∀ id, Keeps holds (plan.required id)) (id : Nat) :
    Keeps holds (plan.expected id) := by
  refine .look fun node _ => ?_
  cases node.parent with
  | none => exact .pure _
  | some parent => exact .seq (required parent) fun _ => leads_expectedUnder produced id parent _

theorem leads_producedByAll (ids : List Nat) (set : AttributeSet) :
    Keeps holds (plan.producedByAll ids set) := by
  induction ids generalizing set with
  | nil => exact .pure _
  | cons id ids ih => exact .seq (produced id) fun _ => ih _

theorem leads_verifyBelow (required : ∀ id, Keeps holds (plan.required id)) (limit id : Nat) :
    Keeps holds (plan.verifyBelow limit id) := by
  induction limit generalizing id with
  | zero => exact .throw _
  | succ limit ih =>
    have each (ids : List Nat) : Keeps holds (ids.forM (plan.verifyBelow limit)) := by
      induction ids with
      | nil => exact .pure _
      | cons id ids rest => exact .seq (ih id) fun _ => rest
    refine .look fun op _ => ?_
    split
    · exact .pure _
    · refine .seq (leads_producedByAll produced op.children .empty) fun _ => .seq (required id) fun _ => ?_
      dsimp only
      split
      · exact .throw _
      · exact each op.children

theorem leads_verify (required : ∀ id, Keeps holds (plan.required id)) :
    Keeps holds plan.verify := by
  unfold verify
  cases plan.root with
  | none => exact .throw _
  | some root => exact leads_verifyBelow produced required plan.size root

end

theorem keeps_sound {x : α} (answers : Answers plan question x) :
    Keeps (SetCache.Sound plan) question := by
  intro cache sound
  obtain ⟨_, same, sound'⟩ := answers cache sound
  unfold Sets.after
  rw [same]
  exact sound'

theorem keeps_unknown {next : PlanNode → Sets α} (unknown : plan.size ≤ id) :
    Keeps holds (ofExcept (plan.node id) >>= next) :=
  .look fun _ found => absurd (Array.getElem?_eq_some_iff.mp (node_ok.mp found)).1 (Nat.not_lt.mpr unknown)

/-- What is remembered stays right, also when the operator that is asked for is not there. -/
theorem Forest.keeps_produced (forest : plan.Forest) (id : Nat) : Keeps (SetCache.Sound plan) (plan.produced id) := by
  rcases Nat.lt_or_ge id plan.size with bound | unknown
  · exact keeps_sound (forest.answers_produced bound)
  · unfold produced
    cases plan.size with
    | zero => exact .throw _
    | succ limit => exact keeps_unknown unknown

theorem Forest.keeps_required (forest : plan.Forest) (id : Nat) : Keeps (SetCache.Sound plan) (plan.required id) := by
  rcases Nat.lt_or_ge id plan.size with bound | unknown
  · exact keeps_sound (forest.answers_required bound)
  · unfold required
    cases plan.size with
    | zero => exact .throw _
    | succ limit => exact keeps_unknown unknown

/-- A question about a plan. -/
inductive Question where
  | produced (id : Nat)
  | required (id : Nat)
  | expected (id : Nat)
  | verify

/-- What is remembered after a question. -/
def Question.after (plan : Plan) (cache : SetCache) : Question → SetCache
  | produced id => Sets.after (plan.produced id) cache
  | required id => Sets.after (plan.required id) cache
  | expected id => Sets.after (plan.expected id) cache
  | verify => Sets.after plan.verify cache

/-- What every question keeps if the two that are remembered do. -/
theorem Question.keeps (produced : ∀ id, Keeps holds (plan.produced id)) (required : ∀ id, Keeps holds (plan.required id))
    (start : holds {}) (questions : List Question) : holds (questions.foldl (Question.after plan) {}) := by
  refine foldlRecOn questions _ start fun cache before question _ => ?_
  cases question with
  | produced id => exact produced id cache before
  | required id => exact required id cache before
  | expected id => exact leads_expected produced required id cache before
  | verify => exact leads_verify produced required cache before

theorem Forest.once_after (forest : plan.Forest) (questions : List Question) :
    (questions.foldl (Question.after plan) {}).Once plan (fun _ => False) fun _ => False :=
  Question.keeps forest.leads_produced (fun _ => forest.leads_requiredWithin nofun)
    ⟨⟨nodup_nil, nofun⟩, ⟨nodup_nil, nofun⟩, rfl⟩ questions

/-- After any questions about a plan, every question about one of its operators is answered, with the set that the plain
recursive definition gives, and the check of the plan passes or says what an operator lacks. No set has been computed
twice, so there are at most two for each operator. -/
theorem sets_computed_once (calls : List Call) (questions : List Question) :
    let plan := calls.foldl after {}
    let cache := questions.foldl (Question.after plan) {}
    (∀ id node, plan.nodes[id]? = some node →
      (∃ after, plan.produced id cache = .ok (plan.producedSet id) after) ∧
      (∃ after, plan.required id cache = .ok (plan.requiredSet id) after) ∧
      (∃ after, plan.expected id cache = .ok (plan.expectedSet id) after) ∧
      plan.producedSet id = node.op.produced plan.producedSet ∧
      plan.requiredSet id = node.op.required (plan.producedSet id) (plan.expectedSet id) ∧
      (node.parent = none → plan.expectedSet id = .empty) ∧
      ∀ child ∈ node.op.children,
        plan.expectedSet child = node.op.expects (plan.requiredSet id) (plan.producedSet child)) ∧
    (∀ root, plan.root = some root → (∃ after, plan.verify cache = .ok () after) ∨
      ∃ id node missing after, plan.Lacks id node missing ∧
        plan.verify cache = .error (.unsatisfied node.op.name id missing) after) ∧
    (cache.produced.map Prod.fst).Nodup ∧ (cache.required.map Prod.fst).Nodup ∧
      cache.computed = cache.produced.length + cache.required.length ∧ cache.computed ≤ 2 * plan.size := by
  have built : (calls.foldl after {}).Built := foldl_after Built .new fun _ _ _ _ built ran => built.run ran
  have forest := built.forest
  generalize calls.foldl after {} = plan at forest ⊢
  have sound := Question.keeps forest.keeps_produced forest.keeps_required ⟨nofun, nofun⟩ questions
  have once := forest.once_after questions
  dsimp only
  generalize questions.foldl (Question.after plan) {} = cache at sound once ⊢
  have answered {α : Type} {question : Sets α} {x : α} (answers : Answers plan question x) :
      ∃ after, question cache = .ok x after :=
    (answers cache sound).imp fun _ asked => asked.1
  refine ⟨fun id node found => ?_, fun root top => ?_, once.produced.nodup, once.required.nodup, once.computed, ?_⟩
  · have bound : id < plan.size := (Array.getElem?_eq_some_iff.mp found).1
    exact ⟨answered (forest.answers_produced bound), answered (forest.answers_required bound),
      answered (forest.answers_expected bound), forest.producedSet_eq found, forest.requiredSet_eq found,
      expectedSet_root found, fun child among => forest.expectedSet_input found among⟩
  · rcases forest.decides_verify top cache sound with ⟨after, passed, _⟩ | ⟨id, node, missing, after, _, lacks, failed⟩
    · exact Or.inl ⟨after, passed⟩
    · exact Or.inr ⟨id, node, missing, after, lacks, failed⟩
  · have few := once.produced.length_le
    have few' := once.required.length_le
    rw [once.computed]
    omega

end Plan

end QueryEngine
