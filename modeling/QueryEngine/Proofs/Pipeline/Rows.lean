import QueryEngine.Proofs.Pipeline.Receivers

namespace QueryEngine

open Emit Option Mapping

variable {host : Host}

/-- The values of an evaluation in steps. -/
theorem Evaluation.value_bind (eval : Evaluation α) (next : α → Evaluation β) :
    Option.map Prod.fst (eval >>= next : Evaluation β) = (Option.map Prod.fst eval).bind fun x => Option.map Prod.fst (next x) := by
  rcases eval with _ | ⟨x, _⟩
  · rfl
  · change Option.map Prod.fst (Option.map _ (next x)) = Option.map Prod.fst (next x)
    rcases next x with _ | ⟨y, _⟩
    · rfl
    · rfl

/-- The value of an expression for a row, without what is reported on the way to it. -/
def Scalar.value? (row : ValueRow) (e : Scalar) : Option Datum := Option.map Prod.fst (e.evaluate row)

/-- The row itself where the predicate is true of it, and no row elsewhere. -/
def Scalar.select? (predicate : Scalar) (row : ValueRow) : Option (List ValueRow) :=
  (predicate.value? row).map fun d => if d = .bool true then [row] else []

/-- The row with computed values in front, each of them computed from `source`. -/
def Mapping.extend? (source : ValueRow) : List Mapping → ValueRow → Option ValueRow
  | [], row => some row
  | mapping :: mappings, row => do
    let d ← mapping.value.value? source
    extend? source mappings ((mapping.result, d) :: row)

/-- The row with computed values in front, and what is reported on the way to them. -/
def Mapping.extended (source : ValueRow) : List Mapping → ValueRow → Evaluation ValueRow
  | [], row => return row
  | mapping :: mappings, row => do
    let d ← mapping.value.evaluate source
    extended source mappings ((mapping.result, d) :: row)

theorem Mapping.extend?_eq (source : ValueRow) (mappings : List Mapping) (row : ValueRow) :
    extend? source mappings row = Option.map Prod.fst (extended source mappings row) := by
  induction mappings generalizing row with
  | nil => rfl
  | cons mapping mappings ih =>
    rw [extended, Evaluation.value_bind, extend?]
    simp only [ih]
    rfl

def Mapping.mapped? (mappings : List Mapping) (row : ValueRow) : Option (List ValueRow) :=
  (extend? row mappings row).map ([·])

/-- Every expression reads attributes of the shapes that their numbers stand for, and what is computed gets an attribute
of its own shape. -/
def Mapping.Typed (types : Nat → Shape) (mapping : Mapping) : Prop :=
  mapping.value.Typed types ∧ mapping.result.Typed types ∧ mapping.result.ty.shape = mapping.value.ty.shape

theorem Machine.Quiet.reportAll (m : Machine) (reports : List Diagnostic) : m.Quiet (m.reportAll reports) := by
  refine ⟨⟨⟨rfl, rfl, rfl, rfl, Nat.le_refl _, fun reported => ?_⟩, fun part _ _ => ?_⟩, rfl⟩
  · change (m.outcome.overflow || _) = true
    rw [reported, Bool.true_or]
  · cases part with
    | memory offset => exact ⟨rfl, rfl⟩
    | rows => exact rfl

theorem Evaluation.Reaches.quiet {α : Type} {eval : Evaluation α} {m m' : Machine} {x : α} (reaches : eval.Reaches m x m') :
    m.Quiet m' := by
  obtain ⟨reports, _, rfl⟩ := reaches
  exact .reportAll m reports

section

/-- The code of an expression changes nothing but what is reported. -/
theorem Scalar.attains_value (e : Scalar) (is : HeldRow.Is s held row) : host.Attains (e.emit held) s fun h s' =>
    ∃ d, e.value? row = some d ∧ s.machine.Quiet s'.machine ∧ h.Is s' d := by
  refine (e.attains_emit is).mono fun h s' _ ⟨d, reaches, hIs⟩ => ⟨d, ?_, reaches.quiet, hIs⟩
  obtain ⟨_, gives, _⟩ := reaches
  rw [value?, gives]
  rfl

/-- The values of expressions in registers. -/
theorem Scalar.attains_all {keys : List Scalar} (is : HeldRow.Is s held row) :
    host.Attains (keys.mapM (Scalar.emit held)) s fun hs s' => ∃ ds, keys.mapM (fun key => key.value? row) = some ds ∧
      s.machine.Quiet s'.machine ∧ Held.All s' hs ds := by
  induction keys generalizing s with
  | nil => exact .pure ⟨[], rfl, .refl _, .nil⟩
  | cons key keys ih =>
    rw [List.mapM_cons]
    refine (key.attains_value is).bind fun h s1 before1 ⟨d, gives, quiet1, hIs⟩ => ?_
    refine (ih (is.mono before1)).bind fun hs s2 before2 ⟨ds, others, quiet2, are⟩ => ?_
    exact .pure ⟨d :: ds, mapM_cons_eq_some_iff.mpr ⟨d, ds, gives, others, rfl⟩, quiet1.trans quiet2,
      .cons (hIs.mono before2) are⟩

theorem filterRow_step (predicate : Scalar) : host.HandsOn types (filterRow predicate) predicate.select? 1 := by
  intro R next held row rows left own s grows receives is typed enough stands
  refine (predicate.attains_value is).bind fun h s1 before1 ⟨d, gives, quiet1, hIs⟩ => ?_
  refine hIs.isTrue.bind fun cond s2 before2 ⟨machine2, bit⟩ => ?_
  have quiet : s.machine.Quiet s2.machine := machine2 ▸ quiet1
  have before := before1.trans before2
  refine .ifThen (fun m => ∃ out, predicate.select? row = some out ∧ R.Moves host s.size rows out left own s.machine m)
    bit (fun isTrue s3 before3 machine3 => ?_) fun isFalse => ?_
  · have early := before.trans before3
    have quiet3 : s.machine.Quiet s3.machine := machine3 ▸ quiet
    refine (receives held row rows left own s3 early quiet3.toLater (is.mono early) typed enough
      (stands.quiet quiet3 early.types_size)).mono fun _ s4 _ moves => ⟨[row], ?_, ?_⟩
    · rw [Scalar.select?, gives, map_some, if_pos (of_decide_eq_true isTrue)]
    · exact moves.after stands quiet3 early.types_size
  · refine ⟨[], ?_, ?_⟩
    · rw [Scalar.select?, gives, map_some, if_neg (of_decide_eq_false isFalse)]
    · exact (stands.quiet quiet (Nat.le_refl _)).moves.after stands quiet (Nat.le_refl _)

theorem attains_extendRow (fromIs : HeldRow.Is s source values) (fromTyped : HeldRow.Typed types source)
    (is : HeldRow.Is s held row) (typed : HeldRow.Typed types held) (each : ∀ mapping ∈ mappings, mapping.Typed types) :
    host.Attains (extendRow source mappings held) s fun held' s' => ∃ row',
      (extended values mappings row).Reaches s.machine row' s'.machine ∧ HeldRow.Is s' held' row' ∧
      HeldRow.Typed types held' := by
  induction mappings generalizing s held row with
  | nil => exact .pure ⟨row, .pure row rfl, is, typed⟩
  | cons mapping mappings ih =>
    obtain ⟨reads, result, shape⟩ := each mapping List.mem_cons_self
    refine ((mapping.value.attains_emit fromIs).with_gives (Scalar.gives_shape reads fromTyped)).bind
      fun h s1 before1 ⟨⟨d, reaches, hIs⟩, hShape⟩ => ?_
    have given : Gives (h.withNullability mapping.result.ty) fun h' => h'.ty.shape = mapping.result.ty.shape :=
      Held.gives_withNullability fun _ => hShape.trans shape.symm
    refine ((hIs.withNullability mapping.result.ty).with_gives given).bind
      fun h' s2 before2 ⟨⟨machine2, hIs'⟩, hShape'⟩ => ?_
    have before := before1.trans before2
    have typed' : HeldRow.Typed types ((mapping.result, h') :: held) :=
      List.forall_mem_cons.mpr ⟨hShape'.trans result, typed⟩
    have is' : HeldRow.Is s2 ((mapping.result, h') :: held) ((mapping.result, d) :: row) :=
      .cons ⟨rfl, hIs'⟩ (is.mono before)
    refine (ih (fromIs.mono before) is' typed'
      fun other member => each other (List.mem_cons_of_mem _ member)).mono
      fun held' s3 _ ⟨row', extended, is3, typed3⟩ => ⟨row', reaches.bind ?_, is3, typed3⟩
    rw [← machine2]
    exact extended

theorem mapRow_step (mappings : List Mapping) (each : ∀ mapping ∈ mappings, mapping.Typed types) :
    host.HandsOn types (mapRow mappings) (mapped? mappings) 1 := by
  intro R next held row rows left own s grows receives is typed enough stands
  refine (attains_extendRow is typed is typed each).bind fun held' s1 before1 ⟨row', reaches, is', typed'⟩ => ?_
  have quiet := reaches.quiet
  have gives : extend? row mappings row = some row' := by
    obtain ⟨_, given, _⟩ := reaches
    rw [extend?_eq, given]
    rfl
  refine (receives held' row' rows left own s1 before1 quiet.toLater is' typed' enough
    (stands.quiet quiet before1.types_size)).mono fun _ s2 _ moves => ⟨[row'], ?_, ?_⟩
  · rw [mapped?, gives, map_some]
  · exact moves.after stands quiet before1.types_size

end

section

/-- A selection hands on the rows of which its predicate is true, in their order. -/
theorem Host.Produces.select (produces : host.Produces types db settings code outputs most need) (predicate : Scalar) :
    host.Produces types db settings (fun next => code (filterRow predicate next))
      (fun out => ∃ ins outs, outputs ins ∧ ins.mapM predicate.select? = some outs ∧ out = outs.flatten) (most * 1) need := by
  refine produces.through (fun next grows held => inferInstance) (fun row out gives => ?_) (filterRow_step predicate)
  obtain ⟨d, _, rfl⟩ := map_eq_some_iff.mp gives
  split <;> simp

/-- A mapping hands on every row with its computed values. -/
theorem Host.Produces.map (produces : host.Produces types db settings code outputs most need)
    (each : ∀ mapping ∈ mappings, mapping.Typed types) :
    host.Produces types db settings (fun next => code (mapRow mappings next))
      (fun out => ∃ ins outs, outputs ins ∧ ins.mapM (mapped? mappings) = some outs ∧ out = outs.flatten)
      (most * 1) need := by
  refine produces.through (fun next grows held => inferInstance) (fun row out gives => ?_) (mapRow_step mappings each)
  obtain ⟨_, _, rfl⟩ := map_eq_some_iff.mp gives
  exact Nat.le_refl _

end

end QueryEngine
