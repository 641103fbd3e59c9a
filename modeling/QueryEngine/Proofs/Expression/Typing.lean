import QueryEngine.Proofs.Expression.Compilation

namespace QueryEngine

open Emit Held

variable {e : Scalar} {α : Type} {host : Host} {s : Point} {post : α → Point → Prop}

namespace Present

theorem gives_ofRegs (ty : ValueType) (regs : List Reg) : Gives (ofRegs ty regs) fun v => v.ty.shape = ty.shape := by
  unfold ofRegs
  split
  next v found => exact .pure (ofRegs?_eq found).2
  · exact .throw

theorem gives_build (ty : ValueType) (part : CodeType × Nat → Emit Reg) :
    Gives (build ty part) fun v => v.ty.shape = ty.shape := by
  unfold build
  split
  · exact .throw
  · exact .after fun regs => gives_ofRegs ty regs

theorem gives_constant (d : Datum) (ty : ValueType) : Gives (constant d ty) fun v => v.ty.shape = ty.shape := by
  intro b v b' emitted
  obtain ⟨d', c, emitted1, emitted2⟩ := bind_ran emitted
  have coerced : d.coerce ty.asNotNull = .ok d' := by
    cases result : d.coerce ty.asNotNull with
    | error fault => rw [result] at emitted1; cases emitted1
    | ok found => rw [result] at emitted1; cases emitted1; rfl
  have fits (notNull : d'.isNull = false) := (Datum.coerce_hasShape coerced notNull).shape_eq
  cases d' with
  | null => cases emitted2
  | bool | integer | date | timestamp =>
    have shape : ty.shape = _ := fits rfl
    obtain ⟨r, c', _, ⟨⟩⟩ := bind_ran emitted2
    exact shape.symm
  | numeric =>
    obtain ⟨r, c', _, given⟩ := bind_ran emitted2
    exact gives_ofRegs ty.asNotNull _ _ _ _ given
  | char | varchar =>
    obtain ⟨⟨_, _⟩, c', _, given⟩ := bind_ran emitted2
    exact gives_ofRegs ty.asNotNull _ _ _ _ given

theorem gives_arithmetic (op : ArithOp) (result : ValueType) (a b : Present) :
    Gives (arithmetic op result a b) fun v => v.ty.shape = result.shape := by
  unfold arithmetic
  split
  next shape =>
    split
    · exact .after fun r => .pure shape.symm
    · split
      · exact .after fun x => .after fun y => by split <;> exact .throw
      · exact .throw
  next shape =>
    split
    · refine .after fun x => .after fun y => ?_
      split
      · exact .after fun r => .pure shape.symm
      · exact .throw
    · exact .throw
  · exact .throw

theorem gives_cast (target : ValueType) (value : Present) :
    Gives (cast target value) fun v => v.ty.shape = target.shape := by
  unfold cast
  split
  next same => exact .pure (by simpa [ValueType.sameShape] using same)
  · split
    case h_9 => exact .throw
    case h_4 | h_5 | h_6 | h_7 =>
      rename_i shape _
      exact .pure shape.symm
    case h_1 | h_3 =>
      rename_i shape _
      exact .after fun _ => .after fun _ => .pure shape.symm
    case h_2 =>
      rename_i shape _
      exact .after fun _ => .pure shape.symm
    case h_8 =>
      rename_i shape _
      exact .after fun _ => .after fun _ => .after fun _ => .pure shape.symm

end Present

namespace Held

theorem gives_null (ty : ValueType) : Gives (null ty) fun h => h.ty.shape = ty.shape := by
  refine .ite (fun isUnknown => .pure ?_) fun _ => ?_
  · simpa [ValueType.isUnknown, eq_comm, Held.ty, ValueType.unknown] using isUnknown
  · refine .bind (Present.gives_build ty _) fun v shape => .after fun flag => .pure ?_
    exact shape

variable {ty : ValueType}

theorem gives_withNullability {h : Held} (same : h ≠ .unknown → h.ty.shape = ty.shape) :
    Gives (h.withNullability ty) fun h' => h'.ty.shape = ty.shape := by
  cases h with
  | unknown => exact gives_null ty.asNullable
  | present v =>
    have shape := same nofun
    exact .ite (fun _ => .after fun flag => .pure shape) fun _ => .pure shape
  | nullable v flag =>
    have shape := same nofun
    exact .ite (fun _ => .pure shape) fun _ => .throw

theorem gives_constant (d : Datum) (ty : ValueType) : Gives (constant d ty) fun h => h.ty.shape = ty.shape := by
  refine .ite (fun _ => gives_null ty) fun _ => ?_
  exact .bind (Present.gives_constant d ty) fun v shape => gives_withNullability fun _ => shape

theorem gives_guarded {flags : List Reg} {code : Emit Present} (shaped : Gives code fun v => v.ty.shape = ty.shape) :
    Gives (guarded flags ty code) fun h => h.ty.shape = ty.shape := by
  cases flags with
  | nil => exact .bind shaped fun v shape => .pure shape
  | cons first rest =>
    exact .after fun any => .after fun merged => .bind (Present.gives_ofRegs ty merged) fun v shape => .pure shape

theorem gives_lift (shaped : ∀ v, Gives (code v) fun v' => v'.ty.shape = ty.shape) :
    Gives (lift ty code a) fun h => h.ty.shape = ty.shape := by
  unfold lift
  split
  · exact gives_guarded (shaped _)
  · exact gives_null ty.asNotNull

theorem gives_lift₂ (shaped : ∀ v w, Gives (code v w) fun v' => v'.ty.shape = ty.shape) :
    Gives (lift₂ ty code a b) fun h => h.ty.shape = ty.shape := by
  unfold lift₂
  split
  · exact gives_guarded (shaped _ _)
  · exact gives_null ty.asNotNull

theorem gives_arithmetic (op : ArithOp) (ty : ValueType) (a b : Held) :
    Gives (arithmetic op ty a b) fun h => h.ty.shape = ty.shape :=
  gives_lift₂ fun v w => Present.gives_arithmetic op ty.asNotNull v w

theorem gives_cast (ty : ValueType) (a : Held) : Gives (cast ty a) fun h => h.ty.shape = ty.shape := by
  unfold cast
  split
  · exact gives_null ty
  · refine .bind (gives_lift fun v => Present.gives_cast ty.asNotNull v) fun h shape => ?_
    exact .ite (fun _ => gives_withNullability fun _ => shape) fun _ => .pure shape

theorem gives_not (a : Held) : Gives a.not fun h => h.ty.shape = .bool := by
  refine .after fun _ => gives_lift fun v => ?_
  split
  · exact .after fun one => .after fun r => .pure rfl
  · exact .throw

theorem gives_connective (isAnd : Bool) (a b : Held) : Gives (connective isAnd a b) fun h => h.ty.shape = .bool := by
  refine .after fun _ => .after fun _ => ?_
  split
  · exact .after fun r => .pure rfl
  · rw [connectiveNullable_eq]
    refine .after fun _ => .after fun _ => .after fun _ => .after fun _ => ?_
    exact .after fun _ => .after fun _ => .after fun _ => .after fun _ => .after fun _ => .after fun _ => .after fun _ =>
      .after fun _ => .after fun _ => .pure rfl

end Held

/-- The registers of every attribute have the shape that its number stands for. -/
def HeldRow.Typed (types : Nat → Shape) (held : HeldRow) : Prop := ∀ item ∈ held, item.2.ty.shape = types item.1.id

/-- An attribute of the shape that its number stands for. -/
def Attribute.Typed (types : Nat → Shape) (a : Attribute) : Prop := a.ty.shape = types a.id

/-- Every attribute that is read has the shape that its number stands for. -/
def Scalar.Typed (types : Nat → Shape) (e : Scalar) : Prop := ∀ a ∈ e.reads, a.Typed types

instance (types : Nat → Shape) (a : Attribute) : Decidable (a.Typed types) := inferInstanceAs (Decidable (_ = _))

instance (types : Nat → Shape) (e : Scalar) : Decidable (e.Typed types) :=
  inferInstanceAs (Decidable (∀ a ∈ e.reads, a.Typed types))

section

variable {held : HeldRow}

theorem HeldRow.Typed.gives_value (typed : HeldRow.Typed types held) (known : a.Typed types) :
    Gives (held.value a) fun h => h.ty.shape = a.ty.shape := by
  unfold HeldRow.value
  split
  next h found =>
    obtain ⟨item, first, rfl⟩ := Option.map_eq_some_iff.mp found
    have same : item.1.id = a.id := by simpa using List.find?_some first
    refine .pure ?_
    rw [typed item (List.mem_of_find?_eq_some first), same, known]
  · exact .throw

theorem HeldRow.Typed.gives_values (typed : HeldRow.Typed types held) (each : ∀ a ∈ attributes, a.Typed types) :
    Gives (held.values attributes) fun hs => List.Forall₂ (fun h a => h.ty.shape = a.ty.shape) hs attributes :=
  .mapM fun a member => typed.gives_value (each a member)

/-- The value of an expression is of the expression's shape, if this holds of attributes. -/
theorem Scalar.gives_shape_of (known : ∀ a, e = .column a → Gives (held.value a) fun h => h.ty.shape = a.ty.shape) :
    Gives (e.emit held) fun h => h.ty.shape = e.ty.shape := by
  cases e with
  | cast child ty => exact .after fun a => gives_cast ty a
  | not child => exact .after fun a => gives_not a
  | arithmetic op lhs rhs ty => exact .after fun a => .after fun b => gives_arithmetic op ty a b
  | compare mode lhs rhs =>
    exact .after fun a => .after fun b => .after fun _ => gives_lift₂ fun _ _ => .after fun _ => .after fun _ => .pure rfl
  | and lhs rhs => exact .after fun a => .after fun b => gives_connective true a b
  | or lhs rhs => exact .after fun a => .after fun b => gives_connective false a b
  | column a => exact known a rfl
  | literal value ty => exact gives_constant value ty
  | null => exact .pure rfl

theorem Scalar.gives_shape (typed : e.Typed types) (row : HeldRow.Typed types held) :
    Gives (e.emit held) fun h => h.ty.shape = e.ty.shape :=
  gives_shape_of fun a same => row.gives_value (typed a (by simp [same, Scalar.reads]))

end

/-- What emission gives holds at the end of the run too. -/
theorem Host.Attains.with_gives {code : Emit α}
    {holds : α → Prop} (attains : host.Attains code s post) (gives : Gives code holds) :
    host.Attains code s fun x s' => post x s' ∧ holds x := by
  intro x b' emitted within here
  obtain ⟨s', builder, steps, before, here', attained⟩ := attains x b' emitted within here
  exact ⟨s', builder, steps, before, here', attained, gives _ _ _ emitted⟩

end QueryEngine
