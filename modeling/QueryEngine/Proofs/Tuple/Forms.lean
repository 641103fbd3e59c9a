import QueryEngine.Proofs.Tuple.Layouts

namespace QueryEngine

open Emit ValueType Safe

variable {fails : Fault EmitError → Prop} {n : Nat} {b : Builder} {flag : Option Reg} {h : Held} {values : List Held}
  {encoding : NullEncoding}

namespace NullEncoding

variable {v : Present}

/-- The register with the sentinel may stand for the first register of the value. -/
theorem safe_sentinelOf (formed : v.Formed b) : Safe fails n n (sentinelOf v) b fun regs b' =>
    Typed b' (regs.1 :: v.regs.tail) v.ty.registers ∧ Typed b' (regs.2 :: v.regs.tail) v.ty.registers := by
  have some : v.ty.registers ≠ [] := by
    cases v <;> simp [Present.ty, ValueType.registers, ValueType.parts?, ValueType.bool, ValueType.integer,
      ValueType.numeric, ValueType.char, ValueType.varchar, ValueType.date, ValueType.timestamp]
  unfold sentinelOf
  unfold Present.Formed at formed
  generalize v.regs = regs at formed
  generalize v.ty.registers = types at formed some
  cases formed with
  | nil => exact absurd rfl some
  | @cons first type others rest head tail =>
    refine (Safe.orTrap rfl).bind ?_
    rintro r b1 grows1 ⟨same, found⟩
    subst same found
    refine (Safe.typeOf head).bind ?_
    rintro found b2 _ ⟨same, equal⟩
    subst same equal
    refine (Safe.const _ _).bind fun marker b3 grows3 typed => ?_
    exact .pure ⟨.cons (head.mono grows3.types) (Typed.mono tail grows3.types),
      .cons typed (Typed.mono tail grows3.types)⟩

/-- A flag beside the value is needed by indicators only. -/
theorem safe_nullFlag (formed : v.Formed b) (flagged : encoding = .indicator → ∃ f ty, flag = some f ∧ f.Of ty b) :
    Safe fails n n (encoding.nullFlag v flag) b (Reg.Of .i1) := by
  cases encoding with
  | indicator =>
    obtain ⟨f, _, rfl, typed⟩ := flagged rfl
    refine (typeOf typed).bind fun found b1 _ ⟨same, equal⟩ => ?_
    exact (Safe.const _ 0).bind fun zero b2 _ _ => .compare .ne
  | sentinel => exact (safe_sentinelOf formed).bind fun _ _ _ _ => .compare .eq

theorem safe_storedValue {flag : Reg} (formed : v.Formed b) :
    Safe fails n n (encoding.storedValue v flag) b fun v' b' => v'.Formed b' := by
  cases encoding with
  | indicator => exact .pure formed
  | sentinel =>
    refine (safe_sentinelOf formed).bind fun (first, marker) b1 _ ⟨_, typed⟩ => ?_
    obtain ⟨_, types, head, tail, registers⟩ := List.forall₂_cons_left_iff.mp typed
    refine (select head).bind fun chosen b2 grows2 typed2 => ?_
    refine (Present.safe_ofRegs v.known ?_).mono fun v' _ _ ⟨formed, _⟩ => formed
    rw [registers]
    exact .cons typed2 (Typed.mono tail grows2.types)

end NullEncoding

variable {address : Reg} {ty : ValueType}

namespace Held

/-- A value of any type is loaded, if there is a flag where one is needed. -/
theorem safe_load (typed : address.Of .ptr b)
    (flagged : TupleLayout.hasIndicator b.program.encoding ty = true → ∃ f ty, flag = some f ∧ f.Of ty b) :
    Safe fails n n (load ty address flag) b fun h b' => h.Formed b' ∧ (ty.isUnknown ≠ true → h.ty = ty) := by
  refine .ite (fun isUnknown => .pure ⟨trivial, fun isKnown => absurd isUnknown isKnown⟩) fun isKnown => ?_
  have loaded : Safe fails n n (Present.load ty address) b (Present.Of ty.asNotNull) :=
    Present.safe_build isKnown fun x _ more =>
      (Safe.ptrOffset (typed.mono more) x.2).bind fun target _ _ _ => .load x.1 target
  refine loaded.bind ?_
  rintro v b1 grows1 ⟨formed, same⟩
  refine .ite (fun plain => .pure ⟨formed, fun _ => ?_⟩) fun nullable => ?_
  · rw [Held.ty, same]
    exact ext_iff.mpr ⟨rfl, (by simpa using plain : ty.nullable = false).symm⟩
  have isNullable : ty.nullable = true := by simpa using nullable
  refine encoding.bind ?_
  rintro encoding b2 _ ⟨point, found⟩
  subst point found
  refine (NullEncoding.safe_nullFlag formed fun indicator => ?_).bind fun bit b3 grows3 bitTyped => ?_
  · rw [grows1.program.encoding] at indicator
    obtain ⟨f, type, given, typed⟩ := flagged (by simp [TupleLayout.hasIndicator, indicator, isNullable, isKnown])
    exact ⟨f, type, given, typed.mono grows1.types⟩
  refine .pure ⟨⟨formed.mono grows3.types, bitTyped⟩, fun _ => ?_⟩
  rw [Held.ty, same]
  exact ext_iff.mpr ⟨rfl, isNullable.symm⟩

theorem safe_checkStorable (fills : h.Fills ty) : Safe fails n n (h.checkStorable ty) b fun _ _ => True := by
  unfold checkStorable
  cases found : h.value? with
  | none => exact .pure trivial
  | some v =>
    have shape : v.ty.shape = ty.shape := by
      rw [← fills.shape]
      cases h <;> cases found <;> rfl
    refine .ite (fun _ => .pure trivial) fun different => absurd ⟨size_of_shape shape, ?_⟩ different
    rw [precision, precision, shape]

/-- A value that fills a type is stored as one of the type. -/
theorem safe_store (formed : h.Formed b) (fills : h.Fills ty) (typed : address.Of .ptr b) :
    Safe fails n n (h.store ty address flag) b fun _ _ => True := by
  refine .ite (fun _ => .pure trivial) fun isKnown => ?_
  refine (safe_checkStorable fills).bind fun _ b1 grows1 _ => ?_
  refine (safe_withNullability (formed.mono grows1.types) fills isKnown).bind fun h' b2 grows2 ⟨formed2, _⟩ => ?_
  have typed2 := typed.mono (grows1.types.trans grows2.types)
  cases h' with
  | unknown => exact .pure trivial
  | present v => exact Present.safe_store typed2
  | nullable v bit =>
    refine encoding.bind fun encoding b3 _ ⟨point, found⟩ => ?_
    subst point found
    refine (NullEncoding.safe_storedValue formed2.1).bind fun v' b4 grows4 _ => ?_
    refine (Present.safe_store (typed2.mono grows4.types)).bind fun _ b5 grows5 _ => ?_
    cases flag with
    | none => exact .pure trivial
    | some target =>
      exact (resize (typeOf?_mono (grows4.types.trans grows5.types) formed2.2) .i8 false).bind fun _ _ _ _ => .store _ _

theorem safe_storeFields {fields : List TupleField} (formed : ∀ h ∈ values, h.Formed b)
    (fills : List.Forall₂ (fun (h : Held) (field : TupleField) => h.Fills field.ty) values fields)
    (typed : address.Of .ptr b) :
    Safe fails n n (storeFields address values fields) b fun _ _ => True := by
  induction fills generalizing b with
  | nil => exact .pure trivial
  | @cons h field values fields head _ ih =>
    refine (ptrOffset typed field.offset).bind fun target b1 grows1 targetTyped => ?_
    have flag : Safe fails n n (field.indicator.mapM fun i => Emit.ptrOffset address i) b1 fun _ _ => True := by
      cases field.indicator with
      | none => exact .pure trivial
      | some i => exact .map ((ptrOffset (typed.mono grows1.types) i).mono fun _ _ _ _ => trivial)
    refine flag.bind fun flag b2 grows2 _ => ?_
    have more := grows1.types.trans grows2.types
    refine (safe_store ((formed h List.mem_cons_self).mono more) head (targetTyped.mono grows2.types)).bind
      fun _ b3 grows3 _ => ?_
    have more := more.trans grows3.types
    exact ih (fun other member => (formed other (List.mem_cons_of_mem _ member)).mono more) (typed.mono more)

/-- Values that fill the types of a tuple are stored. -/
theorem safe_storeTuple {types : List ValueType}
    (formed : ∀ h ∈ values, h.Formed b) (fills : List.Forall₂ Held.Fills values types) (typed : address.Of .ptr b) :
    Safe fails n n (storeTuple (.make encoding types) address values) b fun _ _ => True := by
  have fields : List.Forall₂ (fun (h : Held) (field : TupleField) => h.Fills field.ty) values
      (TupleLayout.make encoding types).fields := by
    rw [← TupleLayout.make_types encoding types] at fills
    rwa [TupleLayout.types, List.forall₂_map_right_iff] at fills
  unfold storeTuple
  rw [if_neg (by simpa using fields.length_eq.symm)]
  exact safe_storeFields formed fields typed

/-- A tuple is loaded under the encoding that its layout has been made for. -/
theorem safe_loadTuple (typed : address.Of .ptr b) :
    Safe fails n n (loadTuple (.make b.program.encoding types) address) b fun _ _ => True := by
  have flagged := (TupleLayout.make_placed b.program.encoding types).flagged
  refine (mapM (fun (_ : TupleField) (_ : Held) _ => True) (fun _ _ _ _ _ _ => trivial)
    fun field member c more encoding => ?_).mono fun _ _ _ _ => trivial
  have typed := typed.mono more
  refine (ptrOffset typed field.offset).bind fun source b1 grows1 sourceTyped => ?_
  have flag : Safe fails n n (field.indicator.mapM (loadFlag address)) b1 fun found b' =>
      field.indicator.isSome → ∃ f, found = some f ∧ f.Of .i8 b' := by
    cases field.indicator with
    | none => exact .pure nofun
    | some i =>
      refine .map ((ptrOffset (typed.mono grows1.types) i).bind fun place b2 _ _ => ?_)
      exact (Safe.load .i8 place).mono fun f b3 _ loaded _ => ⟨f, rfl, loaded⟩
  refine flag.bind fun found b2 grows2 present => ?_
  refine (safe_load (sourceTyped.mono grows2.types) fun needed => ?_).mono fun _ _ _ _ => trivial
  rw [grows2.program.encoding, grows1.program.encoding, encoding] at needed
  obtain ⟨f, given, loaded⟩ := present (by rw [flagged field member, if_pos needed]; rfl)
  exact ⟨f, .i8, given, loaded⟩

end Held

end QueryEngine
