import QueryEngine.Proofs.Emission.Safety
import QueryEngine.Proofs.Tuple.Values

namespace QueryEngine

open Emit ValueType

variable {ty : ValueType}

theorem ValueType.ext_iff :
    ty = other ↔ ty.shape = other.shape ∧ ty.nullable = other.nullable := by
  cases ty
  cases other
  simp

/-- The types of the registers of a value. -/
def ValueType.registers (ty : ValueType) : List CodeType := (ty.parts?.getD []).map Prod.fst

theorem ValueType.registers_of_shape {other : ValueType} (same : ty.shape = other.shape) :
    ty.registers = other.registers := by
  rw [registers, registers, parts?_of_shape same]

theorem ValueType.registers_eq (found : ty.parts? = some parts) :
    ty.registers = parts.map Prod.fst := by
  rw [registers, found, Option.getD_some]

variable {b b' : Builder} {target : ValueType} {v : Present} {regs : List Reg} {address : Reg}

namespace Present

/-- The registers of the value are there and have the types of its parts. -/
def Formed (b : Builder) (v : Present) : Prop := Typed b v.regs v.ty.registers

/-- A value of the type, with its registers. -/
abbrev Of (ty : ValueType) (v : Present) (b : Builder) : Prop := v.Formed b ∧ v.ty = ty

theorem Formed.mono (formed : v.Formed b) (more : b.function.types.toList <+: b'.function.types.toList) :
    v.Formed b' := Typed.mono formed more

theorem known (v : Present) : v.ty.isUnknown ≠ true := by
  cases v <;> simp [ty, ValueType.isUnknown, ValueType.bool, ValueType.integer, ValueType.numeric, ValueType.char,
    ValueType.varchar, ValueType.date, ValueType.timestamp]

theorem ty_nullable (v : Present) : v.ty.nullable = false := by
  cases v <;> rfl

theorem ty_eq (same : v.ty.shape = target.shape) : v.ty = target.asNotNull :=
  ext_iff.mpr ⟨same, v.ty_nullable⟩

theorem Spare.formed (spare : v.Spare s) : v.Formed s.builder := by
  obtain ⟨cells, reads, standIn⟩ := spare
  obtain ⟨parts, found⟩ := parts?_isSome v.known
  have types : parts.map Prod.fst = cells.map Prod.fst := by
    have same := standIn.types found
    clear standIn found reads
    induction same with
    | nil => rfl
    | cons head _ ih => rw [List.map_cons, List.map_cons, head, ih]
  rw [Formed, registers_eq found, types]
  exact Typed.of_reads reads

theorem ofRegs?_of_length (isKnown : target.isUnknown ≠ true) (count : regs.length = target.registers.length) :
    ∃ v, ofRegs? target.shape regs = some v := by
  unfold registers parts? at count
  rw [ne_eq, isUnknown_iff] at isKnown
  generalize target.shape = shape at isKnown count
  cases shape with
  | unknown => exact absurd rfl isKnown
  | bool | integer | numeric | date | timestamp =>
    obtain ⟨r, rfl⟩ := List.length_eq_one_iff.mp count
    exact ⟨_, rfl⟩
  | char | varchar =>
    obtain ⟨r, _, rfl⟩ := List.length_eq_two.mp count
    exact ⟨_, rfl⟩

theorem safe_ofRegs (isKnown : target.isUnknown ≠ true) (typed : Typed b regs target.registers) :
    Safe fails n n (ofRegs target regs) b (Present.Of target.asNotNull) := by
  obtain ⟨v, found⟩ := ofRegs?_of_length isKnown typed.length_eq
  obtain ⟨same, shape⟩ := ofRegs?_eq found
  unfold ofRegs
  rw [found]
  refine .pure ⟨?_, ty_eq shape⟩
  rw [Formed, same, registers_of_shape shape]
  exact typed

theorem safe_build [∀ x, Growing (part x)] (isKnown : target.isUnknown ≠ true)
    (each : ∀ x c, b.function.types.toList <+: c.function.types.toList → Safe fails n n (part x) c (Reg.Of x.1)) :
    Safe fails n n (build target part) b (Present.Of target.asNotNull) := by
  obtain ⟨_, found⟩ := parts?_isSome isKnown
  unfold build
  rw [found]
  refine (Safe.mapM (fun (x : CodeType × Nat) (r : Reg) d => d.function.typeOf? r = some x.1)
    (fun x r c d grows typed => typeOf?_mono grows.types typed)
    fun x _ c more _ => each x c more).bind fun regs b1 _ typed => ?_
  refine safe_ofRegs isKnown ?_
  rw [registers_eq found]
  exact List.forall₂_map_right_iff.mpr (List.Forall₂.flip typed)

theorem safe_zero (isKnown : target.isUnknown ≠ true) :
    Safe fails n n (zero target) b (Present.Of target.asNotNull) :=
  safe_build isKnown fun x _ _ => .const x.1 0

theorem safe_storeParts (typed : address.Of .ptr b) :
    Safe fails n n (storeParts address regs parts) b fun _ _ => True := by
  induction regs generalizing parts b with
  | nil => exact .pure trivial
  | cons r regs ih =>
    cases parts with
    | nil => exact .pure trivial
    | cons part parts =>
      refine (Safe.ptrOffset typed part.2).bind fun target b1 grows1 _ => ?_
      refine (Safe.store r target).bind fun _ b2 grows2 _ => ?_
      exact ih (typeOf?_mono grows2.types (typed.mono grows1.types))

theorem safe_store (typed : address.Of .ptr b) :
    Safe fails n n (v.store address) b fun _ _ => True := by
  obtain ⟨_, found⟩ := parts?_isSome v.known
  unfold store
  rw [found]
  exact safe_storeParts typed

end Present

namespace Held

/-- The registers of the value are there and have the types of its parts, and its flag is a single bit. -/
def Formed (b : Builder) : Held → Prop
  | unknown => True
  | present v => v.Formed b
  | nullable v flag => v.Formed b ∧ flag.Of .i1 b

/-- A value of the type, with its registers and its flag. -/
abbrev Of (ty : ValueType) (h : Held) (b : Builder) : Prop := h.Formed b ∧ h.ty = ty

theorem Formed.mono {h : Held} (formed : h.Formed b) (more : b.function.types.toList <+: b'.function.types.toList) :
    h.Formed b' := by
  cases h with
  | unknown => trivial
  | present v => exact Present.Formed.mono formed more
  | nullable v flag => exact ⟨Present.Formed.mono formed.1 more, typeOf?_mono more formed.2⟩

theorem safe_null : Safe fails n n (null ty) b (Held.Of ty.asNullable) := by
  unfold null
  refine .ite (fun isUnknown => ?_) fun isKnown => ?_
  · refine .pure ⟨trivial, ?_⟩
    rw [isUnknown_iff] at isUnknown
    rw [asNullable, withNullable, isUnknown]
    rfl
  · refine (Present.safe_zero isKnown).bind fun v b1 _ ⟨formed, ty⟩ => ?_
    refine (Safe.constBool true).bind fun flag b2 grows2 bit => ?_
    refine .pure ⟨⟨formed.mono grows2.types, bit⟩, ?_⟩
    rw [Held.ty, ty]
    rfl

/-- A value that can be given the form of a type: of its shape, and with a flag only if the type is nullable. -/
structure Fills (h : Held) (ty : ValueType) : Prop where
  shape : h.ty.shape = ty.shape
  plain : ty.nullable = false → h.flags = []

theorem safe_withNullability {h : Held} (formed : h.Formed b) (fills : h.Fills ty) (isKnown : ty.isUnknown ≠ true) :
    Safe fails n n (h.withNullability ty) b (Held.Of ty) := by
  cases h with
  | unknown => exact absurd (isUnknown_iff.mpr fills.shape.symm) isKnown
  | present v =>
    refine .ite (fun nullable => ?_) fun plain => .pure ⟨formed, ext_iff.mpr ⟨fills.shape, ?_⟩⟩
    · refine (Safe.constBool false).bind fun flag b1 grows1 bit => ?_
      exact .pure ⟨⟨Present.Formed.mono formed grows1.types, bit⟩, ValueType.ext_iff.mpr ⟨fills.shape, nullable.symm⟩⟩
    · exact v.ty_nullable.trans (Bool.not_eq_true _ ▸ plain).symm
  | nullable v flag =>
    refine .ite (fun nullable => ?_) fun plain => ?_
    · exact .pure ⟨formed, ext_iff.mpr ⟨fills.shape, nullable.symm⟩⟩
    · cases fills.plain (by simpa using plain)

end Held

end QueryEngine
