import QueryEngine.Proofs.Emission.Looping
import QueryEngine.Register.Evaluation

set_option synthInstance.maxSize 512

namespace QueryEngine

open List

variable {law : Law} {ty : ValueType}

namespace Emit

variable [law.Structured]

instance (cond : Reg) (routine : Routine) (message : String) : Obeys law (reportIf cond routine message) := by
  unfold reportIf
  infer_instance

instance : Obeys law (divide a b) := by
  unfold divide
  infer_instance

instance : Obeys law (checkedBy op binaryOp overflowOp a b) := by
  unfold checkedBy
  infer_instance

instance : Obeys law (checked op a b) := by
  unfold checked
  cases op <;> infer_instance

instance : Obeys law (rescale raw source target) := by
  unfold rescale
  infer_instance

instance : Obeys law (stringOrder address₁ len1 address2 len2) := by
  unfold stringOrder
  infer_instance

instance {α β : Type} (xs : List α) (f : β → α → Emit β) (init : β) [∀ y x, Obeys law (f y x)] :
    Obeys law (xs.foldlM f init) := by
  induction xs generalizing init with
  | nil => rw [foldlM_nil]; infer_instance
  | cons x xs ih => rw [foldlM_cons]; infer_instance

end Emit

open Emit

variable [law.Structured]

namespace Present

variable {value a b : Present} {cond address : Reg} {regs : List Reg}

instance : Obeys law (ofRegs ty regs) := by
  unfold ofRegs
  split <;> infer_instance

instance (part : CodeType × Nat → Emit Reg) [∀ x, Obeys law (part x)] : Obeys law (build ty part) := by
  unfold build
  split <;> infer_instance

instance : Obeys law (zero ty) := by
  unfold zero
  infer_instance

instance : Obeys law (constant d ty) := by
  refine .after fun d => ?_
  cases d <;> infer_instance

instance : Obeys law (load ty address) := by
  unfold load
  infer_instance

instance : Obeys law (storeParts address regs parts) := by
  induction regs generalizing parts with
  | nil => unfold storeParts; infer_instance
  | cons r regs ih => cases parts <;> (unfold storeParts; infer_instance)

instance : Obeys law (value.store address) := by
  unfold store
  split <;> infer_instance

instance : Obeys law (selectRegs cond first second) := by
  induction first generalizing second with
  | nil => unfold selectRegs; infer_instance
  | cons r first ih => cases second <;> (unfold selectRegs; infer_instance)

instance : Obeys law (select cond a b) := by
  unfold select
  infer_instance

instance : Obeys law (xorShift r) := by
  unfold xorShift
  infer_instance

instance : Obeys law (mix r) := by
  unfold mix
  infer_instance

instance : Obeys law (combine first second) := by
  unfold combine
  infer_instance

instance : Obeys law value.hash := by
  unfold hash
  split <;> infer_instance

instance : Obeys law (compare mode a b) := by
  unfold compare
  split
  case h_6 => split <;> infer_instance
  all_goals infer_instance

instance : Obeys law value.widen := by
  unfold widen
  split <;> infer_instance

instance : Obeys law (numericArithmetic op precision first p second q) := by
  cases op <;> (unfold numericArithmetic; infer_instance)

instance : Obeys law (arithmetic op result a b) := by
  unfold arithmetic
  have widened {α : Type} (next : Option (Reg × UInt8 × UInt8) → Option (Reg × UInt8 × UInt8) → Emit α)
      (grows : ∀ x y, Obeys law (next x y)) :
      Obeys law (do let x ← a.widen; let y ← b.widen; next x y) :=
    .after fun x => .after fun y => grows x y
  split
  · split
    · infer_instance
    · split
      · exact widened _ fun x y => by split <;> infer_instance
      · infer_instance
  · split
    · exact widened _ fun x y => by split <;> infer_instance
    · infer_instance
  · infer_instance

instance : Obeys law (cast target value) := by
  unfold cast
  split
  · infer_instance
  · split <;> infer_instance

instance : Obeys law (smaller a b) := by
  unfold smaller
  infer_instance

end Present

namespace NullEncoding

variable {encoding : NullEncoding}

instance : Obeys law (sentinelOf value) := by
  unfold sentinelOf
  infer_instance

instance (encoding : NullEncoding) (value : Present) (indicator : Option Reg) :
    Obeys law (encoding.nullFlag value indicator) := by
  unfold nullFlag
  split <;> infer_instance

instance : Obeys law (encoding.storedValue value isNull) := by
  unfold storedValue
  cases encoding <;> infer_instance

end NullEncoding

namespace Held

variable {value a b : Held} {isAnd : Bool}

instance : Obeys law (null ty) := by
  unfold null
  infer_instance

instance : Obeys law (value.withNullability ty) := by
  cases value <;> (unfold withNullability; infer_instance)

instance : Obeys law (constant d ty) := by
  unfold constant
  infer_instance

instance : Obeys law value.isNull := by
  cases value <;> (unfold isNull; infer_instance)

instance : Obeys law (load ty address indicator) := by
  unfold load
  infer_instance

instance : Obeys law (value.checkStorable ty) := by
  unfold checkStorable
  cases value.value? <;> infer_instance

def storeFlag (isNull : Reg) : Option Reg → Emit Unit
  | some target => do
    let flag ← resize isNull .i8 false
    Emit.store flag target
  | none => return

instance : Obeys law (storeFlag flag place) := by
  cases place <;> (unfold storeFlag; infer_instance)

instance : Obeys law (store ty address indicator value) := by
  unfold store
  split
  · infer_instance
  · refine .after fun _ => .after fun value => ?_
    cases value <;> cases indicator <;> infer_instance

instance : Obeys law value.hash := by
  cases value <;> (unfold hash; infer_instance)

instance : Obeys law (checkComparable a b) := by
  unfold checkComparable
  split <;> infer_instance

instance : Obeys law (equals a b) := by
  refine .after fun _ => ?_
  split
  · infer_instance
  · refine .after fun aNull => .after fun bNull => .after fun bothNull =>
      .after fun eitherNull => ?_
    split <;> infer_instance

instance (flags : List Reg) (ty : ValueType) (code : Emit Present) [Obeys law code] : Obeys law (guarded flags ty code) := by
  cases flags <;> (unfold guarded; infer_instance)

instance (code : Present → Emit Present) [∀ x, Obeys law (code x)] : Obeys law (lift ty code a) := by
  unfold lift
  split <;> infer_instance

theorem obeys_lift {ty : ValueType} {code : Present → Emit Present} {a : Held} (each : ∀ x, Obeys law (code x)) :
    Obeys law (lift ty code a) := inferInstance

instance (code : Present → Present → Emit Present) [∀ x y, Obeys law (code x y)] : Obeys law (lift₂ ty code a b) := by
  unfold lift₂
  split <;> infer_instance

instance : Obeys law (compare mode a b) := by
  unfold compare
  infer_instance

instance : Obeys law (a.expectBool operation) := by
  unfold expectBool
  split <;> infer_instance

instance : Obeys law a.isTrue := by
  refine .after fun _ => .after fun zero => ?_
  split <;> infer_instance

instance : Obeys law (arithmetic op ty a b) := by
  unfold arithmetic
  infer_instance

instance : Obeys law (cast ty a) := by
  cases a <;> (unfold cast; infer_instance)

instance : Obeys law a.not := by
  refine .after fun _ => obeys_lift fun value => ?_
  split <;> infer_instance

instance : Obeys law a.truth := by
  refine .after fun isNull => ?_
  split <;> infer_instance

/-- The bit with which an operand decides the result alone: unset for AND, set for OR. -/
def decides (isAnd : Bool) (set : Reg) : Emit Reg := if isAnd then Emit.not set else pure set

instance (isAnd : Bool) (set : Reg) : Obeys law (decides isAnd set) := by
  unfold decides
  infer_instance

/-- AND and OR from the bits of the operands. -/
def connect (isAnd : Bool) (aNull bNull aDecides bDecides : Reg) : Emit Held := do
  let aPresent ← Emit.not aNull
  let bPresent ← Emit.not bNull
  let aDecides ← binary .and aPresent aDecides
  let bDecides ← binary .and bPresent bDecides
  let decided ← binary .or aDecides bDecides
  let anyNull ← binary .or aNull bNull
  let undecided ← Emit.not decided
  let isNull ← binary .and undecided anyNull
  return nullable (.bool (← resize (if isAnd then undecided else decided) .i8 false)) isNull

instance : Obeys law (connect isAnd aNull bNull aDecides bDecides) :=
  .after fun _ => .after fun _ => .after fun _ => inferInstance

theorem connectiveNullable_eq (isAnd : Bool) (a b : Held) : connectiveNullable isAnd a b = (do
    let a ← a.truth
    let b ← b.truth
    let aDecides ← decides isAnd a.1
    let bDecides ← decides isAnd b.1
    connect isAnd a.2 b.2 aDecides bDecides) := by
  cases isAnd with
  | true => rfl
  | false => simp only [connectiveNullable, decides, connect, Bool.false_eq_true, if_false, pure_bind]

instance : Obeys law (connectiveNullable isAnd a b) := by
  rw [connectiveNullable_eq]
  infer_instance

instance : Obeys law (connective isAnd a b) := by
  refine .after fun _ => .after fun _ => ?_
  split <;> infer_instance

instance (choose : Present → Present → Emit Present) [∀ x y, Obeys law (choose x y)] :
    Obeys law (mergeNonNull ty choose a b) := by
  refine .after fun a => .after fun b => ?_
  split <;> infer_instance

end Held

variable {row : HeldRow}

theorem HeldRow.obeys_value {a : Attribute} (found : (row.value? a).isSome) : Obeys law (row.value a) := by
  obtain ⟨value, same⟩ := Option.isSome_iff_exists.mp found
  unfold HeldRow.value
  rw [same]
  infer_instance

instance [law.Lenient] : Obeys law (row.value a) := by
  unfold HeldRow.value
  split <;> infer_instance

/-- A row can be asked for these attributes. -/
class HeldRow.Offers (law : Law) (row : HeldRow) (attributes : List Attribute) : Prop where
  offers : ∀ a ∈ attributes, Obeys law (row.value a)

instance [law.Lenient] : row.Offers law attributes :=
  ⟨fun _ _ => inferInstance⟩

omit [law.Structured] in
theorem HeldRow.Offers.mono {attributes fewer : List Attribute} (offers : row.Offers law attributes)
    (subset : fewer ⊆ attributes) : row.Offers law fewer := ⟨fun a member => offers.offers a (subset member)⟩

theorem Scalar.obeys_emit (e : Scalar) (offers : row.Offers law e.reads) : Obeys law (e.emit row) := by
  induction e with
  | cast child ty ih | not child ih =>
    have := ih offers
    unfold emit
    infer_instance
  | arithmetic op lhs rhs ty first second | compare mode lhs rhs first second =>
    have := first (offers.mono (subset_append_left _ _))
    have := second (offers.mono (subset_append_right _ _))
    unfold emit
    infer_instance
  | and lhs rhs first second =>
    have := first (offers.mono (subset_append_left _ _))
    have := second (offers.mono (subset_append_right _ _))
    unfold emit Held.and
    infer_instance
  | or lhs rhs first second =>
    have := first (offers.mono (subset_append_left _ _))
    have := second (offers.mono (subset_append_right _ _))
    unfold emit Held.or
    infer_instance
  | column a => exact offers.offers a mem_cons_self
  | literal | null => unfold emit; infer_instance

instance (row : HeldRow) (e : Scalar) [offers : row.Offers law e.reads] : Obeys law (e.emit row) := e.obeys_emit offers

end QueryEngine
