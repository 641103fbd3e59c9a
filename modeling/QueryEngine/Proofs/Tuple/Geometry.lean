import QueryEngine.Proofs.Tuple.Layouts

namespace QueryEngine

open TupleLayout

variable {encoding : NullEncoding}

theorem dvd_alignTo (n align : Nat) : align ∣ alignTo n align := Nat.dvd_mul_left align _

/-- The bytes of the value and the byte that says whether it is NULL, each from its first byte to the one after its last. -/
def TupleField.pieces (field : TupleField) : List (Nat × Nat) :=
  (field.offset, field.offset + field.ty.size) :: field.indicator.toList.map fun i => (i, i + 1)

namespace TupleLayout

theorem Flagged.pieces {field : TupleField} (flagged : Flagged encoding field) :
    field.pieces.Pairwise (fun piece next => piece.2 ≤ next.1) ∧
      ∀ piece ∈ field.pieces, field.offset ≤ piece.1 ∧ piece.1 ≤ piece.2 ∧ piece.2 ≤ fieldEnd field := by
  have ends := flagged.fieldEnd_eq
  unfold TupleField.pieces
  cases present : field.indicator with
  | none => simp [ends]
  | some i =>
    obtain ⟨rfl, last⟩ := flagged.position present
    simp [last]

/-- Fields that lie one behind the other have pieces that do. -/
theorem Placed.pieces {fields : List TupleField} (placed : Placed encoding fields low high) :
    (fields.flatMap TupleField.pieces).Pairwise (fun piece next => piece.2 ≤ next.1) ∧
      ∀ piece ∈ fields.flatMap TupleField.pieces, piece.1 ≤ piece.2 ∧ piece.2 ≤ high := by
  have within {field : TupleField} (member : field ∈ fields) := (placed.flagged field member).pieces.2
  refine ⟨List.pairwise_flatMap.mpr ⟨fun field member => (placed.flagged field member).pieces.1, ?_⟩,
    fun piece member => ?_⟩
  · refine placed.apart.imp_of_mem fun first second before piece inside next inside' => ?_
    have := within first piece inside
    have := within second next inside'
    omega
  · obtain ⟨field, among, inside⟩ := List.mem_flatMap.mp member
    have := placed.bounds field among
    have := within among piece inside
    omega

theorem fieldsFrom_aligned (start : Nat) (types : List ValueType) :
    ∀ field ∈ (fieldsFrom encoding start types).1, field.ty.alignment ∣ field.offset := by
  induction types generalizing start with
  | nil => nofun
  | cons ty types ih => exact List.forall_mem_cons.mpr ⟨dvd_alignTo _ _, ih _⟩

/-- Where the values of a tuple lie. -/
structure Geometry (encoding : NullEncoding) (types : List ValueType) (layout : TupleLayout) : Prop where
  holds : layout.types = types
  aligned : ∀ field ∈ layout.fields, field.ty.alignment ∣ field.offset
  indicators : ∀ field ∈ layout.fields,
    field.indicator.isSome ↔ field.ty.nullable ∧ field.ty.shape ≠ .unknown ∧ encoding = .indicator
  /-- In the order of the fields, no piece starts before the one in front of it ends. -/
  apart : (layout.fields.flatMap TupleField.pieces).Pairwise fun piece next => piece.2 ≤ next.1
  below : ∀ piece ∈ layout.fields.flatMap TupleField.pieces, piece.1 ≤ piece.2 ∧ piece.2 ≤ layout.size
  size : layout.align ∣ layout.size
  most : ∀ ty ∈ types, ty.alignment ≤ layout.align
  reached : layout.align = 1 ∨ ∃ ty ∈ types, ty.alignment = layout.align

theorem make_geometry (encoding : NullEncoding) (types : List ValueType) :
    Geometry encoding types (make encoding types) := by
  have placed := make_placed encoding types
  obtain ⟨apart, below⟩ := placed.pieces
  obtain ⟨_, most, reached⟩ := foldl_alignment types 1
  refine ⟨make_types encoding types, fieldsFrom_aligned 0 types, fun field member => ?_, apart, below, dvd_alignTo _ _,
    most, reached⟩
  have flag : field.indicator.isSome = hasIndicator encoding field.ty := by
    rw [placed.flagged field member]
    split <;> simp [*]
  simp only [flag, hasIndicator, ValueType.isUnknown, Bool.and_eq_true, decide_eq_true_eq, Bool.not_eq_true',
    decide_eq_false_iff_not]
  tauto

end TupleLayout

end QueryEngine
