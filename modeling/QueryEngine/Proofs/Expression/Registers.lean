import QueryEngine.Proofs.Expression.Evaluation

namespace QueryEngine

open List CodeType Point

variable {r address len : Reg} {d : Datum} {v : Present} {s s' : Point} {h : Held}

namespace Point

variable {r' : Reg} {ty ty' : CodeType} {w w' : Word}

theorem reads_one (reads : s.ReadsAll [r] [(ty, w)]) : s.Reads r ty w := (forall₂_cons.mp reads).1

theorem reads_two (reads : s.ReadsAll [r, r'] [(ty, w), (ty', w')]) : s.Reads r ty w ∧ s.Reads r' ty' w' :=
  ⟨(forall₂_cons.mp reads).1, reads_one (forall₂_cons.mp reads).2⟩

end Point

/-- Address and length of a string in registers. -/
structure Point.Text (s : Point) (address len : Reg) (bytes : Bytes) : Prop where
  placed : ∃ a, s.Reads address .ptr a ∧ s.machine.TextAt a bytes
  length : s.Number len .i64 bytes.length

variable {m : Machine}

theorem Machine.TextAt.fits (lies : m.TextAt a bytes) : i64.fits bytes.length = true := by
  have length := lies.length
  simp only [CodeType.fits, Bool.and_eq_true, decide_eq_true_eq]
  omega

theorem CodeType.fits_int32 (n : Int32) : i32.fits n.toInt = true := by
  have lower := n.le_toInt
  have upper := n.toInt_lt
  simp only [fits, Bool.and_eq_true, decide_eq_true_eq]
  omega

theorem CodeType.fits_int64 (n : Int64) : i64.fits n.toInt = true := by
  have lower := n.le_toInt
  have upper := n.toInt_lt
  simp only [fits, Bool.and_eq_true, decide_eq_true_eq]
  omega

/-- A value of a shape, which is not NULL. -/
inductive Datum.HasShape : Datum → Shape → Prop
  | bool (value : Bool) : HasShape (.bool value) .bool
  | integer (n : Int32) : HasShape (.integer n) .integer
  | numeric (raw : Int64) (length precision : UInt8) : HasShape (.numeric raw precision) (.numeric length precision)
  | char (text : String) (length : UInt16) : HasShape (.char text) (.char length)
  | varchar (text : String) (capacity : UInt16) : HasShape (.varchar text) (.varchar capacity)
  | date (day : Int32) : HasShape (.date day) .date
  | timestamp (second : Int64) : HasShape (.timestamp second) .timestamp

variable {shape : Shape}

theorem Datum.HasShape.shape_eq (kind : d.HasShape shape) : match d with
    | .null => False
    | .bool _ => shape = .bool
    | .integer _ => shape = .integer
    | .numeric _ precision => ∃ length, shape = .numeric length precision
    | .char _ => ∃ length, shape = .char length
    | .varchar _ => ∃ capacity, shape = .varchar capacity
    | .date _ => shape = .date
    | .timestamp _ => shape = .timestamp := by
  cases kind with
  | numeric _ length | char _ length | varchar _ length => exact ⟨length, rfl⟩
  | _ => rfl

/-- A value that a type of this shape can hold. Strings are no longer than the type says. -/
inductive Datum.Coerced : Datum → Shape → Prop
  | bool (value : Bool) : Coerced (.bool value) .bool
  | integer (n : Int32) : Coerced (.integer n) .integer
  | numeric (raw : Int64) (length precision : UInt8) : Coerced (.numeric raw precision) (.numeric length precision)
  | char {text : String} {length : UInt16} (short : byteLength text ≤ length.toNat) : Coerced (.char text) (.char length)
  | varchar {text : String} {capacity : UInt16} (short : byteLength text ≤ capacity.toNat) :
    Coerced (.varchar text) (.varchar capacity)
  | date (day : Int32) : Coerced (.date day) .date
  | timestamp (second : Int64) : Coerced (.timestamp second) .timestamp

theorem Datum.Coerced.hasShape (value : d.Coerced shape) : d.HasShape shape := by
  cases value <;> constructor

/-- What coercion does with a value that does not fit. -/
def Datum.mismatch (d : Datum) (ty : ValueType) : Checked DatumError Datum := do
  let shown ← Checked.orTrap d.text?
  Checked.fail (.mismatch shown ty)

theorem Datum.mismatch_ne_ok : d.mismatch ty ≠ .ok d' := by
  intro gives
  obtain ⟨_, _, ⟨⟩⟩ := Checked.bind_ok gives

/-- What coercion results in: NULL for nullable types, else a value that fits the type. -/
theorem Datum.coerce_cases (coerced : d.coerce ty = .ok d') :
    d' = .null ∧ ty.nullable = true ∨ d'.Coerced ty.shape := by
  unfold coerce at coerced
  split at coerced
  case h_1 =>
    split at coerced
    next nullable =>
      cases coerced
      exact .inl ⟨rfl, nullable⟩
    · cases coerced
  all_goals right
  case h_2 | h_3 | h_10 | h_13 | h_14 =>
    rename_i shape
    cases coerced
    rw [shape]
    constructor
  case h_4 | h_5 =>
    rename_i shape
    obtain ⟨_, _, coerced⟩ := Checked.bind_ok coerced
    split at coerced
    · cases coerced
      rw [shape]
      constructor
    · exact absurd coerced mismatch_ne_ok
  case h_6 | h_7 | h_8 | h_9 =>
    rename_i shape
    split at coerced
    next short =>
      cases coerced
      rw [shape]
      constructor
      exact short
    · exact absurd coerced mismatch_ne_ok
  case h_11 | h_12 | h_15 | h_16 =>
    rename_i shape
    obtain ⟨_, _, coerced⟩ := Checked.bind_ok coerced
    cases coerced
    rw [shape]
    constructor
  case h_17 => exact absurd coerced mismatch_ne_ok

theorem Datum.coerce_hasShape (coerced : d.coerce ty = .ok d') (notNull : d'.isNull = false) : d'.HasShape ty.shape := by
  rcases coerce_cases coerced with ⟨rfl, _⟩ | value
  · cases notNull
  · exact value.hasShape

/-- The types and words of the registers that hold a value. -/
inductive Datum.Cells (m : Machine) : Shape → Datum → List (CodeType × Word) → Prop
  | bool (value : Bool) : Cells m .bool (.bool value) [(.i8, Word.ofBool value)]
  | integer (n : Int32) : Cells m .integer (.integer n) [(.i32, Word.ofInt n.toInt)]
  | numeric (raw : Int64) (length precision : UInt8) :
    Cells m (.numeric length precision) (.numeric raw precision) [(.i64, Word.ofInt raw.toInt)]
  | char {text : String} {a : Word} (lies : m.TextAt a (textBytes text)) (length : UInt16) :
    Cells m (.char length) (.char text) [(.ptr, a), (.i64, Word.ofInt (textBytes text).length)]
  | varchar {text : String} {a : Word} (lies : m.TextAt a (textBytes text)) (capacity : UInt16) :
    Cells m (.varchar capacity) (.varchar text) [(.ptr, a), (.i64, Word.ofInt (textBytes text).length)]
  | date (day : Int32) : Cells m .date (.date day) [(.i32, Word.ofInt day.toInt)]
  | timestamp (second : Int64) : Cells m .timestamp (.timestamp second) [(.i64, Word.ofInt second.toInt)]

/-- The types and words of registers that stand in for a value. -/
inductive Shape.Spare (m : Machine) : Shape → List (CodeType × Word) → Prop
  | bool (w : Word) : Spare m .bool [(.i8, w)]
  | integer (w : Word) : Spare m .integer [(.i32, w)]
  | numeric (w : Word) (length precision : UInt8) : Spare m (.numeric length precision) [(.i64, w)]
  | char {bytes : Bytes} {a : Word} (lies : m.TextAt a bytes) (length : UInt16) :
    Spare m (.char length) [(.ptr, a), (.i64, Word.ofInt bytes.length)]
  | varchar {bytes : Bytes} {a : Word} (lies : m.TextAt a bytes) (capacity : UInt16) :
    Spare m (.varchar capacity) [(.ptr, a), (.i64, Word.ofInt bytes.length)]
  | date (w : Word) : Spare m .date [(.i32, w)]
  | timestamp (w : Word) : Spare m .timestamp [(.i64, w)]

variable {cells : List (CodeType × Word)}

theorem Datum.Cells.mono (holds : d.Cells m shape cells) (keeps : m.KeepsTexts m') : d.Cells m' shape cells := by
  cases holds with
  | bool value => exact .bool value
  | integer n => exact .integer n
  | numeric raw length precision => exact .numeric raw length precision
  | char lies length => exact .char (lies.mono keeps) length
  | varchar lies capacity => exact .varchar (lies.mono keeps) capacity
  | date day => exact .date day
  | timestamp second => exact .timestamp second

theorem Datum.Cells.spare (holds : d.Cells m shape cells) : shape.Spare m cells := by
  cases holds with
  | bool value => exact .bool _
  | integer n => exact .integer _
  | numeric raw length precision => exact .numeric _ length precision
  | char lies length => exact .char lies length
  | varchar lies capacity => exact .varchar lies capacity
  | date day => exact .date _
  | timestamp second => exact .timestamp _

theorem Datum.Cells.isNull (holds : d.Cells m shape cells) : d.isNull = false := by
  cases holds <;> rfl

theorem Shape.Spare.mono (spare : shape.Spare m cells) (keeps : m.KeepsTexts m') : shape.Spare m' cells := by
  cases spare with
  | bool w => exact .bool w
  | integer w => exact .integer w
  | numeric w length precision => exact .numeric w length precision
  | char lies length => exact .char (lies.mono keeps) length
  | varchar lies capacity => exact .varchar (lies.mono keeps) capacity
  | date w => exact .date w
  | timestamp w => exact .timestamp w

namespace Present

/-- The registers hold this value. -/
def Is (s : Point) (v : Present) (d : Datum) : Prop :=
  ∃ cells, s.ReadsAll v.regs cells ∧ d.Cells s.machine v.ty.shape cells

/-- The registers have the types of a value. -/
def Spare (s : Point) (v : Present) : Prop :=
  ∃ cells, s.ReadsAll v.regs cells ∧ v.ty.shape.Spare s.machine cells

theorem Is.mono (is : v.Is s d) (before : s.Before s') : v.Is s' d := by
  obtain ⟨cells, reads, holds⟩ := is
  exact ⟨cells, reads.mono before, holds.mono before.texts⟩

theorem Spare.mono (spare : v.Spare s) (before : s.Before s') : v.Spare s' := by
  obtain ⟨cells, reads, holds⟩ := spare
  exact ⟨cells, reads.mono before, holds.mono before.texts⟩

theorem Is.spare (is : v.Is s d) : v.Spare s := by
  obtain ⟨cells, reads, holds⟩ := is
  exact ⟨cells, reads, holds.spare⟩

theorem Is.isNull (is : v.Is s d) : d.isNull = false := by
  obtain ⟨_, _, holds⟩ := is
  exact holds.isNull

section

variable {length precision : UInt8} {count : UInt16}

theorem is_bool : (bool r).Is s d ↔ ∃ value, d = .bool value ∧ s.Number r .i8 (if value then 1 else 0) := by
  constructor
  · rintro ⟨_, reads, holds⟩
    cases holds with
    | bool value =>
      exact ⟨value, rfl, Word.ofBool_eq value ▸ reads_one reads, fits_ofBool value⟩
  · rintro ⟨value, rfl, number⟩
    exact ⟨_, .cons (Word.ofBool_eq value ▸ number.reads) .nil, .bool value⟩

theorem is_bool_of_reads (reads : s.Reads r .i8 (Word.ofBool value)) : (bool r).Is s (.bool value) :=
  ⟨_, .cons reads .nil, .bool value⟩

theorem is_integer : (integer r).Is s d ↔ ∃ n, d = .integer n ∧ s.Number r .i32 n.toInt := by
  constructor
  · rintro ⟨_, reads, holds⟩
    cases holds with
    | integer n =>
      exact ⟨n, rfl, reads_one reads, fits_int32 n⟩
  · rintro ⟨n, rfl, number⟩
    exact ⟨_, .cons number.reads .nil, .integer n⟩

theorem is_numeric : (numeric r length precision).Is s d ↔
    ∃ raw, d = .numeric raw precision ∧ s.Number r .i64 raw.toInt := by
  constructor
  · rintro ⟨_, reads, holds⟩
    cases holds with
    | numeric raw =>
      exact ⟨raw, rfl, reads_one reads, fits_int64 raw⟩
  · rintro ⟨raw, rfl, number⟩
    exact ⟨_, .cons number.reads .nil, .numeric raw length precision⟩

theorem is_date : (date r).Is s d ↔ ∃ day, d = .date day ∧ s.Number r .i32 day.toInt := by
  constructor
  · rintro ⟨_, reads, holds⟩
    cases holds with
    | date day =>
      exact ⟨day, rfl, reads_one reads, fits_int32 day⟩
  · rintro ⟨day, rfl, number⟩
    exact ⟨_, .cons number.reads .nil, .date day⟩

theorem is_timestamp : (timestamp r).Is s d ↔ ∃ second, d = .timestamp second ∧ s.Number r .i64 second.toInt := by
  constructor
  · rintro ⟨_, reads, holds⟩
    cases holds with
    | timestamp second =>
      exact ⟨second, rfl, reads_one reads, fits_int64 second⟩
  · rintro ⟨second, rfl, number⟩
    exact ⟨_, .cons number.reads .nil, .timestamp second⟩

theorem is_char : (char address len count).Is s d ↔ ∃ text, d = .char text ∧ s.Text address len (textBytes text) := by
  constructor
  · rintro ⟨_, reads, holds⟩
    cases holds with
    | char lies =>
      exact ⟨_, rfl, ⟨_, (reads_two reads).1, lies⟩, (reads_two reads).2, lies.fits⟩
  · rintro ⟨_, rfl, ⟨a, ptr, lies⟩, size⟩
    exact ⟨_, .cons ptr (.cons size.reads .nil), .char lies count⟩

theorem is_varchar : (varchar address len count).Is s d ↔
    ∃ text, d = .varchar text ∧ s.Text address len (textBytes text) := by
  constructor
  · rintro ⟨_, reads, holds⟩
    cases holds with
    | varchar lies =>
      exact ⟨_, rfl, ⟨_, (reads_two reads).1, lies⟩, (reads_two reads).2, lies.fits⟩
  · rintro ⟨_, rfl, ⟨a, ptr, lies⟩, size⟩
    exact ⟨_, .cons ptr (.cons size.reads .nil), .varchar lies count⟩

end

end Present

namespace Held

/-- The registers hold this value, which may be NULL. -/
inductive Is (s : Point) : Held → Datum → Prop
  | unknown : Is s .unknown .null
  | present {v : Present} {d : Datum} (is : v.Is s d) : Is s (.present v) d
  | null {v : Present} {flag : Reg} (set : s.Bit flag true) (spare : v.Spare s) : Is s (.nullable v flag) .null
  | value {v : Present} {flag : Reg} {d : Datum} (unset : s.Bit flag false) (is : v.Is s d) : Is s (.nullable v flag) d

theorem Is.mono (is : h.Is s d) (before : s.Before s') : h.Is s' d := by
  cases is with
  | unknown => exact .unknown
  | present is => exact .present (is.mono before)
  | null set spare => exact .null (set.mono before) (spare.mono before)
  | value unset is => exact .value (unset.mono before) (is.mono before)

/-- One of the flags is set just when the value is NULL. -/
theorem Is.flags (is : h.Is s d) (found : h.value? = some v) :
    ∃ bits, Forall₂ s.Bit h.flags bits ∧ bits.any id = d.isNull := by
  cases is with
  | unknown => cases found
  | present is => exact ⟨[], .nil, is.isNull.symm⟩
  | null set spare => exact ⟨[true], .cons set .nil, rfl⟩
  | value unset is => exact ⟨[false], .cons unset .nil, is.isNull.symm⟩

theorem Is.of_not_null (is : h.Is s d) (found : h.value? = some v) (notNull : d.isNull = false) : v.Is s d := by
  cases is with
  | unknown => cases found
  | present is | value _ is => cases found; exact is
  | null set spare => cases notNull

theorem Is.eq_null (is : h.Is s d) (missing : h.value? = none) : d = .null := by
  cases is with
  | unknown => rfl
  | present | null | value => cases missing

end Held

/-- The registers hold these values. -/
abbrev Held.All (s : Point) : List Held → List Datum → Prop := Forall₂ fun h d => h.Is s d

/-- The values have the shapes of these types. -/
abbrev Held.Shaped : List Held → List ValueType → Prop := Forall₂ fun h ty => h.ty.shape = ty.shape

theorem Held.shaped_map : Held.Shaped hs (xs.map f) ↔ Forall₂ (fun h x => h.ty.shape = (f x).shape) hs xs :=
  forall₂_map_right_iff

/-- The registers of each attribute hold the value that the row has for it. -/
abbrev HeldRow.Is (s : Point) : HeldRow → ValueRow → Prop :=
  Forall₂ fun held item => held.1 = item.1 ∧ held.2.Is s item.2

namespace HeldRow

variable {held : HeldRow} {row : ValueRow}

theorem Is.mono (is : held.Is s row) (before : s.Before s') : HeldRow.Is s' held row :=
  Forall₂.imp (fun _ _ ⟨same, value⟩ => ⟨same, value.mono before⟩) is

/-- What is found under the number of an attribute is related to what the row has there. -/
theorem value?_related {R : Attribute → Held → Datum → Prop}
    (related : Forall₂ (fun held item => held.1 = item.1 ∧ R held.1 held.2 item.2) held row) {a : Attribute}
    (found : held.value? a = some h) : ∃ a' d, row.value? a = some d ∧ (a', h) ∈ held ∧ a'.id = a.id ∧ R a' h d := by
  induction related with
  | nil => cases found
  | @cons item value held row both rest ih =>
    obtain ⟨same, holds⟩ := both
    by_cases first : item.1.id = a.id
    · have eq : item.2 = h := by simpa [HeldRow.value?, first] using found
      subst eq
      exact ⟨item.1, value.2, by simp [ValueRow.value?, ← same, first], mem_cons_self, first, holds⟩
    · obtain ⟨a', d, foundValue, member, number, holds'⟩ := ih (by simpa [HeldRow.value?, first] using found)
      exact ⟨a', d, by simpa [ValueRow.value?, ← same, first] using foundValue, mem_cons_of_mem _ member, number, holds'⟩

end HeldRow

end QueryEngine
