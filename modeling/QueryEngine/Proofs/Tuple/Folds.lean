import Mathlib.Algebra.BigOperators.Group.List.Basic
import QueryEngine.Proofs.Tuple.Keys
import QueryEngine.Proofs.Tuple.Layouts

namespace QueryEngine

open Emit Evaluation ArithOp CodeType
open List hiding length

variable {host : Host} {s : Point} {cond : Reg} {p : Bool} {order : Ordering} {shape : Shape} {x y : Datum}

/-- Shapes of numbers. -/
inductive Shape.IsNumber : Shape → Prop
  | integer : IsNumber .integer
  | numeric (length precision : UInt8) : IsNumber (.numeric length precision)

instance (shape : Shape) : Decidable shape.IsNumber :=
  match shape with
  | .integer => isTrue .integer
  | .numeric length precision => isTrue (.numeric length precision)
  | .unknown | .bool | .char _ | .varchar _ | .date | .timestamp => isFalse nofun

namespace Datum

/-- The sum of two numbers of one kind, which wraps around. -/
def add : Datum → Datum → Datum
  | integer x, integer y => integer (x + y)
  | numeric x precision, numeric y _ => numeric (x + y) precision
  | _, _ => null

/-- The sum of values, added up from the first one on. -/
def sumOf : List Datum → Datum
  | [] => null
  | x :: xs => xs.foldl add x

/-- A number without its decimal point. -/
def raw : Datum → Int
  | integer n => n.toInt
  | numeric raw _ => raw.toInt
  | _ => 0

/-- The first value does not sort after the second one. -/
def NotAfter (x y : Datum) : Prop := ∃ order reports, x.order y = some (order, reports) ∧ order.isLE = true

/-- The least of the values that are not NULL, and NULL where all are. -/
def Least (xs : List Datum) (d : Datum) : Prop :=
  (d = null ∧ ∀ x ∈ xs, x = null) ∨ (d ≠ null ∧ d ∈ xs ∧ ∀ x ∈ xs, x ≠ null → d.NotAfter x)

variable {d : Datum} {xs : List Datum} {m m' : Machine}

@[simp] theorem add_null (x : Datum) : add x null = null := by
  cases x <;> rfl

theorem sumOf_concat (some : xs ≠ []) (x : Datum) : sumOf (xs ++ [x]) = (sumOf xs).add x := by
  cases xs with
  | nil => exact absurd rfl some
  | cons first rest => simp [sumOf]

theorem sumOf_eq_null (member : null ∈ xs) : sumOf xs = null := by
  have stays (rest : List Datum) : rest.foldl add null = null := by
    induction rest with
    | nil => rfl
    | cons x rest ih => exact ih
  have reached (first : Datum) (rest : List Datum) (member : null ∈ rest) : rest.foldl add first = null := by
    induction rest generalizing first with
    | nil => exact absurd member not_mem_nil
    | cons x rest ih =>
      rcases mem_cons.mp member with rfl | later
      · rw [foldl_cons, add_null, stays]
      · exact ih _ later
  cases xs with
  | nil => exact absurd member not_mem_nil
  | cons first rest =>
    rcases mem_cons.mp member with rfl | later
    · exact stays rest
    · exact reached first rest later

theorem Fits.hasShape (fits : x.Fits shape) (present : x ≠ null) : x.HasShape shape := fits.resolve_left present

theorem HasShape.add (number : shape.IsNumber) (left : x.HasShape shape) (right : y.HasShape shape) :
    (x.add y).HasShape shape := by
  cases number <;> cases left <;> cases right <;> constructor

theorem sumOf_hasShape (number : shape.IsNumber) (fits : ∀ x ∈ xs, x.Fits shape) (some : xs ≠ []) (present : null ∉ xs) :
    (sumOf xs).HasShape shape := by
  have folded (first : Datum) (rest : List Datum) (start : first.HasShape shape) (all : ∀ x ∈ rest, x.HasShape shape) :
      (rest.foldl add first).HasShape shape := by
    induction rest generalizing first with
    | nil => exact start
    | cons x rest ih =>
      exact ih _ (start.add number (all x mem_cons_self)) fun y member => all y (mem_cons_of_mem _ member)
  have all (x : Datum) (member : x ∈ xs) : x.HasShape shape :=
    (fits x member).hasShape fun isNull => present (isNull ▸ member)
  cases xs with
  | nil => exact absurd rfl some
  | cons first rest =>
    exact folded first rest (all first mem_cons_self) fun x member => all x (mem_cons_of_mem _ member)

theorem sumOf_fits (number : shape.IsNumber) (fits : ∀ x ∈ xs, x.Fits shape) : (sumOf xs).Fits shape := by
  by_cases member : null ∈ xs
  · exact .inl (sumOf_eq_null member)
  · cases xs with
    | nil => exact .inl rfl
    | cons first rest => exact .inr (sumOf_hasShape number fits (cons_ne_nil _ _) member)

/-- What a sum of machine numbers reports is that it does not fit. -/
theorem bounded_reaches (reaches : (compute.bounded .add ty n).Reaches m r m') :
    r = ty.wrap n ∧ (m'.outcome.overflow = false → ty.fits n = true) := by
  obtain ⟨_, ⟨⟩, rfl⟩ := reaches
  refine ⟨rfl, fun quiet => ?_⟩
  by_contra large
  rw [if_neg large] at quiet
  simp [Machine.reportAll, Diagnostic.isOverflow] at quiet

/-- Addition of numbers of one kind wraps around; the sum is exact where no overflow is reported. -/
theorem add_reaches (number : shape.IsNumber) (left : x.Fits shape) (right : y.Fits shape)
    (reaches : (x.unlessNull₂ y (arithmetic .add shape)).Reaches m d m') :
    d = x.add y ∧ (m'.outcome.overflow = false → x ≠ null → y ≠ null → d.raw = x.raw + y.raw) := by
  rcases left with rfl | left
  · obtain ⟨rfl, _⟩ := Evaluation.Reaches.of_pure reaches
    exact ⟨rfl, fun _ present => absurd rfl present⟩
  · rcases right with rfl | right
    · have null : (x.isNull || Datum.null.isNull) = true := by rw [Bool.or_eq_true]; exact .inr rfl
      rw [unlessNull₂, if_pos null] at reaches
      obtain ⟨rfl, _⟩ := reaches.of_pure
      exact ⟨(add_null x).symm, fun _ _ present => absurd rfl present⟩
    · rw [unlessNull₂, left.isNull, right.isNull, Bool.or_false, if_neg Bool.false_ne_true] at reaches
      cases number with
      | integer =>
        cases left with
        | integer n => cases right with
          | integer k =>
            obtain ⟨r, m1, computed, given⟩ := Evaluation.Reaches.of_bind reaches
            obtain ⟨rfl, rfl⟩ := given.of_pure
            obtain ⟨rfl, fits⟩ := bounded_reaches computed
            have wraps : Int32.ofInt (i32.wrap (n.toInt + k.toInt)) = n + k := by
              rw [int32_ofInt_wrap, Int32.ofInt_add, Int32.ofInt_toInt, Int32.ofInt_toInt]
            refine ⟨congrArg integer wraps, fun quiet _ _ => ?_⟩
            rw [int32_ofInt_wrap]
            exact toInt_int32_of_fits (fits quiet)
      | numeric length precision =>
        cases left with
        | numeric n => cases right with
          | numeric k =>
            have kept (raw : Int) : rescale raw precision precision = (pure raw : Evaluation Int) := if_pos rfl
            have computes : ArithOp.add.computeDecimal precision n.toInt precision k.toInt precision =
                ArithOp.compute.bounded .add .i64 (n.toInt + k.toInt) := by
              rw [ArithOp.computeDecimal, kept, kept, pure_bind, pure_bind]
              rfl
            have gives : arithmetic .add (.numeric length precision) (numeric n precision) (numeric k precision) =
                (do return numeric (Int64.ofInt (← ArithOp.compute.bounded .add .i64 (n.toInt + k.toInt))) precision) := by
              rw [← computes]
              exact (pure_bind _ _).trans (pure_bind _ _)
            rw [gives] at reaches
            obtain ⟨r, m1, computed, given⟩ := Evaluation.Reaches.of_bind reaches
            obtain ⟨rfl, rfl⟩ := given.of_pure
            obtain ⟨rfl, fits⟩ := bounded_reaches computed
            have wraps : Int64.ofInt (i64.wrap (n.toInt + k.toInt)) = n + k := by
              rw [int64_ofInt_wrap, Int64.ofInt_add, Int64.ofInt_toInt, Int64.ofInt_toInt]
            refine ⟨congrArg (numeric · precision) wraps, fun quiet _ _ => ?_⟩
            rw [int64_ofInt_wrap]
            exact toInt_int64_of_fits (fits quiet)

/-- The quotient of a decimal and a whole number is cut off at the digits of the decimal. -/
theorem divide_reaches
    (reaches : ((numeric n precision).unlessNull₂ (integer k) (arithmetic .div (.numeric length precision))).Reaches m d m') :
    d = numeric (Int64.ofInt (n.toInt.tdiv k.toInt)) precision := by
  have digits : ValueType.addBytes? precision 0 = some precision := by
    have small := precision.toNat_lt
    rw [ValueType.addBytes?, if_pos (by simpa using small), UInt8.add_zero]
  have kept (raw : Int) : rescale raw 0 (UInt8.ofNat (precision.toNat - precision.toNat)) =
      (pure raw : Evaluation Int) := by
    rw [Nat.sub_self]
    rfl
  have computes : div.computeDecimal precision n.toInt precision k.toInt 0 =
      div.compute .i64 n.toInt k.toInt := by
    rw [computeDecimal, digits]
    refine (pure_bind _ _).trans ?_
    dsimp only
    rw [kept, pure_bind]
  have gives : arithmetic .div (.numeric length precision) (numeric n precision) (integer k) =
      (do return numeric (Int64.ofInt (← div.compute .i64 n.toInt k.toInt)) precision) := by
    rw [← computes]
    exact (pure_bind _ _).trans (pure_bind _ _)
  rw [unlessNull₂, if_neg (by simp [isNull]), gives] at reaches
  obtain ⟨r, _, computed, given⟩ := Evaluation.Reaches.of_bind reaches
  obtain ⟨rfl, _⟩ := given.of_pure
  by_cases zero : k.toInt = 0
  · rw [compute, if_pos zero] at computed
    obtain ⟨_, ⟨⟩, _⟩ := computed
    rw [zero, Int.tdiv_zero]
  · rw [compute, if_neg zero] at computed
    obtain ⟨rfl, _⟩ := computed.of_pure
    rw [int64_ofInt_wrap]

theorem notAfter_iff (given : x.order y = (pure order : Evaluation Ordering)) :
    x.NotAfter y ↔ order.isLE = true := by
  constructor
  · rintro ⟨_, _, gives, below⟩
    rw [given] at gives
    cases gives
    exact below
  · exact fun below => ⟨order, [], given, below⟩

theorem notAfter_bool : (bool p).NotAfter (bool q) ↔ p ≤ q :=
  (notAfter_iff rfl).trans (by cases p <;> cases q <;> decide)

theorem notAfter_integer : (integer n).NotAfter (integer k) ↔ n.toInt ≤ k.toInt :=
  (notAfter_iff rfl).trans Int.isLE_compare

theorem notAfter_date : (date n).NotAfter (date k) ↔ n.toInt ≤ k.toInt :=
  (notAfter_iff rfl).trans Int.isLE_compare

theorem notAfter_timestamp : (timestamp n).NotAfter (timestamp k) ↔ n.toInt ≤ k.toInt :=
  (notAfter_iff rfl).trans Int.isLE_compare

theorem notAfter_numeric : (numeric n precision).NotAfter (numeric k precision) ↔ n.toInt ≤ k.toInt := by
  have kept (raw : Int) : rescale raw precision (max precision precision) = (pure raw : Evaluation Int) :=
    if_pos (ite_self precision)
  have given : (numeric n precision).order (numeric k precision) =
      (pure (Ord.compare n.toInt k.toInt) : Evaluation Ordering) := by
    rw [order, kept, kept]
    rfl
  exact (notAfter_iff given).trans Int.isLE_compare

theorem isLE_textOrder : (textOrder first second).isLE = true ↔ textBytes first ≤ textBytes second :=
  isLE_compareOfLessAndEq List.le_antisymm List.not_le (fun _ _ => List.le_total _ _)

theorem notAfter_char : (char first).NotAfter (char second) ↔ textBytes first ≤ textBytes second :=
  (notAfter_iff rfl).trans isLE_textOrder

theorem notAfter_varchar : (varchar first).NotAfter (varchar second) ↔ textBytes first ≤ textBytes second :=
  (notAfter_iff rfl).trans isLE_textOrder

/-- Values of one shape sort one after the other. -/
theorem NotAfter.trans (xShape : x.HasShape shape) (yShape : y.HasShape shape) (zShape : z.HasShape shape)
    (first : x.NotAfter y) (second : y.NotAfter z) : x.NotAfter z := by
  cases xShape <;> cases yShape <;> cases zShape
  case bool => exact notAfter_bool.mpr (Bool.le_trans (notAfter_bool.mp first) (notAfter_bool.mp second))
  case integer => exact notAfter_integer.mpr (Int.le_trans (notAfter_integer.mp first) (notAfter_integer.mp second))
  case numeric => exact notAfter_numeric.mpr (Int.le_trans (notAfter_numeric.mp first) (notAfter_numeric.mp second))
  case char => exact notAfter_char.mpr (List.le_trans (notAfter_char.mp first) (notAfter_char.mp second))
  case varchar => exact notAfter_varchar.mpr (List.le_trans (notAfter_varchar.mp first) (notAfter_varchar.mp second))
  case date => exact notAfter_date.mpr (Int.le_trans (notAfter_date.mp first) (notAfter_date.mp second))
  case timestamp => exact notAfter_timestamp.mpr (Int.le_trans (notAfter_timestamp.mp first) (notAfter_timestamp.mp second))

theorem HasShape.notAfter_self (xShape : x.HasShape shape) : x.NotAfter x := by
  cases xShape
  case bool => exact notAfter_bool.mpr (Bool.le_refl _)
  case integer => exact notAfter_integer.mpr (Int.le_refl _)
  case numeric => exact notAfter_numeric.mpr (Int.le_refl _)
  case char => exact notAfter_char.mpr (List.le_refl _)
  case varchar => exact notAfter_varchar.mpr (List.le_refl _)
  case date => exact notAfter_date.mpr (Int.le_refl _)
  case timestamp => exact notAfter_timestamp.mpr (Int.le_refl _)

theorem HasShape.notAfter_total (xShape : x.HasShape shape) (yShape : y.HasShape shape) : x.NotAfter y ∨ y.NotAfter x := by
  cases xShape <;> cases yShape
  case bool => exact (Bool.le_total _ _).imp notAfter_bool.mpr notAfter_bool.mpr
  case integer => exact (Int.le_total _ _).imp notAfter_integer.mpr notAfter_integer.mpr
  case numeric => exact (Int.le_total _ _).imp notAfter_numeric.mpr notAfter_numeric.mpr
  case char => exact (List.le_total _ _).imp notAfter_char.mpr notAfter_char.mpr
  case varchar => exact (List.le_total _ _).imp notAfter_varchar.mpr notAfter_varchar.mpr
  case date => exact (Int.le_total _ _).imp notAfter_date.mpr notAfter_date.mpr
  case timestamp => exact (Int.le_total _ _).imp notAfter_timestamp.mpr notAfter_timestamp.mpr

/-- A value that does not come before another one sorts after it, or they are the same. -/
theorem HasShape.notAfter_of_not_less (xShape : x.HasShape shape) (yShape : y.HasShape shape)
    (given : x.order y = (pure order : Evaluation Ordering)) (same : order = .eq ↔ x = y) (notLess : order.isLT = false) :
    y.NotAfter x := by
  rcases xShape.notAfter_total yShape with before | before
  · cases order with
    | lt => cases notLess
    | eq =>
      rw [same.mp rfl]
      exact yShape.notAfter_self
    | gt => cases (notAfter_iff given).mp before
  · exact before

/-- Of two values the one that does not sort after the other, where NULL does not count. -/
def LesserOf (x y d : Datum) : Prop :=
  (d = x ∧ (y = null ∨ x ≠ null ∧ x.NotAfter y)) ∨ (d = y ∧ (x = null ∨ y ≠ null ∧ y.NotAfter x))

theorem Least.single (fits : x.Fits shape) : Least [x] x := by
  by_cases isNull : x = null
  · exact .inl ⟨isNull, fun y member => (mem_singleton.mp member).trans isNull⟩
  · refine .inr ⟨isNull, mem_singleton_self x, fun y member _ => ?_⟩
    rw [mem_singleton.mp member]
    exact (fits.hasShape isNull).notAfter_self

/-- The least of the values so far and one more value. -/
theorem Least.concat (fits : ∀ y ∈ xs, y.Fits shape) (least : Least xs d) (fitsNext : x.Fits shape) (lesser : LesserOf d x r)
    : Least (xs ++ [x]) r := by
  have next : x ∈ xs ++ [x] := mem_append_right _ (mem_singleton_self x)
  rcases least with ⟨rfl, nulls⟩ | ⟨present, member, below⟩
  · have isNext : r = x := by
      rcases lesser with ⟨rfl, rfl | ⟨impossible, _⟩⟩ | ⟨rfl, _⟩
      · rfl
      · exact absurd rfl impossible
      · rfl
    subst isNext
    by_cases isNull : r = null
    · refine .inl ⟨isNull, fun y member => ?_⟩
      rcases mem_append.mp member with old | new
      · exact nulls y old
      · exact (mem_singleton.mp new).trans isNull
    · refine .inr ⟨isNull, next, fun y member yPresent => ?_⟩
      rcases mem_append.mp member with old | new
      · exact absurd (nulls y old) yPresent
      · rw [mem_singleton.mp new]
        exact (fitsNext.hasShape isNull).notAfter_self
  · rcases lesser with ⟨rfl, last⟩ | ⟨rfl, isNull | ⟨nextPresent, before⟩⟩
    · refine .inr ⟨present, mem_append_left _ member, fun y member yPresent => ?_⟩
      rcases mem_append.mp member with old | new
      · exact below y old yPresent
      · rw [mem_singleton.mp new] at yPresent ⊢
        exact (last.resolve_left yPresent).2
    · exact absurd isNull present
    · refine .inr ⟨nextPresent, next, fun y inside yPresent => ?_⟩
      rcases mem_append.mp inside with old | new
      · exact before.trans (fitsNext.hasShape nextPresent) ((fits d member).hasShape present)
          ((fits y old).hasShape yPresent) (below y old yPresent)
      · rw [mem_singleton.mp new]
        exact (fitsNext.hasShape nextPresent).notAfter_self

end Datum

namespace Present

open Host.Attains

variable {a b : Present}

theorem attains_selectRegs (bit : s.Bit cond p) (left : s.ReadsAll first cells) (right : s.ReadsAll second others)
    (types : cells.map Prod.fst = others.map Prod.fst) :
    host.Yields (selectRegs cond first second) s fun regs s' => s'.ReadsAll regs (if p then cells else others) := by
  induction first generalizing s second cells others with
  | nil =>
    cases left
    obtain rfl : others = [] := map_eq_nil_iff.mp types.symm
    cases right
    rw [ite_self]
    exact .pure ⟨rfl, .nil⟩
  | cons r first ih =>
    obtain ⟨cell, cells, reads, rest, rfl⟩ := forall₂_cons_left_iff.mp left
    cases right with
    | nil => cases types
    | @cons r' other second others reads' rest' =>
      have sameType : cell.1 = other.1 := (cons.inj types).1
      refine (Host.Attains.select bit reads (sameType ▸ reads')).andThen fun chosen s1 before1 chosenIs => ?_
      refine (ih (bit.mono before1) (Point.ReadsAll.mono rest before1) (Point.ReadsAll.mono rest' before1)
        (cons.inj types).2).andThen fun regs s2 before2 regsAre => .pure ⟨rfl, ?_⟩
      cases p with
      | true => exact .cons (chosenIs.mono before2) regsAre
      | false => exact .cons (sameType ▸ chosenIs.mono before2) regsAre

end Present

/-- The registers of all values of a shape have the same types. -/
theorem Shape.Spare.types_eq {m : Machine} {cells others : List (CodeType × Word)}
    (spare : shape.Spare m cells) (spare' : shape.Spare m others) : cells.map Prod.fst = others.map Prod.fst := by
  cases spare <;> cases spare' <;> rfl

namespace Present

/-- Registers that hold a value where it is not NULL, and stand in for it where it is. -/
def Guards (s : Point) (v : Present) (d : Datum) : Prop :=
  ∃ cells, s.ReadsAll v.regs cells ∧ v.ty.shape.Spare s.machine cells ∧
    (d.isNull = false → d.Cells s.machine v.ty.shape cells)

theorem shape_ne_unknown (v : Present) : v.ty.shape ≠ .unknown := by
  cases v <;> nofun

variable {s' : Point} {a b v : Present}

theorem Guards.mono (guards : v.Guards s x) (before : s.Before s') : v.Guards s' x := by
  obtain ⟨cells, reads, spare, holds⟩ := guards
  exact ⟨cells, reads.mono before, spare.mono before.texts, fun present => (holds present).mono before.texts⟩

theorem Guards.is (guards : v.Guards s x) (present : x.isNull = false) : v.Is s x := by
  obtain ⟨cells, reads, _, holds⟩ := guards
  exact ⟨cells, reads, holds present⟩

theorem Guards.stands (guards : v.Guards s x) : v.Spare s := by
  obtain ⟨cells, reads, spare, _⟩ := guards
  exact ⟨cells, reads, spare⟩

theorem Is.guards (is : v.Is s x) : v.Guards s x := by
  obtain ⟨cells, reads, holds⟩ := is
  exact ⟨cells, reads, holds.spare, fun _ => holds⟩

theorem Spare.guards (spare : v.Spare s) : v.Guards s .null := by
  obtain ⟨cells, reads, stands⟩ := spare
  exact ⟨cells, reads, stands, nofun⟩

theorem Guards.select (bit : s.Bit cond p) (left : a.Guards s x) (right : b.Guards s y) (shape : a.ty.shape = b.ty.shape) :
    host.Yields (Present.select cond a b) s fun v s' => v.ty.shape = a.ty.shape ∧
      v.Guards s' (if p then x else y) := by
  obtain ⟨cells, reads, spare, holds⟩ := left
  obtain ⟨others, reads', spare', holds'⟩ := right
  rw [← shape] at spare' holds'
  refine (attains_selectRegs bit reads reads' (spare.types_eq spare')).sameThen fun regs s1 before1 machine1 regsAre => ?_
  refine (attains_ofRegs a.ty regs).mono fun v s2 _ ⟨point, same, vShape⟩ => ?_
  subst point
  refine ⟨rfl, vShape, if p then cells else others, same ▸ regsAre, ?_⟩
  rw [vShape, machine1]
  cases p with
  | true => exact ⟨spare, holds⟩
  | false => exact ⟨spare', holds'⟩

/-- The smaller one of two values; which one it is does not matter where one of them is NULL. -/
theorem Guards.smaller (left : a.Guards s x) (right : b.Guards s y) (shape : a.ty.shape = b.ty.shape) :
    host.Yields (Present.smaller a b) s fun v s' => v.ty.shape = a.ty.shape ∧
      ∃ less : Bool, v.Guards s' (if less then x else y) ∧
        (x.isNull = false → y.isNull = false → if less then x.NotAfter y else y.NotAfter x) := by
  have comparable : a.ty.comparable b.ty = true := by
    unfold ValueType.comparable ValueType.sameShape
    rw [shape]
    cases b.ty.shape <;> simp
  have compares : host.Yields (Present.compare .less a b) s fun bit s' => ∃ less : Bool, s'.Bit bit less ∧
        (x.isNull = false → y.isNull = false → if less then x.NotAfter y else y.NotAfter x) := by
    by_cases none : x.isNull = false ∧ y.isNull = false
    · have leftIs := left.is none.1
      have rightIs := right.is none.2
      refine (leftIs.compareAlike .less rightIs comparable).weaken ?_
      rintro bit s1 _ ⟨order, given, bitIs⟩
      refine ⟨_, bitIs, fun _ _ => ?_⟩
      obtain ⟨_, given', same⟩ := leftIs.hasShape.order_alike rightIs.hasShape comparable
      rw [given] at given'
      cases given'
      cases less : order.isLT with
      | true =>
        rw [Comparison.holds, less, if_pos rfl]
        exact (Datum.notAfter_iff given).mpr (by cases order <;> first | rfl | cases less)
      | false =>
        rw [Comparison.holds, less, if_neg Bool.false_ne_true]
        exact leftIs.hasShape.notAfter_of_not_less (shape ▸ rightIs.hasShape) given same less
    · refine (left.stands.compare .less right.stands comparable).weaken ?_
      rintro bit s1 _ ⟨less, bitIs⟩
      exact ⟨less, bitIs, fun xPresent yPresent => absurd ⟨xPresent, yPresent⟩ none⟩
  refine compares.andThen ?_
  rintro bit s1 before1 ⟨less, bitIs, chosen⟩
  refine (Guards.select bitIs (left.mono before1) (right.mono before1) shape).weaken ?_
  rintro v s2 _ ⟨vShape, vGuards⟩
  exact ⟨vShape, less, vGuards, chosen⟩

end Present

/-- The value that is chosen where NULL does not count, and a flag that tells whether it is NULL. -/
theorem Datum.lesserOf_ite {less : Bool}
    (order : x.isNull = false → y.isNull = false → if less then x.NotAfter y else y.NotAfter x) :
    let d := if x.isNull then y else if y.isNull then x else if less then x else y
    d.isNull = (x.isNull && y.isNull) ∧ Datum.LesserOf x y d := by
  have present {d : Datum} (notNull : d.isNull = false) : d ≠ .null := fun eq => by rw [eq] at notNull; cases notNull
  cases xNull : x.isNull with
  | true => exact ⟨rfl, .inr ⟨rfl, .inl (isNull_iff.mp xNull)⟩⟩
  | false =>
    cases yNull : y.isNull with
    | true => exact ⟨xNull, .inl ⟨rfl, .inl (isNull_iff.mp yNull)⟩⟩
    | false =>
      have before := order xNull yNull
      cases less with
      | true => exact ⟨xNull, .inl ⟨rfl, .inr ⟨present xNull, before⟩⟩⟩
      | false => exact ⟨yNull, .inr ⟨rfl, .inr ⟨present yNull, before⟩⟩⟩

namespace Held

open Host.Attains

variable {a b : Held} {ty : ValueType}

theorem is_nullable (bit : s.Bit flag x.isNull) (guards : v.Guards s x) : (nullable v flag).Is s x := by
  cases isNull : x.isNull with
  | true =>
    rw [isNull] at bit
    rw [Datum.isNull_iff.mp isNull]
    exact .null bit guards.stands
  | false =>
    rw [isNull] at bit
    exact .value bit (guards.is isNull)

/-- A value with a flag, which every value has that is not of the unknown type. -/
theorem Is.flagged (is : a.Is s x) (shape : a.ty.shape = ty.shape) :
    host.Yields (a.withNullability ty.asNullable) s fun h s' => h.ty.shape = ty.shape ∧
      ((∃ v flag, h = .nullable v flag ∧ s'.Bit flag x.isNull ∧ v.Guards s' x) ∨ x = .null ∧ h = .unknown) := by
  have nullable : ty.asNullable.nullable = true := rfl
  cases is with
  | unknown =>
    have isUnknown : ty.asNullable.asNullable.isUnknown = true := ValueType.isUnknown_iff.mpr shape.symm
    rw [Held.withNullability, Held.null, if_pos isUnknown]
    exact .pure ⟨rfl, shape, .inr ⟨rfl, rfl⟩⟩
  | @present v _ is =>
    refine (Host.Attains.constBool false).andThen fun flag s1 before1 unset => .pure ⟨rfl, shape, .inl ?_⟩
    exact ⟨v, flag, rfl, by rwa [is.isNull], is.guards.mono before1⟩
  | @null v flag set spare =>
    exact .pure ⟨rfl, shape, .inl ⟨v, flag, rfl, set, spare.guards⟩⟩
  | @value v flag _ unset is =>
    exact .pure ⟨rfl, shape, .inl ⟨v, flag, rfl, by rwa [is.isNull], is.guards⟩⟩

/-- The lesser one of two values, of which NULL does not count. -/
theorem Is.min (left : a.Is s x) (right : b.Is s y) (leftShape : a.ty.shape = ty.shape) (rightShape : b.ty.shape = ty.shape) :
    host.Yields (Held.min ty a b) s fun h s' => ∃ d, h.Is s' d ∧ Datum.LesserOf x y d := by
  refine .seqThen (fun _ => .after fun _ => by split <;> infer_instance) (left.flagged leftShape) ?_
  rintro a' s1 before1 ⟨aShape, aForm⟩
  refine .seqThen (fun _ => by split <;> infer_instance) ((right.mono before1).flagged rightShape) ?_
  rintro b' s2 before2 ⟨bShape, bForm⟩
  rcases aForm with ⟨v, _, rfl, vBit, vGuards⟩ | ⟨rfl, rfl⟩
  · rcases bForm with ⟨w, wFlag, rfl, wBit, wGuards⟩ | ⟨rfl, rfl⟩
    · have same : v.ty.shape = w.ty.shape := Eq.trans aShape bShape.symm
      have vBit2 := vBit.mono before2
      have vGuards2 := vGuards.mono before2
      refine (vGuards2.smaller wGuards same).andThen ?_
      rintro chosen s3 before3 ⟨chosenShape, _, chosenIs, order⟩
      refine (Present.Guards.select (wBit.mono before3) (vGuards2.mono before3) chosenIs chosenShape.symm).andThen ?_
      rintro other s4 before4 ⟨otherShape, otherIs⟩
      have upto := before3.trans before4
      refine (Present.Guards.select (vBit2.mono upto) (wGuards.mono upto) otherIs (same.symm.trans otherShape.symm)).andThen ?_
      rintro value s5 before5 ⟨_, valueIs⟩
      have upto := upto.trans before5
      refine (bitAnd (vBit2.mono upto) (wBit.mono upto)).andThen fun flag s6 before6 flagIs => ?_
      obtain ⟨isNull, lesser⟩ := Datum.lesserOf_ite order
      rw [← isNull] at flagIs
      exact .pure ⟨rfl, _, is_nullable flagIs (valueIs.mono before6), lesser⟩
    · exact absurd (Eq.trans aShape bShape.symm) v.shape_ne_unknown
  · rcases bForm with ⟨w, wFlag, rfl, wBit, wGuards⟩ | ⟨rfl, rfl⟩
    · exact absurd (Eq.trans bShape aShape.symm) w.shape_ne_unknown
    · exact (attains_null ty.asNullable).weaken fun h s3 _ is => ⟨.null, is, .inl ⟨rfl, .inl rfl⟩⟩

end Held

end QueryEngine
