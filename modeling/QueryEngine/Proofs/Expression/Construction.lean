import QueryEngine.Proofs.Expression.Typing
import QueryEngine.Proofs.Value.Operations

namespace QueryEngine

open Emit Held Checked

variable {op : ArithOp} {ty : ValueType} {fails : Fault EmitError → Prop} {length precision : UInt8}

namespace ValueType

variable {lhs rhs : ValueType}

theorem besideUnknown_eq (lhs rhs : ValueType) : besideUnknown lhs rhs =
    if lhs.isUnknown then some rhs.asNullable else if rhs.isUnknown then some lhs.asNullable else none := by
  unfold besideUnknown
  cases left : lhs.isUnknown with
  | false => cases rhs.isUnknown <;> rfl
  | true =>
    cases right : rhs.isUnknown with
    | false => rfl
    | true =>
      rw [isUnknown_iff] at right
      simp [asNullable, withNullable, unknown, right]

theorem besideUnknown_none (beside : ¬(lhs.isUnknown = true ∨ rhs.isUnknown = true)) : besideUnknown lhs rhs = none := by
  rw [not_or] at beside
  rw [besideUnknown_eq, if_neg beside.1, if_neg beside.2]

/-- Operands of which one is the NULL literal have the type of the other one. -/
theorem arithmetic_of_unknown (beside : lhs.isUnknown = true ∨ rhs.isUnknown = true) :
    arithmetic op lhs rhs = .ok (if lhs.isUnknown then rhs.asNullable else lhs.asNullable) := by
  have found : besideUnknown lhs rhs = some (if lhs.isUnknown then rhs.asNullable else lhs.asNullable) := by
    rw [besideUnknown_eq]
    cases left : lhs.isUnknown with
    | true => rfl
    | false =>
      rw [left] at beside
      simp [beside.resolve_left nofun]
  cases op with
  | add | sub => rw [arithmetic, additive, found]; rfl
  | mul => rw [arithmetic, product, found]
  | div => rw [arithmetic, quotient, found]; rfl

theorem precision_of_parts (parts : ty.numericParts? = some (length, precision)) :
    ty.precision = precision := by
  unfold numericParts? at parts
  unfold ValueType.precision
  generalize ty.shape = shape at parts
  cases shape with
  | integer | numeric => cases parts; rfl
  | _ => cases parts

/-- What inference finds for operands that are not the NULL literal. -/
structure Infers (op : ArithOp) (lhs rhs ty : ValueType) : Prop where
  nullable : ty.nullable = (lhs.nullable || rhs.nullable)
  shapes : lhs.shape = .integer ∧ rhs.shape = .integer ∧ ty.shape = .integer ∨
    ¬(lhs.shape = .integer ∧ rhs.shape = .integer) ∧ ∃ length precision l1 p l2 q, ty.shape = .numeric length precision ∧
      lhs.numericParts? = some (l1, p) ∧ rhs.numericParts? = some (l2, q) ∧ (op ≠ .mul → p ≤ precision ∧ q ≤ precision) ∧
      (op = .mul → precision.toNat = p.toNat + q.toNat)
  bounded : lhs.Bounded → rhs.Bounded → ty.Bounded

theorem parts_cases (found : ty.numericParts? = some parts) :
    ty.shape = .integer ∧ parts = (10, 0) ∨ ty.shape = .numeric parts.1 parts.2 := by
  unfold numericParts? at found
  generalize ty.shape = shape at found
  cases shape with
  | integer => cases found; exact .inl ⟨rfl, rfl⟩
  | numeric => cases found; exact .inr rfl
  | _ => cases found

theorem numericParts?_integer (shape : ty.shape = .integer) : ty.numericParts? = some (10, 0) := by
  rw [numericParts?, shape]

theorem numericParts?_numeric (shape : ty.shape = .numeric length precision) :
    ty.numericParts? = some (length, precision) := by
  rw [numericParts?, shape]

/-- Sums and quotients differ in nothing but the case of two decimals. -/
theorem arithmetic_eq (beside : besideUnknown lhs rhs = none) (other : op ≠ .mul) : arithmetic op lhs rhs =
    match lhs.shape, rhs.shape with
    | .integer, .integer => .ok ⟨.integer, lhs.nullable || rhs.nullable⟩
    | .integer, .numeric l p | .numeric l p, .integer => .ok ⟨.numeric l p, lhs.nullable || rhs.nullable⟩
    | .numeric l1 p1, .numeric l2 p2 => .ok ⟨if op = .div then .numeric (max l1 l2) (max p1 p2)
        else if p2 < p1 || (p1 == p2 && l2 ≤ l1) then lhs.shape else rhs.shape, lhs.nullable || rhs.nullable⟩
    | _, _ => .error (.error (.incompatible op.verb lhs rhs)) := by
  obtain ⟨left, _⟩ := lhs
  obtain ⟨right, _⟩ := rhs
  cases op with
  | mul => exact absurd rfl other
  | add | sub | div =>
    simp only [arithmetic, additive, quotient, beside]
    cases left <;> cases right <;> rfl

theorem addBytes?_toNat (found : addBytes? a b = some sum) : sum.toNat = a.toNat + b.toNat := by
  unfold addBytes? at found
  split at found
  · cases found
    rw [UInt8.toNat_add]
    omega
  · cases found

theorem bounded_integer (shape : ty.shape = .integer) : ty.Bounded := fun _ _ numeric => nomatch shape.symm.trans numeric

theorem product_infers (beside : besideUnknown lhs rhs = none) (inferred : product lhs rhs = .ok ty) :
    Infers .mul lhs rhs ty := by
  simp only [product, beside] at inferred
  split at inferred
  next integers =>
    cases inferred
    exact ⟨rfl, .inl ⟨integers.1, integers.2, rfl⟩, fun _ _ => bounded_integer rfl⟩
  rename_i mixed
  split at inferred
  next l1 p1 l2 p2 parts parts' =>
    obtain ⟨precision, found, inferred⟩ := bind_ok inferred
    split at inferred
    · cases inferred
    next few =>
      obtain ⟨length, _, inferred⟩ := bind_ok inferred
      cases inferred
      refine ⟨rfl, .inr ⟨mixed, _, _, l1, p1, l2, p2, rfl, parts, parts', nofun, fun _ => addBytes?_toNat ?_⟩, ?_⟩
      · cases sum : addBytes? p1 p2 with
        | none => rw [sum] at found; cases found
        | some _ => rw [sum] at found; cases found; rfl
      · intro _ _ length' precision' shape
        cases shape
        simp only [UInt8.le_iff_toNat_le, UInt8.lt_iff_toNat_lt, UInt8.max_def, UInt8.min_def, numericDigits] at *
        split <;> split <;> omega
  · cases inferred

theorem arithmetic_infers (beside : ¬(lhs.isUnknown = true ∨ rhs.isUnknown = true))
    (inferred : arithmetic op lhs rhs = .ok ty) : Infers op lhs rhs ty := by
  by_cases isMul : op = .mul
  · subst isMul
    exact product_infers (besideUnknown_none beside) inferred
  have zero (p : UInt8) : (0 : UInt8) ≤ p := UInt8.le_iff_toNat_le.mpr (Nat.zero_le _)
  rw [arithmetic_eq (besideUnknown_none beside) isMul] at inferred
  split at inferred
  next left right =>
    cases inferred
    exact ⟨rfl, .inl ⟨left, right, rfl⟩, fun _ _ => bounded_integer rfl⟩
  next l p left right =>
    cases inferred
    exact ⟨rfl, .inr ⟨by simp [right], l, p, 10, 0, l, p, rfl, numericParts?_integer left, numericParts?_numeric right,
      fun _ => ⟨zero p, UInt8.le_refl p⟩, fun mul => absurd mul isMul⟩, fun _ bounded => bounded.of_shape right.symm⟩
  next l p left right =>
    cases inferred
    exact ⟨rfl, .inr ⟨by simp [left], l, p, l, p, 10, 0, rfl, numericParts?_numeric left, numericParts?_integer right,
      fun _ => ⟨UInt8.le_refl p, zero p⟩, fun mul => absurd mul isMul⟩, fun bounded _ => bounded.of_shape left.symm⟩
  next l1 p1 l2 p2 left right =>
    have digits {length precision : UInt8} {shape : Shape} (same : shape = .numeric length precision)
        (most : p1 ≤ precision ∧ p2 ≤ precision) : ∃ length precision l1 p l2 q, shape = .numeric length precision ∧
          lhs.numericParts? = some (l1, p) ∧ rhs.numericParts? = some (l2, q) ∧
          (op ≠ .mul → p ≤ precision ∧ q ≤ precision) ∧ (op = .mul → precision.toNat = p.toNat + q.toNat) :=
      ⟨length, precision, l1, p1, l2, p2, same, numericParts?_numeric left, numericParts?_numeric right, fun _ => most,
        fun mul => absurd mul isMul⟩
    cases inferred
    refine ⟨rfl, .inr ⟨by simp [left], ?_⟩, fun bounded bounded' => ?_⟩
    · split
      · refine digits rfl ?_
        simp only [UInt8.le_iff_toNat_le, UInt8.max_def]
        split <;> simp only [UInt8.le_iff_toNat_le] at * <;> omega
      · split
        next first =>
          refine digits left ⟨UInt8.le_refl _, ?_⟩
          simp only [Bool.or_eq_true, Bool.and_eq_true, decide_eq_true_eq, beq_iff_eq] at first
          exact first.elim UInt8.le_of_lt fun same => same.1 ▸ UInt8.le_refl _
        next second =>
          refine digits right ⟨?_, UInt8.le_refl _⟩
          simp only [Bool.or_eq_true, Bool.and_eq_true, decide_eq_true_eq, beq_iff_eq, not_or] at second
          exact UInt8.not_lt.mp second.1
    · obtain ⟨inner, most⟩ := bounded l1 p1 left
      obtain ⟨inner', most'⟩ := bounded' l2 p2 right
      split
      · intro length precision shape
        cases shape
        simp only [UInt8.le_iff_toNat_le, UInt8.max_def] at *
        split <;> split <;> omega
      · split
        · exact bounded.of_shape rfl
        · exact bounded'.of_shape rfl
  · cases inferred

theorem parts_le (bounded : ty.Bounded) (parts : ty.numericParts? = some (length, precision)) :
    length ≤ 18 ∧ precision ≤ 18 := by
  rcases parts_cases parts with ⟨_, same⟩ | shape
  · cases same
    decide
  · obtain ⟨inner, most⟩ := bounded _ _ shape
    exact ⟨most, UInt8.le_trans inner most⟩

/-- Inference does not overflow. -/
theorem arithmetic_ne_trap (bounded : lhs.Bounded) (bounded' : rhs.Bounded) : arithmetic op lhs rhs ≠ .error .trap := by
  by_cases beside : lhs.isUnknown = true ∨ rhs.isUnknown = true
  · rw [arithmetic_of_unknown beside]
    exact nofun
  have known := besideUnknown_none beside
  by_cases isMul : op = .mul
  · subst isMul
    simp only [arithmetic, product, known]
    split
    · exact nofun
    split
    next l1 p1 l2 p2 parts parts' =>
      obtain ⟨fewDigits, few⟩ := parts_le bounded parts
      obtain ⟨fewDigits', few'⟩ := parts_le bounded' parts'
      rw [(addBytes?_eq few few').1, (addBytes?_eq fewDigits fewDigits').1]
      simp only [Checked.orTrap, bind, Except.bind]
      split <;> exact nofun
    · exact nofun
  · rw [arithmetic_eq known isMul]
    split <;> exact nofun

theorem arithmetic_bounded (bounded : lhs.Bounded) (bounded' : rhs.Bounded) (inferred : arithmetic op lhs rhs = .ok ty) :
    ty.Bounded := by
  by_cases beside : lhs.isUnknown = true ∨ rhs.isUnknown = true
  · rw [arithmetic_of_unknown beside] at inferred
    cases inferred
    split
    · exact bounded'
    · exact bounded
  · exact (arithmetic_infers beside inferred).bounded bounded bounded'

theorem comparison_of_shapes (found : comparison lhs rhs = .ok ty) (left : lhs'.shape = lhs.shape)
    (right : rhs'.shape = rhs.shape) : ∃ ty', comparison lhs' rhs' = .ok ty' := by
  have unknown : (lhs'.isUnknown || rhs'.isUnknown) = (lhs.isUnknown || rhs.isUnknown) := by
    simp only [isUnknown, left, right]
  have same : lhs'.comparable rhs' = lhs.comparable rhs := by simp only [comparable, sameShape, left, right]
  unfold comparison at found ⊢
  rw [unknown, same]
  split
  · exact ⟨_, rfl⟩
  next known =>
    rw [if_neg known] at found
    split
    · exact ⟨_, rfl⟩
    next different =>
      rw [if_neg different] at found
      cases found

/-- The type that an operand of arithmetic is cast to. -/
def operandType (op : ArithOp) (result operand : ValueType) : ValueType :=
  match op with
  | .add | .sub => result
  | .mul | .div => if result.isNumeric && operand.shape = .integer then numeric 10 0 else operand

theorem operandType_parts {l p : UInt8} (shape : ty.shape = .numeric length precision)
    (parts : lhs.numericParts? = some (l, p)) :
    (operandType op ty lhs).numericParts? = some (if op = .add ∨ op = .sub then (length, precision) else (l, p)) := by
  have product : (if ty.isNumeric && lhs.shape = .integer then numeric 10 0 else lhs).numericParts? = some (l, p) := by
    split
    next both =>
      have integer : lhs.shape = .integer := of_decide_eq_true (Bool.and_eq_true_iff.mp both).2
      rw [numericParts?_integer integer] at parts
      exact parts
    · exact parts
  cases op with
  | add | sub => exact numericParts?_numeric shape
  | mul | div => exact product

theorem operandType_integer (shape : ty.shape = .integer) (left : lhs.shape = .integer) :
    (operandType op ty lhs).shape = .integer := by
  have plain : ty.isNumeric = false := by rw [isNumeric, shape]
  cases op with
  | add | sub => exact shape
  | mul | div => simpa [operandType, plain] using left

theorem Infers.works (infers : Infers op lhs rhs ty) (bounded : lhs.Bounded) (bounded' : rhs.Bounded)
    (scale : op = .div → ty.precision.toNat + rhs.precision.toNat - lhs.precision.toNat ≤ 18) :
    op.Works ty (operandType op ty lhs) (operandType op ty rhs) := by
  rcases infers.shapes with
    ⟨left, right, shape⟩ | ⟨_, length, precision, l1, p, l2, q, shape, parts, parts', _, product⟩
  · exact .integer shape (operandType_integer shape left) (operandType_integer shape right)
  have left := @operandType_parts op _ _ _ _ _ _ shape parts
  have right := @operandType_parts op _ _ _ _ _ _ shape parts'
  have few := (parts_le bounded parts).2
  have few' := (parts_le bounded' parts').2
  have small := (parts_le (infers.bounded bounded bounded') (numericParts?_numeric shape)).2
  cases op with
  | add | sub => exact .numeric shape left right small small small nofun nofun
  | mul =>
    refine .numeric shape left right few few' small (fun _ => ?_) nofun
    rw [← product rfl]
    exact UInt8.le_iff_toNat_le.mp small
  | div =>
    refine .numeric shape left right few few' small nofun fun _ => ?_
    have digits := scale rfl
    rwa [precision_of_parts parts, precision_of_parts parts', precision_of_parts (numericParts?_numeric shape)] at digits

theorem operandType_bounded (bounded : lhs.Bounded) (result : ty.Bounded) : (operandType op ty lhs).Bounded := by
  have product : (if ty.isNumeric && lhs.shape = .integer then numeric 10 0 else lhs).Bounded := by
    split
    · intro length precision shape
      cases shape
      decide
    · exact bounded
  cases op with
  | add | sub => exact result
  | mul | div => exact product

/-- An operand has the shape that it is cast to, or is cast from a number to a numeric. -/
def Adapts (operand target : ValueType) : Prop :=
  operand.isUnknown = true ∨ operand.shape = target.shape ∨ operand.numericParts?.isSome = true ∧ target.isNumeric = true

theorem arithmetic_adapts (inferred : arithmetic op lhs rhs = .ok ty) :
    lhs.Adapts (operandType op ty lhs) ∧ rhs.Adapts (operandType op ty rhs) := by
  have product {operand : ValueType} :
      operand.Adapts (if ty.isNumeric && operand.shape = .integer then numeric 10 0 else operand) := by
    split
    next both =>
      have integer : operand.shape = .integer := of_decide_eq_true (Bool.and_eq_true_iff.mp both).2
      exact .inr (.inr ⟨by rw [numericParts?_integer integer]; rfl, rfl⟩)
    · exact .inr (.inl rfl)
  have sum : lhs.Adapts ty ∧ rhs.Adapts ty := by
    by_cases beside : lhs.isUnknown = true ∨ rhs.isUnknown = true
    · rw [arithmetic_of_unknown beside] at inferred
      cases inferred
      cases left : lhs.isUnknown with
      | true => exact ⟨.inl left, .inr (.inl rfl)⟩
      | false =>
        rw [left] at beside
        exact ⟨.inr (.inl rfl), .inl (beside.resolve_left nofun)⟩
    · rcases (arithmetic_infers beside inferred).shapes with
        ⟨left, right, shape⟩ | ⟨_, length, precision, l1, p, l2, q, shape, parts, parts', _⟩
      · exact ⟨.inr (.inl (left.trans shape.symm)), .inr (.inl (right.trans shape.symm))⟩
      · have numeric : ty.isNumeric = true := by rw [isNumeric, shape]
        exact ⟨.inr (.inr ⟨by rw [parts]; rfl, numeric⟩), .inr (.inr ⟨by rw [parts']; rfl, numeric⟩)⟩
  cases op with
  | add | sub => exact sum
  | mul | div => exact ⟨product, product⟩

end ValueType

namespace Datum

variable {d : Datum}

/-- A value that fits a type is not changed by coercing it. -/
theorem Coerced.coerce (value : d.Coerced shape) (same : ty.shape = shape) : d.coerce ty = .ok d := by
  obtain ⟨_, nullable⟩ := ty
  cases same
  cases value with
  | bool | integer | date | timestamp => rfl
  | char short | varchar short => exact if_pos short
  | numeric raw length precision =>
    have same : Decimal.rescale? raw precision precision = some (some raw) := by
      have lower := raw.le_toInt
      have upper := raw.toInt_lt
      have fits : fitsInt64 (raw.toInt * 1) = true := by
        rw [fitsInt64, Bool.and_eq_true, decide_eq_true_iff, decide_eq_true_iff]
        unfold int64Min int64Max
        omega
      rw [Decimal.rescale?, if_pos (UInt8.le_refl _), UInt8.sub_self]
      change some (int64? (raw.toInt * 1)) = _
      rw [int64?, if_pos fits, Int.mul_one, Int64.ofInt_toInt]
    simp only [coerce, same]
    rfl

theorem coerce_coerce {value : Datum} (coerced : value.coerce ty = .ok d) : d.coerce ty = .ok d := by
  rcases coerce_cases coerced with ⟨rfl, nullable⟩ | fits
  · exact if_pos nullable
  · exact fits.coerce rfl

theorem Coerced.notNull (value : d.Coerced shape) : d.isNull = false := by
  cases value <;> rfl

theorem naturalType?_coerced (natural : d.naturalType? = some ty) (notNull : d.isNull = false)
    (short : ∀ text, d = .char text ∨ d = .varchar text → byteLength text ≤ 65535) : d.Coerced ty.shape := by
  have long {text : String} (short : byteLength text ≤ 65535) : byteLength text ≤ (UInt16.ofNat (byteLength text)).toNat :=
    Nat.le_of_eq (UInt16.toNat_ofNat_of_lt' (Nat.lt_succ_of_le short)).symm
  cases d with
  | null => cases notNull
  | bool | integer | date | timestamp => cases natural; constructor
  | numeric raw precision =>
    obtain ⟨_, _, ⟨⟩⟩ := Option.bind_eq_some_iff.mp natural
    constructor
  | char text =>
    cases natural
    exact .char (long (short text (.inl rfl)))
  | varchar text =>
    cases natural
    exact .varchar (long (short text (.inr rfl)))

/-- A literal that is too long for any type is refused. -/
theorem coerce_natural_ne_trap (natural : d.naturalType? = some ty) : d.coerce ty.asNotNull ≠ .error .trap := by
  by_cases short : ∀ text, d = .char text ∨ d = .varchar text → byteLength text ≤ 65535
  · cases isNull : d.isNull with
    | true =>
      cases d with
      | null => exact nofun
      | _ => cases isNull
    | false =>
      have same : d.coerce ty.asNotNull = .ok d := (naturalType?_coerced natural isNull short).coerce rfl
      rw [same]
      exact nofun
  · push Not at short
    obtain ⟨text, rfl | rfl, _⟩ := short
    all_goals
      cases natural
      dsimp only [coerce, ValueType.asNotNull, ValueType.withNullable, ValueType.char, ValueType.varchar]
      split <;> nofun

end Datum

namespace Scalar

/-- How many operations, columns and literals an expression has. -/
def nodes : Scalar → Nat
  | cast child _ | not child => child.nodes + 1
  | arithmetic _ lhs rhs _ | compare _ lhs rhs | and lhs rhs | or lhs rhs => lhs.nodes + rhs.nodes + 1
  | column _ | literal _ _ | null => 1

/-- The digits by which the dividend is scaled up. -/
def scale (ty : ValueType) (lhs rhs : Scalar) : Nat := ty.precision.toNat + rhs.ty.precision.toNat - lhs.ty.precision.toNat

/-- Expressions that the checked constructors build from columns, literals and NULL. All their numerics have at most 18
digits, and so do the scales of their quotients. Explicit casts, and literals that are too long for any type, are there
only if `loose`. -/
inductive Built (loose : Bool) : Scalar → Prop
  | constant {value : Datum} {e : Scalar} (made : constant? value = some e) (bounded : e.ty.Bounded)
    (short : loose = false → ∀ text, value = .char text ∨ value = .varchar text → byteLength text ≤ 65535) : Built loose e
  | typedConstant {value : Datum} {ty : ValueType} {e : Scalar} (made : typedConstant value ty = .ok e)
    (bounded : ty.Bounded) : Built loose e
  | column (a : Attribute) (bounded : a.ty.Bounded) : Built loose (.column a)
  | null : Built loose .null
  | cast {e : Scalar} (explicit : loose = true) (child : Built loose e) {ty : ValueType} (bounded : ty.Bounded) :
    Built loose (.cast e ty)
  | not {e e' : Scalar} (child : Built loose e) (made : makeNot e = .ok e') : Built loose e'
  | arithmetic {op : ArithOp} {lhs rhs e : Scalar} (left : Built loose lhs) (right : Built loose rhs)
    (made : makeArithmetic op lhs rhs = .ok e) (fits : op = .div → scale e.ty lhs rhs ≤ 18) : Built loose e
  | compare {mode : Comparison} {lhs rhs e : Scalar} (left : Built loose lhs) (right : Built loose rhs)
    (made : makeCompare mode lhs rhs = .ok e) : Built loose e
  | and {lhs rhs e : Scalar} (left : Built loose lhs) (right : Built loose rhs) (made : makeAnd lhs rhs = .ok e) :
    Built loose e
  | or {lhs rhs e : Scalar} (left : Built loose lhs) (right : Built loose rhs) (made : makeOr lhs rhs = .ok e) :
    Built loose e

/-- The row has values of the right types for all columns of the expression. -/
def Provided (loose : Bool) (row : HeldRow) (e : Scalar) (b : Builder) : Prop :=
  ∀ a ∈ e.reads, (∃ h, row.value? a = some h ∧ h.Formed b ∧ h.ty = a.ty) ∨ loose = true ∧ row.value? a = none

/-- The registers have the type of the expression. After an explicit cast a value may be NULL although the type that it has
been cast to is not nullable. -/
structure Typing (loose : Bool) (e : Scalar) (h : Held) (b : Builder) : Prop where
  formed : h.Formed b
  shape : h.ty.shape = e.ty.shape
  same : loose = false → h.ty = e.ty

/-- Code for the expression is emitted with room for three literals for each of its nodes. -/
def Emits (loose : Bool) (fails : Fault EmitError → Prop) (row : HeldRow) (e : Scalar) : Prop :=
  ∀ n b, e.Provided loose row b → Safe fails (n + 3 * e.nodes) n (e.emit row) b (e.Typing loose)

variable {loose : Bool} {row : HeldRow} {e e' lhs rhs : Scalar} {target : ValueType}

theorem expectBool_ok (expected : expectBool operation e = .ok ()) : e.ty.IsCondition := by
  unfold expectBool at expected
  split at expected
  · exact .inl ‹_›
  · exact .inr ‹_›
  · cases expected

theorem makeNot_ok (made : makeNot e = .ok e') : e' = not e ∧ e.ty.IsCondition := by
  obtain ⟨_, expected, made⟩ := bind_ok made
  cases made
  exact ⟨rfl, expectBool_ok expected⟩

theorem makeConnective_ok {both : Scalar} (made : (do
      expectBool operation lhs
      expectBool operation rhs
      return both) = .ok e) : e = both ∧ lhs.ty.IsCondition ∧ rhs.ty.IsCondition := by
  obtain ⟨_, left, made⟩ := bind_ok made
  obtain ⟨_, right, made⟩ := bind_ok made
  cases made
  exact ⟨rfl, expectBool_ok left, expectBool_ok right⟩

theorem makeCompare_ok (made : makeCompare mode lhs rhs = .ok e) :
    e = compare mode lhs rhs ∧ ∃ ty, ValueType.comparison lhs.ty rhs.ty = .ok ty := by
  obtain ⟨ty, comparable, made⟩ := bind_ok made
  cases made
  exact ⟨rfl, ty, mapError_ok comparable⟩

theorem makeArithmetic_ok (made : makeArithmetic op lhs rhs = .ok e) : ∃ ty, ValueType.arithmetic op lhs.ty rhs.ty = .ok ty ∧
    e = arithmetic op (castTo (.operandType op ty lhs.ty) lhs) (castTo (.operandType op ty rhs.ty) rhs) ty := by
  obtain ⟨ty, inferred, made⟩ := bind_ok made
  refine ⟨ty, mapCause_ok inferred, ?_⟩
  have widen (e : Scalar) : widenInteger ty e =
      castTo (if ty.isNumeric && e.ty.shape = .integer then .numeric 10 0 else e.ty) e := by
    unfold widenInteger
    split
    · rfl
    · rw [castTo, if_pos (by simp [ValueType.sameShape])]
  cases op with
  | add | sub => cases made; rfl
  | mul | div =>
    cases made
    exact congrArg₂ (fun lhs rhs => arithmetic _ lhs rhs ty) (widen lhs) (widen rhs)

theorem makeArithmetic_ne_trap (bounded : lhs.ty.Bounded) (bounded' : rhs.ty.Bounded) :
    makeArithmetic op lhs rhs ≠ .error .trap := by
  intro made
  have noTrap : ValueType.arithmetic op lhs.ty rhs.ty ≠ .error .trap := ValueType.arithmetic_ne_trap bounded bounded'
  unfold makeArithmetic at made
  cases inferred : ValueType.arithmetic op lhs.ty rhs.ty with
  | ok ty => rw [inferred] at made; cases made
  | error fault =>
    rw [inferred] at made noTrap
    cases fault with
    | trap => exact noTrap rfl
    | error cause => cases made

/-- A literal stands for a value that fits its type, or may be refused. -/
theorem constant?_literal (made : constant? value = some e) : e = null ∨ ∃ ty, e = literal value ty ∧
    value.isNull = false ∧ value.naturalType? = some ty := by
  unfold constant? at made
  split at made
  · cases made
    exact .inl rfl
  next notNull =>
    obtain ⟨ty, natural, rfl⟩ := Option.map_eq_some_iff.mp made
    exact .inr ⟨ty, rfl, Bool.eq_false_iff.mpr notNull, natural⟩

theorem typedConstant_literal (made : typedConstant value ty = .ok e) :
    e = null ∨ ∃ d : Datum, e = literal d ty.asNotNull ∧ d.Coerced ty.shape := by
  unfold typedConstant at made
  split at made
  · cases made
    exact .inl rfl
  · obtain ⟨d, coerced, made⟩ := bind_ok made
    cases made
    rcases Datum.coerce_cases (mapCause_ok coerced) with ⟨_, nullable⟩ | value
    · cases nullable
    · exact .inr ⟨d, rfl, value⟩

/-- All expressions that are built have numerics of at most 18 digits. -/
theorem Built.bounded (built : Built loose e) : e.ty.Bounded := by
  have isBool {nullable : Bool} : (ValueType.bool.withNullable nullable).Bounded := fun _ _ shape => by cases shape
  induction built with
  | constant _ bounded | column _ bounded | cast _ _ bounded => exact bounded
  | typedConstant made bounded =>
    rcases typedConstant_literal made with rfl | ⟨d, rfl, _⟩
    · exact fun _ _ shape => by cases shape
    · exact bounded
  | null => exact fun _ _ shape => by cases shape
  | not _ made =>
    obtain ⟨rfl, _⟩ := makeNot_ok made
    exact isBool
  | arithmetic _ _ made _ left right =>
    obtain ⟨_, inferred, rfl⟩ := makeArithmetic_ok made
    exact ValueType.arithmetic_bounded left right inferred
  | compare _ _ made =>
    obtain ⟨rfl, _⟩ := makeCompare_ok made
    exact isBool
  | and _ _ made | or _ _ made =>
    obtain ⟨rfl, _⟩ := makeConnective_ok made
    exact isBool

theorem castTo_nullable (target : ValueType) (e : Scalar) : (castTo target e).ty.nullable = e.ty.nullable := by
  unfold castTo
  split <;> rfl

theorem castTo_shape (target : ValueType) (e : Scalar) :
    (castTo target e).ty.shape = if e.ty.isUnknown then .unknown else target.shape := by
  unfold castTo
  cases isUnknown : e.ty.isUnknown with
  | true => exact ValueType.isUnknown_iff.mp isUnknown
  | false =>
    split
    next same => exact of_decide_eq_true same
    · rfl

theorem castTo_isUnknown (same : ty.shape = (castTo target e).ty.shape) (isUnknown : e.ty.isUnknown = true) :
    ty.isUnknown = true := by
  rw [castTo_shape, if_pos isUnknown] at same
  exact ValueType.isUnknown_iff.mpr same

section

variable (refuses : loose = true → ∀ cause, fails (.error cause))

include refuses

/-- A cast from a number to a numeric that keeps whether it may be NULL, or an explicit one. -/
theorem Emits.cast (emits : Emits loose fails row e) (bounded : e.ty.Bounded) (bounded' : target.Bounded)
    (allowed : (e.ty.numericParts?.isSome = true ∧ target.isNumeric = true) ∧ target.nullable = e.ty.nullable ∨ loose = true) :
    Emits loose fails row (.cast e target) := by
  intro n b provided
  refine Safe.spare (n := n + 1 + 3 * e.nodes) ?_ (by simp only [nodes]; omega)
  refine (emits (n + 1) b provided).bind fun h b1 _ typing => ?_
  have allowed' : h.ty.numericParts?.isSome = true ∧ target.isNumeric = true ∨ ∀ cause, fails (.error cause) := by
    rcases allowed with ⟨number, _⟩ | explicit
    · rw [ValueType.numericParts?, typing.shape]
      exact .inl number
    · exact .inr (refuses explicit)
  refine (safe_cast typing.formed (bounded.of_shape typing.shape) bounded' allowed').mono ?_
  rintro r b2 _ ⟨formed, same⟩
  refine ⟨formed, by rw [same]; rfl, fun strict => ?_⟩
  rcases allowed with ⟨_, kept⟩ | explicit
  · rw [same, typing.same strict, kept, Bool.or_self, ← kept]
    rfl
  · cases strict.symm.trans explicit

theorem Emits.castTo (emits : Emits loose fails row e) (bounded : e.ty.Bounded) (bounded' : target.Bounded)
    (adapts : e.ty.Adapts target) : Emits loose fails row (Scalar.castTo target e) := by
  unfold Scalar.castTo
  split
  · exact emits
  next different =>
    rw [Bool.or_eq_true_iff, not_or] at different
    have number := (adapts.resolve_left different.1).resolve_left fun same => different.2 (decide_eq_true same)
    exact emits.cast refuses bounded (bounded'.of_shape rfl) (.inl ⟨number, rfl⟩)

end

theorem Provided.mono (provided : e.Provided loose row b) (more : b.function.types.toList <+: b'.function.types.toList) :
    e.Provided loose row b' := by
  intro a member
  rcases provided a member with ⟨h, found, formed, same⟩ | missing
  · exact .inl ⟨h, found, formed.mono more, same⟩
  · exact .inr missing

/-- Code for both operands, and then for the operation. -/
theorem Emits.both {code : Held → Held → Emit Held} (left : Emits loose fails row lhs)
    (right : Emits loose fails row rhs) (provided : (and lhs rhs).Provided loose row b)
    (operation : ∀ x y c, lhs.Typing loose x c → rhs.Typing loose y c → Safe fails (n + 3) n (code x y)
      c (e.Typing loose)) :
    Safe fails (n + 3 * (lhs.nodes + rhs.nodes + 1)) n (do
      let x ← lhs.emit row
      let y ← rhs.emit row
      code x y) b (e.Typing loose) := by
  have first : lhs.Provided loose row b := fun a member => provided a (List.mem_append_left _ member)
  have second : rhs.Provided loose row b := fun a member => provided a (List.mem_append_right _ member)
  refine Safe.spare (n := n + 3 + 3 * rhs.nodes + 3 * lhs.nodes) ?_ (by omega)
  refine (left (n + 3 + 3 * rhs.nodes) b first).bind fun x b1 grows1 typing => ?_
  refine (right (n + 3) b1 (second.mono grows1.types)).bind fun y b2 grows2 typing' => ?_
  exact operation x y b2 ⟨typing.formed.mono grows2.types, typing.shape, typing.same⟩ typing'

theorem Emits.connective (left : Emits loose fails row lhs) (right : Emits loose fails row rhs)
    (isBool : lhs.ty.IsCondition) (isBool' : rhs.ty.IsCondition)
    (ty : e.ty = ValueType.bool.withNullable (lhs.ty.nullable || rhs.ty.nullable))
    (provided : (and lhs rhs).Provided loose row b) :
    Safe fails (n + 3 * (lhs.nodes + rhs.nodes + 1)) n (do
      let x ← lhs.emit row
      let y ← rhs.emit row
      connective isAnd x y) b (e.Typing loose) := by
  refine left.both right provided fun x y c typing typing' => ?_
  refine Safe.spare (n := n) ?_ (by omega)
  refine (safe_connective typing.formed typing'.formed (isBool.of_shape typing.shape)
    (isBool'.of_shape typing'.shape)).mono
    fun r d _ ⟨formed, same⟩ => ⟨formed, by rw [same, ty]; rfl, fun strict => ?_⟩
  rw [same, ty, typing.same strict, typing'.same strict]

theorem Emits.arithmetic (refuses : loose = true → ∀ cause, fails (.error cause)) (left : Emits loose fails row lhs)
    (right : Emits loose fails row rhs) (bounded : lhs.ty.Bounded) (bounded' : rhs.ty.Bounded)
    (inferred : ValueType.arithmetic op lhs.ty rhs.ty = .ok ty) (fits : op = .div → scale ty lhs rhs ≤ 18) :
    Emits loose fails row
      (.arithmetic op (Scalar.castTo (.operandType op ty lhs.ty) lhs) (Scalar.castTo (.operandType op ty rhs.ty) rhs) ty) := by
  have result := ValueType.arithmetic_bounded bounded bounded' inferred
  obtain ⟨adapts, adapts'⟩ := ValueType.arithmetic_adapts inferred
  have left := left.castTo refuses bounded (ValueType.operandType_bounded bounded result) adapts
  have right := right.castTo refuses bounded' (ValueType.operandType_bounded bounded' result) adapts'
  intro n b provided
  refine left.both right provided fun x y c typing typing' => ?_
  refine (safe_arithmetic typing.formed typing'.formed fun isKnown isKnown' => ?_).mono
    fun r d _ ⟨formed, same⟩ => ⟨formed, by rw [same]; rfl, fun strict => ?_⟩
  · have known := mt (castTo_isUnknown typing.shape) isKnown
    have known' := mt (castTo_isUnknown typing'.shape) isKnown'
    have shape := typing.shape.trans (castTo_shape _ lhs)
    have shape' := typing'.shape.trans (castTo_shape _ rhs)
    rw [if_neg known] at shape
    rw [if_neg known'] at shape'
    have infers := ValueType.arithmetic_infers (not_or.mpr ⟨known, known'⟩) inferred
    exact (infers.works bounded bounded' fits).of_shapes rfl shape shape'
  · refine same.trans (ValueType.ext_iff.mpr ⟨rfl, ?_⟩)
    change (x.ty.nullable || y.ty.nullable) = ty.nullable
    by_cases beside : lhs.ty.isUnknown = true ∨ rhs.ty.isUnknown = true
    · -- A NULL literal stays one when it is adapted, and its registers are those of NULL.
      have nullable : ty.nullable = true := by
        rw [ValueType.arithmetic_of_unknown beside] at inferred
        cases inferred
        split <;> rfl
      rw [nullable]
      rcases beside with isUnknown | isUnknown
      · rw [eq_unknown_iff.mpr (castTo_isUnknown typing.shape isUnknown)]
        rfl
      · rw [eq_unknown_iff.mpr (castTo_isUnknown typing'.shape isUnknown)]
        exact Bool.or_true _
    · rw [(ValueType.arithmetic_infers beside inferred).nullable, typing.same strict, typing'.same strict,
        castTo_nullable, castTo_nullable]

/-- Code is emitted for all expressions that are built. -/
theorem Built.emits (built : Built loose e) (refuses : loose = true → ∀ cause, fails (.error cause)) :
    Emits loose fails row e := by
  have null : Emits loose fails row .null := fun n b _ =>
    (Safe.pure ⟨trivial, rfl, fun _ => rfl⟩).spare (by omega)
  have literal {d : Datum} {ty : ValueType} (notNull : d.isNull = false)
      (coerced : (∃ d', d.coerce ty.asNotNull = .ok d') ∨
        (∃ cause, d.coerce ty.asNotNull = .error (.error cause)) ∧ ∀ cause, fails (.error cause)) :
      Emits loose fails row (.literal d ty) := fun n b _ => by
    refine Safe.spare (n := n + 1) ?_ (by simp only [nodes]; omega)
    refine (safe_constant notNull coerced).mono ?_
    rintro h b' _ ⟨formed, same⟩
    exact ⟨formed, congrArg ValueType.shape same, fun _ => same⟩
  induction built with
  | @constant value e made bounded short =>
    rcases constant?_literal made with rfl | ⟨ty, rfl, notNull, natural⟩
    · exact null
    · refine literal notNull ?_
      cases loose with
      | false =>
        have coerced := Datum.naturalType?_coerced natural notNull (short rfl)
        exact .inl ⟨value, coerced.coerce rfl⟩
      | true =>
        have noTrap := Datum.coerce_natural_ne_trap natural
        cases result : value.coerce ty.asNotNull with
        | ok d => exact .inl ⟨d, rfl⟩
        | error fault => cases fault with
          | trap => exact absurd result noTrap
          | error cause => exact .inr ⟨⟨cause, rfl⟩, refuses rfl⟩
  | @typedConstant value ty e made bounded =>
    rcases typedConstant_literal made with rfl | ⟨d, rfl, value⟩
    · exact null
    · exact literal value.notNull (.inl ⟨d, value.coerce rfl⟩)
  | column a bounded =>
    intro n b provided
    refine Safe.spare (n := n) ?_ (by omega)
    unfold emit HeldRow.value
    rcases provided a List.mem_cons_self with ⟨h, found, formed, same⟩ | ⟨isLoose, missing⟩
    · rw [found]
      exact .pure ⟨formed, congrArg ValueType.shape same, fun _ => same⟩
    · rw [missing]
      exact .throw (refuses isLoose _)
  | null => exact null
  | cast explicit child bounded emits => exact emits.cast refuses child.bounded bounded (.inr explicit)
  | @not e _ child made emits =>
    obtain ⟨rfl, isBool⟩ := makeNot_ok made
    intro n b provided
    refine Safe.spare (n := n + 3 * e.nodes) ?_ (by simp only [nodes]; omega)
    refine (emits n b provided).bind fun h b1 _ typing => ?_
    refine (safe_not typing.formed (isBool.of_shape typing.shape)).mono ?_
    rintro r b2 _ ⟨formed, same⟩
    refine ⟨formed, by rw [same]; rfl, fun strict => ?_⟩
    rw [same, typing.same strict]
    rfl
  | @arithmetic op lhs rhs _ left right made fits emits emits' =>
    obtain ⟨ty, inferred, rfl⟩ := makeArithmetic_ok made
    exact emits.arithmetic refuses emits' left.bounded right.bounded inferred fits
  | @compare mode lhs rhs _ left right made emits emits' =>
    obtain ⟨rfl, ty, comparable⟩ := makeCompare_ok made
    intro n b provided
    refine emits.both emits' provided fun x y c typing typing' => ?_
    refine Safe.spare (n := n) ?_ (by omega)
    obtain ⟨ty', comparable'⟩ := ValueType.comparison_of_shapes comparable typing.shape typing'.shape
    refine (safe_compare typing.formed typing'.formed comparable').mono ?_
    rintro r d _ ⟨formed, same⟩
    refine ⟨formed, by rw [same]; rfl, fun strict => ?_⟩
    rw [same, typing.same strict, typing'.same strict]
    rfl
  | and left right made emits emits' | or left right made emits emits' =>
    obtain ⟨rfl, isBool, isBool'⟩ := makeConnective_ok made
    exact fun n b provided => emits.connective emits' isBool isBool' rfl provided

/-- Typing is sound and complete for emission. Code is emitted for every expression that the checked constructors build
without explicit casts, and its registers have exactly the type of the expression. The program needs room for the literals
of the expression and for those of its reports. -/
theorem Built.emit_has_type {b : Builder} (built : Built false e) (ready : b.Ready) (room : b.Room (3 * e.nodes))
    (provided : ∀ a ∈ e.reads, ∃ h, row.value? a = some h ∧ h.Formed b ∧ h.ty = a.ty) :
    ∃ h b', e.emit row b = .ok h b' ∧ h.Formed b' ∧ h.ty = e.ty ∧ (h = .unknown ↔ e.ty.isUnknown = true) := by
  have emits : Emits false (fun _ => False) row e := built.emits nofun
  have safe := emits 0 b fun a member => .inl (provided a member)
  obtain ⟨h, b', emitted, typing⟩ := safe.emitted ready (by rwa [Nat.zero_add])
  have same := typing.same rfl
  exact ⟨h, b', emitted, typing.formed, same, same ▸ Held.eq_unknown_iff⟩

namespace Built.Example

def x : Attribute := ⟨0, ⟨.numeric 10 2, true⟩⟩

def y : Attribute := ⟨1, .numeric 4 1⟩

def quotient : Scalar := .arithmetic .div (.column x) (.column y) ⟨.numeric 10 2, true⟩

/-- `NULL + x`. -/
def sum : Scalar := .arithmetic .add .null (.column x) ⟨.numeric 10 2, true⟩

def text : Scalar := .literal (.char "ab") (.char 2)

/-- `x / y < NULL + x or not 'ab' = 'ab'`. -/
def expression : Scalar := .or (.compare .less quotient sum) (.not (.compare .equal text text))

def held : HeldRow := [(x, .nullable (.numeric ⟨0⟩ 10 2) ⟨1⟩), (y, .present (.numeric ⟨2⟩ 4 1))]

/-- The values are the parameters of a function. -/
def builder : Builder :=
  ((((Builder.start { name := "example", encoding := .indicator } "example" [.i64, .i1, .i64] none).define .i64
    (.param 0)).2.define .i1 (.param 1)).2.define .i64 (.param 2)).2

theorem builder_ready : builder.Ready := by
  refine ⟨rfl, fun slot member => ?_, ?_, by decide⟩
  · cases member
  · exact .nil

theorem bounded_of_shape (fits : precision ≤ length ∧ length ≤ 18) (nullable : Bool) :
    ValueType.Bounded ⟨.numeric length precision, nullable⟩ := by
  intro l p shape
  cases shape
  exact fits

theorem built_x (loose : Bool) : Built loose (.column x) := .column x (bounded_of_shape (by decide) true)

theorem built_quotient (loose : Bool) : Built loose quotient := by
  have made : makeArithmetic .div (.column x) (.column y) = .ok quotient := rfl
  exact .arithmetic (built_x loose) (.column y (bounded_of_shape (by decide) false)) made fun _ => by decide

end Built.Example

open Built.Example in
theorem Built.emit_has_type_example : ∃ h b', Built false expression ∧ builder.Ready ∧ builder.Room (3 * expression.nodes) ∧
    (∀ a ∈ expression.reads, ∃ h, held.value? a = some h ∧ h.Formed builder ∧ h.ty = a.ty) ∧
    expression.emit held builder = .ok h b' ∧ h.ty = ValueType.bool.asNullable := by
  have made : constant? (.char "ab") = some text := rfl
  have builtText : Built false text := .constant made (fun _ _ shape => by cases shape) fun _ text isText => by
    rcases isText with same | same
    · cases same
      decide +kernel
    · cases same
  have added : makeArithmetic .add .null (.column x) = .ok sum := rfl
  have builtSum : Built false sum := .arithmetic .null (built_x false) added nofun
  have built : Built false expression :=
    .or (.compare (built_quotient false) builtSum rfl) (.not (.compare builtText builtText rfl) rfl) rfl
  have room : builder.Room (3 * expression.nodes) := by unfold Builder.Room; decide
  have provided : ∀ a ∈ expression.reads, ∃ h, held.value? a = some h ∧ h.Formed builder ∧ h.ty = a.ty := by
    have first : ∃ h, held.value? x = some h ∧ h.Formed builder ∧ h.ty = x.ty := ⟨_, rfl, ⟨.cons rfl .nil, rfl⟩, rfl⟩
    have second : ∃ h, held.value? y = some h ∧ h.Formed builder ∧ h.ty = y.ty := ⟨_, rfl, .cons rfl .nil, rfl⟩
    intro a member
    have either : a = x ∨ a = y := by simpa [expression, quotient, sum, text, reads, or_comm] using member
    rcases either with rfl | rfl
    · exact first
    · exact second
  obtain ⟨h, b', emitted, _, same, _⟩ := built.emit_has_type builder_ready room provided
  exact ⟨h, b', built, builder_ready, room, provided, emitted, same⟩

/-- Neither inference nor emission leaves the range of a word, whatever explicit casts there are, as long as the scales of
quotients have at most 18 digits. -/
theorem Built.never_traps {b : Builder} (built : Built true e) (ready : b.Ready) (room : b.Room (3 * e.nodes))
    (provided : ∀ a ∈ e.reads, ∀ h, row.value? a = some h → h.Formed b ∧ h.ty = a.ty) :
    (∀ b', e.emit row b ≠ .error .trap b') ∧
      ∀ op other, Built true other → makeArithmetic op e other ≠ .error .trap ∧ makeArithmetic op other e ≠ .error .trap := by
  have emits : Emits true (· ≠ .trap) row e := built.emits fun _ _ => nofun
  have values : e.Provided true row b := by
    intro a member
    cases found : row.value? a with
    | none => exact .inr ⟨rfl, rfl⟩
    | some h => exact .inl ⟨h, rfl, provided a member h found⟩
  refine ⟨fun b' trapped => ?_, fun op other built' => ?_⟩
  · have ends := emits 0 b values ready (by rwa [Nat.zero_add])
    rw [trapped] at ends
    exact ends rfl
  · exact ⟨makeArithmetic_ne_trap built.bounded built'.bounded, makeArithmetic_ne_trap built'.bounded built.bounded⟩

open Built.Example in
/-- A cast that is refused. -/
theorem Built.never_traps_example : Built true (.cast quotient .date) ∧ builder.Ready ∧
    builder.Room (3 * (Scalar.cast quotient .date).nodes) ∧ ∀ b', (Scalar.cast quotient .date).emit held builder ≠ .error .trap b' := by
  have built : Built true (.cast quotient .date) := .cast rfl (built_quotient true) fun _ _ shape => by cases shape
  have room : builder.Room (3 * (Scalar.cast quotient .date).nodes) := by unfold Builder.Room; decide
  refine ⟨built, builder_ready, room, (built.never_traps builder_ready room ?_).1⟩
  intro a member h found
  have either : a = x ∨ a = y := by simpa [quotient, reads] using member
  rcases either with rfl | rfl
  · cases found
    exact ⟨⟨.cons rfl .nil, rfl⟩, rfl⟩
  · cases found
    exact ⟨.cons rfl .nil, rfl⟩

/-- The scale of a quotient may have more digits than a word holds. -/
theorem quotient_traps : ∃ (column : Attribute) (divisor quotient : Scalar), column.ty = ⟨.numeric 18 0, true⟩ ∧
    typedConstant (.numeric 1 18) (.numeric 18 18) = .ok divisor ∧
    makeArithmetic .div (.column column) divisor = .ok quotient ∧
    scale quotient.ty (.column column) divisor = 36 ∧
    ∃ b', quotient.emit [(column, .nullable (.numeric ⟨0⟩ 18 0) ⟨1⟩)] Built.Example.builder = .error .trap b' := by
  refine ⟨⟨0, ⟨.numeric 18 0, true⟩⟩, .literal (.numeric 1 18) (.numeric 18 18), _, rfl, rfl, rfl, rfl, ?_⟩
  exact ⟨_, rfl⟩

end Scalar

end QueryEngine
