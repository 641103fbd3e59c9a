import QueryEngine.Proofs.Pipeline.Results
import QueryEngine.Proofs.Tuple.Folds

namespace QueryEngine

open Emit Datum Held
open List hiding count length sum

variable {aggregate : Aggregate} {total b : Held}

theorem exists_of_forall₂_single {R : α → β → Prop} (all : List.Forall₂ R xs [y]) : ∃ x, xs = [x] ∧ R x y := by
  obtain ⟨x, _, first, ⟨⟩, rfl⟩ := forall₂_cons_right_iff.mp all
  exact ⟨x, rfl, first⟩

namespace Datum

/-- A sum that is exact as long as no overflow has been reported. -/
def Exact (reported : Bool) (xs : List Datum) : Prop :=
  reported = false → null ∉ xs → (sumOf xs).raw = (xs.map raw).sum

/-- The sum of values. One value that is NULL makes it NULL. -/
def Sums (reported : Bool) (xs : List Datum) (d : Datum) : Prop :=
  d = sumOf xs ∧ (null ∈ xs → d = null) ∧ Exact reported xs

/-- The sum of values divided by their number, which has 32 bits, and cut off. -/
def Averages (reported : Bool) (xs : List Datum) (d : Datum) : Prop :=
  (null ∈ xs → d = null) ∧
  (null ∉ xs → ∃ total precision, Sums reported xs (numeric total precision) ∧
    d = numeric (Int64.ofInt (total.toInt.tdiv (Int32.ofNat xs.length).toInt)) precision ∧
    (xs.length < 2 ^ 31 → d.raw = total.toInt.tdiv xs.length))

end Datum

namespace Aggregate

/-- The types of arguments and results belong together, and every attribute has the shape that its number stands for. -/
def Typed (types : Nat → Shape) : Aggregate → Prop
  | keep a => a.Typed types
  | countAll a => a.Typed types ∧ a.ty.shape = .integer
  | sum argument a => argument.Typed types ∧ a.Typed types ∧ a.ty.shape = argument.ty.shape ∧ a.ty.shape.IsNumber
  | avg argument a => argument.Typed types ∧ a.Typed types ∧ a.ty.shape = argument.ty.shape ∧
    ∃ length precision, a.ty.shape = .numeric length precision
  | min argument a => argument.Typed types ∧ a.Typed types ∧ a.ty.shape = argument.ty.shape

instance (shape : Shape) : Decidable (∃ length precision, shape = .numeric length precision) :=
  match shape with
  | .numeric length precision => isTrue ⟨length, precision, rfl⟩
  | .unknown | .bool | .integer | .char _ | .varchar _ | .date | .timestamp => isFalse nofun

instance (types : Nat → Shape) (aggregate : Aggregate) : Decidable (aggregate.Typed types) :=
  match aggregate with
  | keep _ => inferInstanceAs (Decidable (_ = _))
  | countAll _ | sum _ _ | avg _ _ | min _ _ => inferInstanceAs (Decidable (_ ∧ _))

theorem Typed.result {types : Nat → Shape} (typed : aggregate.Typed types) :
    aggregate.result.Typed types := by
  cases aggregate with
  | keep => exact typed
  | countAll => exact typed.1
  | sum | avg | min => exact typed.2.1

/-- The values of an argument for rows, in their order. -/
structure Arguments (argument : Scalar) (rows : List ValueRow) (xs : List Datum) : Prop where
  values : rows.mapM (fun row => argument.value? row) = some xs
  fits : ∀ x ∈ xs, x.Fits argument.ty.shape

/-- What the rows of a group come to in the state for one aggregate. -/
inductive Fields (reported : Bool) (rows : List ValueRow) : Aggregate → List Datum → Prop
  | keep {a : Attribute} {d : Datum} (same : ∀ row ∈ rows, row.value? a = some d) : Fields reported rows (keep a) [d]
  | sum {argument : Scalar} {a : Attribute} {xs : List Datum} (arguments : Arguments argument rows xs)
    (exact : Datum.Exact reported xs) : Fields reported rows (sum argument a) [Datum.sumOf xs]
  | avg {argument : Scalar} {a : Attribute} {xs : List Datum} (arguments : Arguments argument rows xs)
    (exact : Datum.Exact reported xs) :
    Fields reported rows (avg argument a) [Datum.sumOf xs, .integer (Int32.ofNat rows.length)]
  | countAll {a : Attribute} : Fields reported rows (countAll a) [.integer (Int32.ofNat rows.length)]
  | min {argument : Scalar} {a : Attribute} {xs : List Datum} {d : Datum} (arguments : Arguments argument rows xs)
    (least : Datum.Least xs d) : Fields reported rows (min argument a) [d]

/-- What the rows of a group come to, in the order of the aggregates. -/
inductive Folded (reported : Bool) (rows : List ValueRow) : List Aggregate → List Datum → Prop
  | nil : Folded reported rows [] []
  | cons {aggregate : Aggregate} {aggregates : List Aggregate} {fields state : List Datum}
    (here : aggregate.Fields reported rows fields) (rest : Folded reported rows aggregates state) :
    Folded reported rows (aggregate :: aggregates) (fields ++ state)

/-- The value of an aggregate for a group of rows. -/
def Yields (reported : Bool) (rows : List ValueRow) : Aggregate → Datum → Prop
  | keep a, d => ∀ row ∈ rows, row.value? a = some d
  | sum argument _, d => ∃ xs, rows.mapM (fun row => argument.value? row) = some xs ∧ Datum.Sums reported xs d
  | avg argument _, d => ∃ xs, rows.mapM (fun row => argument.value? row) = some xs ∧ Datum.Averages reported xs d
  | countAll _, d => d = .integer (Int32.ofNat rows.length)
  | min argument _, d => ∃ xs, rows.mapM (fun row => argument.value? row) = some xs ∧ Datum.Least xs d

end Aggregate

variable {ty : ValueType} {a : Attribute}

section

open Host.Attains

variable {host : Host} {s : Point} {row : ValueRow} {rows : List ValueRow} {reported : Bool} {argument : Scalar}

theorem Machine.Later.unreported {m m' : Machine} (later : m.Later m') (unreported : m'.outcome.overflow = false) :
    m.outcome.overflow = false := by
  cases was : m.outcome.overflow with
  | false => rfl
  | true => exact absurd (later.overflow was) (by rw [unreported]; exact Bool.false_ne_true)

theorem Datum.Exact.mono (exact : Datum.Exact reported xs) (less : reported' = false → reported = false) :
    Datum.Exact reported' xs :=
  fun quiet => exact (less quiet)

theorem Aggregate.Arguments.concat (arguments : Aggregate.Arguments argument rows xs) (given : argument.value? row = some x)
    (fits : x.Fits argument.ty.shape) : Aggregate.Arguments argument (rows ++ [row]) (xs ++ [x]) where
  values := by
    rw [mapM_append, arguments.values]
    simp [given]
  fits := by
    intro y member
    rcases mem_append.mp member with old | new
    · exact arguments.fits y old
    · rw [mem_singleton.mp new]
      exact fits

theorem Aggregate.Arguments.single (given : argument.value? row = some x) (fits : x.Fits argument.ty.shape) :
    Aggregate.Arguments argument [row] [x] := by
  have start : Aggregate.Arguments argument [] [] := ⟨rfl, nofun⟩
  exact start.concat given fits

theorem Aggregate.Arguments.ne_nil (arguments : Aggregate.Arguments argument rows xs) (some : rows ≠ []) : xs ≠ [] := by
  have lengths := (mapM_eq_some_iff.mp arguments.values).length_eq
  intro none
  rw [none, length_nil] at lengths
  exact some (length_eq_zero_iff.mp lengths)

/-- One more value is added to a sum. -/
theorem Held.attains_sum {value : Held} (number : ty.shape.IsNumber) (some : xs ≠ [])
    (fits : ∀ x ∈ xs, x.Fits ty.shape) (fitsNext : x.Fits ty.shape) (exact : Datum.Exact s.machine.outcome.overflow xs)
    (totalIs : total.Is s (sumOf xs)) (valueIs : value.Is s x) :
    host.Attains (arithmetic .add ty total value) s fun h s' => s.machine.Quiet s'.machine ∧
      Datum.Exact s'.machine.outcome.overflow (xs ++ [x]) ∧ h.Is s' (Datum.sumOf (xs ++ [x])) := by
  refine (totalIs.arithmetic .add ty valueIs).mono fun h s' _ ⟨d, reaches, is⟩ => ?_
  obtain ⟨rfl, adds⟩ := add_reaches number (sumOf_fits number fits) fitsNext reaches
  have quiet := reaches.quiet
  rw [sumOf_concat some]
  refine ⟨quiet, fun unreported present => ?_, is⟩
  have presentFirst : Datum.null ∉ xs := fun member => present (mem_append_left _ member)
  have presentNext : x ≠ .null := fun isNull => present (mem_append_right _ (isNull ▸ mem_singleton_self x))
  have presentSum : sumOf xs ≠ .null := by
    intro isNull
    have shape := sumOf_hasShape number fits some presentFirst
    rw [isNull] at shape
    cases shape
  rw [sumOf_concat some, adds unreported presentSum presentNext,
    exact (quiet.toLater.unreported unreported) presentFirst]
  simp

theorem Aggregate.attains_one : host.Yields Aggregate.one s fun h s' => h.Is s' (.integer 1) := by
  refine (attains_constant (.integer 1) .integer).mono fun h s' _ ⟨d, reaches, is⟩ => ?_
  obtain ⟨rfl, machine⟩ := Evaluation.Reaches.of_pure reaches
  exact ⟨machine, is⟩

/-- One more row is counted. -/
theorem Aggregate.attains_count {count : Held} {n : Nat} (is : count.Is s (.integer (Int32.ofNat n))) {one : Held}
    (oneIs : one.Is s (.integer 1)) : host.Attains (arithmetic .add .integer count one) s fun h s' =>
      s.machine.Quiet s'.machine ∧ h.Is s' (.integer (Int32.ofNat (n + 1))) := by
  refine (is.arithmetic .add .integer oneIs).mono fun h s' _ ⟨d, reaches, is⟩ => ⟨reaches.quiet, ?_⟩
  obtain ⟨rfl, _⟩ := add_reaches .integer (.inr (.integer _)) (.inr (.integer _)) reaches
  rwa [Int32.ofNat_add]

/-- The least value so far and one more value. -/
theorem Aggregate.attains_leastOf (currentIs : current.Is s d) (valueIs : value.Is s x)
    (currentShape : current.ty.shape = ty.shape) (valueShape : value.ty.shape = ty.shape) :
    host.Yields (Aggregate.leastOf ty current value) s fun h s' => ∃ r, h.Is s' r ∧ Datum.LesserOf d x r := by
  unfold leastOf
  split
  next v w =>
    cases currentIs with
    | present vIs => cases valueIs with
      | present wIs =>
        refine (vIs.guards.smaller wIs.guards (Eq.trans currentShape valueShape.symm)).andThen ?_
        rintro r s1 _ ⟨_, less, guards, order⟩
        refine .pure ⟨rfl, _, .present (guards.is ?_), ?_⟩
        · cases less with
          | true => exact vIs.isNull
          | false => exact wIs.isNull
        · have lesser := (lesserOf_ite order).2
          simpa only [vIs.isNull, wIs.isNull, Bool.false_eq_true, if_false] using lesser
  · exact currentIs.min valueIs currentShape valueShape

theorem Present.gives_select (cond : Reg) (v w : Present) :
    Gives (Present.select cond v w) fun r => r.ty.shape = v.ty.shape :=
  .after fun regs => gives_ofRegs v.ty regs

theorem Held.gives_min {a : Held} (right : b.ty.shape = ty.shape) :
    Gives (min ty a b) fun h => h.ty.shape = ty.shape := by
  have form : Gives (b.withNullability ty.asNullable) fun h => h.ty.shape = ty.shape :=
    gives_withNullability fun _ => right
  refine .after fun a' => form.bind fun b' shape => ?_
  split
  · refine .after fun chosen => .after fun other => (Present.gives_select _ _ _).bind fun value same => ?_
    exact .after fun flag => .pure (same.trans shape)
  · exact gives_null ty.asNullable

theorem Aggregate.gives_leastOf {a : Held} (left : a.ty.shape = ty.shape) (right : b.ty.shape = ty.shape) :
    Gives (Aggregate.leastOf ty a b) fun h => h.ty.shape = ty.shape := by
  unfold leastOf
  split
  · refine Gives.bind (.after fun less => Present.gives_select less _ _) fun r same => .pure (same.trans left)
  · exact gives_min right

namespace Aggregate

variable {aggregates : List Aggregate} {fields state : List Datum}

theorem Fields.mono (holds : aggregate.Fields reported rows fields) (less : reported' = false → reported = false) :
    aggregate.Fields reported' rows fields := by
  cases holds with
  | keep same => exact .keep same
  | sum arguments exact => exact .sum arguments (exact.mono less)
  | avg arguments exact => exact .avg arguments (exact.mono less)
  | countAll => exact .countAll
  | min arguments least => exact .min arguments least

theorem Folded.mono (folded : Folded reported rows aggregates state) (less : reported' = false → reported = false) :
    Folded reported' rows aggregates state := by
  induction folded with
  | nil => exact .nil
  | cons here _ ih => exact .cons (here.mono less) ih

/-- The types of what a group keeps for one aggregate. -/
theorem stateTypes_cons (aggregate : Aggregate) (aggregates : List Aggregate) :
    stateTypes (aggregate :: aggregates) = stateTypes [aggregate] ++ stateTypes aggregates := by
  simp [stateTypes]

/-- The argument of an aggregate, in the form of its result. -/
theorem attains_argument (reads : argument.Typed types) (shape : a.ty.shape = argument.ty.shape)
    (is : HeldRow.Is s held row) (rowTyped : HeldRow.Typed types held) :
    host.Attains (argument.emit held >>= fun value => value.withNullability a.ty) s fun h s' => ∃ x,
      s.machine.Quiet s'.machine ∧ argument.value? row = some x ∧ x.Fits argument.ty.shape ∧ h.Is s' x ∧
      h.ty.shape = a.ty.shape := by
  refine ((argument.attains_value is).with_gives (Scalar.gives_shape reads rowTyped)).bind
    fun value s1 _ ⟨⟨x, given, quiet1, valueIs⟩, valueShape⟩ => ?_
  refine ((valueIs.withNullability a.ty).with_gives (gives_withNullability fun _ => valueShape.trans shape.symm)).mono
    fun h s2 _ ⟨⟨machine2, hIs⟩, hShape⟩ => ⟨x, quiet1.trans (.of_eq machine2), given, ?_, hIs, hShape⟩
  rw [← valueShape]
  exact valueIs.fits

theorem gives_one : Gives one fun h => h.ty.shape = .integer := gives_constant (.integer 1) .integer

theorem exact_single (reported : Bool) (x : Datum) : Datum.Exact reported [x] := by
  intro _ _
  simp [sumOf]

/-- The fields of a group with one row. -/
theorem attains_initial (typed : aggregate.Typed types) (is : HeldRow.Is s held row) (rowTyped : HeldRow.Typed types held) :
    host.Attains (aggregate.initial held) s fun hs s' => ∃ fields,
      s.machine.Quiet s'.machine ∧ aggregate.Fields s'.machine.outcome.overflow [row] fields ∧
      Held.All s' hs fields ∧
      Held.Shaped hs (stateTypes [aggregate]) := by
  cases aggregate with
  | keep a =>
    refine ((is.value a).with_gives (rowTyped.gives_value typed)).bind fun h s1 _ ⟨⟨d, point, found, hIs⟩, shape⟩ => ?_
    subst point
    refine ((hIs.withNullability a.ty).with_gives (gives_withNullability fun _ => shape)).bind
      fun h' s2 _ ⟨⟨machine2, hIs'⟩, shape'⟩ => .pure ⟨[d], .of_eq machine2, .keep ?_, .cons hIs' .nil, .cons shape' .nil⟩
    intro r member
    rw [mem_singleton.mp member]
    exact found
  | sum argument a =>
    rw [initial, ← bind_assoc]
    refine (attains_argument typed.1 typed.2.2.1 is rowTyped).bind fun h s1 _ ⟨x, quiet, given, fits, hIs, shape⟩ => ?_
    exact .pure ⟨[x], quiet, .sum (.single given fits) (exact_single _ x), .cons hIs .nil, .cons shape .nil⟩
  | avg argument a =>
    rw [initial, ← bind_assoc]
    refine (attains_argument typed.1 typed.2.2.1 is rowTyped).bind fun h s1 _ ⟨x, quiet, given, fits, hIs, shape⟩ => ?_
    refine (attains_one.with_gives gives_one).bind fun n s2 before2 ⟨⟨machine2, nIs⟩, nShape⟩ => ?_
    refine .pure ⟨[x, .integer 1], quiet.trans (.of_eq machine2), .avg (.single given fits) (exact_single _ x), ?_, ?_⟩
    · exact .cons (hIs.mono before2) (.cons nIs .nil)
    · exact .cons shape (.cons nShape .nil)
  | countAll a =>
    refine (attains_one.with_gives gives_one).bind fun n s1 _ ⟨⟨machine1, nIs⟩, nShape⟩ => ?_
    exact .pure ⟨[.integer 1], .of_eq machine1, .countAll, .cons nIs .nil, .cons (nShape.trans typed.2.symm) .nil⟩
  | min argument a =>
    rw [initial, ← bind_assoc]
    refine (attains_argument typed.1 typed.2.2 is rowTyped).bind fun h s1 _ ⟨x, quiet, given, fits, hIs, shape⟩ => ?_
    exact .pure ⟨[x], quiet, .min (.single given fits) (.single fits), .cons hIs .nil, .cons shape .nil⟩

/-- The state of a group with one row. -/
theorem attains_initialState (typed : ∀ aggregate ∈ aggregates, aggregate.Typed types) (is : HeldRow.Is s held row)
    (rowTyped : HeldRow.Typed types held) :
    host.Attains (initialState held aggregates) s fun hs s' => ∃ state,
      s.machine.Quiet s'.machine ∧ Folded s'.machine.outcome.overflow [row] aggregates state ∧
      Held.All s' hs state ∧
      Held.Shaped hs (stateTypes aggregates) := by
  induction aggregates generalizing s with
  | nil => exact .pure ⟨[], .refl _, .nil, .nil, .nil⟩
  | cons aggregate aggregates ih =>
    refine (attains_initial (typed aggregate mem_cons_self) is rowTyped).bind
      fun hs s1 before1 ⟨fields, quiet1, here, are, shapes⟩ => ?_
    refine (ih (fun other member => typed other (mem_cons_of_mem _ member)) (is.mono before1)).bind
      fun hs' s2 before2 ⟨state, quiet2, folded, others, shapes'⟩ => .pure ⟨fields ++ state, quiet1.trans quiet2, ?_, ?_, ?_⟩
    · exact .cons (here.mono quiet2.toLater.unreported) folded
    · exact rel_append (are.imp fun _ _ is => is.mono before2) others
    · rw [stateTypes_cons]
      exact rel_append shapes shapes'

/-- The code that folds one more row into the fields of one aggregate. -/
def updateFields (row : HeldRow) : Aggregate → List Held → Emit (List Held)
  | keep _, [key] => return [key]
  | sum argument a, [total] => do
    let value ← argument.emit row
    return [← Held.arithmetic .add a.ty total value]
  | avg argument a, [total, count] => do
    let value ← argument.emit row
    let total ← Held.arithmetic .add a.ty total value
    let n ← one
    return [total, ← Held.arithmetic .add .integer count n]
  | countAll _, [count] => do
    let n ← one
    return [← Held.arithmetic .add .integer count n]
  | min argument a, [current] => do
    let value ← argument.emit row
    let value ← value.withNullability a.ty
    return [← leastOf a.ty current value]
  | _, _ => Emit.trap

instance (row : HeldRow) (aggregate : Aggregate) (fields : List Held) : Growing (aggregate.updateFields row fields) := by
  unfold updateFields
  split <;> infer_instance

theorem updateState_append {row : HeldRow} {fields : List Held} (fit : fields.length = (stateTypes [aggregate]).length)
    (state : List Held) : updateState row (aggregate :: aggregates) (fields ++ state) = (do
      let fields ← aggregate.updateFields row fields
      return fields ++ (← updateState row aggregates state)) := by
  cases aggregate with
  | keep | sum | countAll | min =>
    obtain ⟨_, rfl⟩ := length_eq_one_iff.mp fit
    simp [updateState, updateFields]
  | avg =>
    obtain ⟨_, _, rfl⟩ := length_eq_two.mp fit
    simp [updateState, updateFields]

/-- Rows belong to one group where they have the same values for the grouping keys. -/
def SameKeys (aggregates : List Aggregate) (row other : ValueRow) : Prop :=
  ∀ a ∈ keys aggregates, row.value? a = other.value? a

theorem sameKeys_cons (same : SameKeys (aggregate :: aggregates) row other) :
    SameKeys [aggregate] row other ∧ SameKeys aggregates row other := by
  have split : keys (aggregate :: aggregates) = keys [aggregate] ++ keys aggregates := by
    cases aggregate <;> rfl
  refine ⟨fun a member => same a ?_, fun a member => same a ?_⟩
  · rw [split]
    exact mem_append_left _ member
  · rw [split]
    exact mem_append_right _ member

/-- The sum for a group with one more row. -/
theorem attains_total (reads : argument.Typed types) (shape : a.ty.shape = argument.ty.shape)
    (number : a.ty.shape.IsNumber) (arguments : Arguments argument rows xs) (some : rows ≠ [])
    (exact : Datum.Exact s.machine.outcome.overflow xs) (totalIs : total.Is s (sumOf xs))
    (is : HeldRow.Is s held row) (rowTyped : HeldRow.Typed types held) :
    host.Attains (argument.emit held >>= fun value => arithmetic .add a.ty total value) s fun h s' => ∃ x,
      s.machine.Quiet s'.machine ∧ Arguments argument (rows ++ [row]) (xs ++ [x]) ∧
      Datum.Exact s'.machine.outcome.overflow (xs ++ [x]) ∧ h.Is s' (sumOf (xs ++ [x])) ∧ h.ty.shape = a.ty.shape := by
  refine ((argument.attains_value is).with_gives (Scalar.gives_shape reads rowTyped)).bind
    fun value s1 before1 ⟨⟨x, given, quiet1, valueIs⟩, valueShape⟩ => ?_
  have fits : x.Fits argument.ty.shape := valueShape ▸ valueIs.fits
  refine ((attains_sum number (arguments.ne_nil some) (shape ▸ arguments.fits) (shape ▸ fits)
    (exact.mono quiet1.toLater.unreported) (totalIs.mono before1) valueIs).with_gives
    (gives_arithmetic .add a.ty total value)).mono fun h s2 _ ⟨⟨quiet2, exact2, hIs⟩, hShape⟩ => ?_
  exact ⟨x, quiet1.trans quiet2, arguments.concat given fits, exact2, hIs, hShape⟩

/-- The fields of one aggregate with one more row. -/
theorem attains_updateFields (typed : aggregate.Typed types)
    (holds : aggregate.Fields s.machine.outcome.overflow rows fields) (some : rows ≠ [])
    (same : ∀ other ∈ rows, SameKeys [aggregate] row other) (are : Held.All s current fields)
    (shapes : Held.Shaped current (stateTypes [aggregate])) (is : HeldRow.Is s held row)
    (rowTyped : HeldRow.Typed types held) :
    host.Attains (aggregate.updateFields held current) s fun hs s' => ∃ fields',
      s.machine.Quiet s'.machine ∧ aggregate.Fields s'.machine.outcome.overflow (rows ++ [row]) fields' ∧
      Held.All s' hs fields' ∧
      Held.Shaped hs (stateTypes [aggregate]) := by
  have length : (rows ++ [row]).length = rows.length + 1 := by simp
  cases holds with
  | @keep a d value =>
    obtain ⟨_, rfl, keyIs⟩ := exists_of_forall₂_single are
    refine .pure ⟨[d], .refl _, .keep fun other member => ?_, .cons keyIs .nil, shapes⟩
    rcases mem_append.mp member with old | new
    · exact value other old
    · obtain ⟨first, rest, rfl⟩ := exists_cons_of_ne_nil some
      rw [mem_singleton.mp new, same first mem_cons_self a mem_cons_self]
      exact value first mem_cons_self
  | @sum argument a xs arguments exact =>
    obtain ⟨reads, _, shape, number⟩ := typed
    obtain ⟨total, rfl, totalIs⟩ := exists_of_forall₂_single are
    rw [updateFields, ← bind_assoc]
    refine (attains_total reads shape number arguments some exact totalIs is rowTyped).bind
      fun h s1 _ ⟨x, quiet1, arguments', exact', hIs, hShape⟩ => ?_
    exact .pure ⟨[_], quiet1, .sum arguments' exact', .cons hIs .nil, .cons hShape .nil⟩
  | @avg argument a xs arguments exact =>
    obtain ⟨reads, _, shape, digits, precision, isNumeric⟩ := typed
    have number : a.ty.shape.IsNumber := isNumeric ▸ .numeric digits precision
    obtain ⟨total, rest, totalIs, restAre, rfl⟩ := forall₂_cons_right_iff.mp are
    obtain ⟨count, rfl, countIs⟩ := exists_of_forall₂_single restAre
    rw [updateFields, ← bind_assoc]
    refine (attains_total reads shape number arguments some exact totalIs is rowTyped).bind
      fun h s1 before1 ⟨x, quiet1, arguments', exact', hIs, hShape⟩ => ?_
    refine attains_one.bind fun n s2 before2 ⟨machine2, nIs⟩ => ?_
    refine ((attains_count ((countIs.mono before1).mono before2) nIs).with_gives
      (gives_arithmetic .add .integer count n)).bind fun c s3 before3 ⟨⟨quiet3, cIs⟩, cShape⟩ => ?_
    have later : s1.machine.Quiet s3.machine := (Machine.Quiet.of_eq machine2).trans quiet3
    rw [← length] at cIs
    exact .pure ⟨[_, _], quiet1.trans later, .avg arguments' (exact'.mono later.toLater.unreported),
      .cons (hIs.mono (before2.trans before3)) (.cons cIs .nil), .cons hShape (.cons cShape .nil)⟩
  | @countAll a =>
    obtain ⟨count, rfl, countIs⟩ := exists_of_forall₂_single are
    refine attains_one.bind fun n s1 before1 ⟨machine1, nIs⟩ => ?_
    refine ((attains_count (countIs.mono before1) nIs).with_gives (gives_arithmetic .add .integer count n)).bind
      fun h s2 _ ⟨⟨quiet2, hIs⟩, hShape⟩ => .pure ⟨[.integer (Int32.ofNat (rows.length + 1))], ?_, ?_, .cons hIs .nil, ?_⟩
    · exact (Machine.Quiet.of_eq machine1).trans quiet2
    · rw [← length]
      exact .countAll
    · exact .cons (hShape.trans typed.2.symm) .nil
  | @min argument a xs d arguments least =>
    obtain ⟨reads, _, shape⟩ := typed
    obtain ⟨_, rfl, currentIs⟩ := exists_of_forall₂_single are
    obtain ⟨currentShape, _⟩ := forall₂_cons.mp shapes
    rw [updateFields, ← bind_assoc]
    refine (attains_argument reads shape is rowTyped).bind fun value s1 before1 ⟨x, quiet1, given, fits, valueIs, valueShape⟩ => ?_
    refine ((attains_leastOf (currentIs.mono before1) valueIs currentShape valueShape).with_gives
      (gives_leastOf currentShape valueShape)).bind fun h s2 _ ⟨⟨machine2, r, hIs, lesser⟩, hShape⟩ => ?_
    refine .pure ⟨[r], quiet1.trans (.of_eq machine2), .min (arguments.concat given fits) ?_, .cons hIs .nil, .cons hShape .nil⟩
    exact least.concat arguments.fits fits lesser

theorem Fields.length_eq (holds : aggregate.Fields reported rows fields) :
    fields.length = (stateTypes [aggregate]).length := by
  cases holds <;> rfl

/-- The fields of the first aggregate and those of the others. -/
theorem Fields.split (holds : aggregate.Fields reported rows fields) (are : Held.All s hs (fields ++ state))
    (shapes : Held.Shaped hs (stateTypes (aggregate :: aggregates))) :
    ∃ first rest, hs = first ++ rest ∧ Held.All s first fields ∧
      Held.All s rest state ∧
      Held.Shaped first (stateTypes [aggregate]) ∧
      Held.Shaped rest (stateTypes aggregates) := by
  rw [stateTypes_cons] at shapes
  have firstShapes := forall₂_take_append hs _ _ shapes
  have restShapes := forall₂_drop_append hs _ _ shapes
  rw [← holds.length_eq] at firstShapes restShapes
  exact ⟨hs.take fields.length, hs.drop fields.length, (take_append_drop _ _).symm,
    forall₂_take_append hs fields state are, forall₂_drop_append hs fields state are, firstShapes, restShapes⟩

/-- The state of a group with one more row. -/
theorem attains_updateState (typed : ∀ aggregate ∈ aggregates, aggregate.Typed types)
    (folded : Folded s.machine.outcome.overflow rows aggregates state) (some : rows ≠ [])
    (same : ∀ other ∈ rows, SameKeys aggregates row other) (are : Held.All s current state)
    (shapes : Held.Shaped current (stateTypes aggregates)) (is : HeldRow.Is s held row)
    (rowTyped : HeldRow.Typed types held) :
    host.Attains (updateState held aggregates current) s fun hs s' => ∃ state',
      s.machine.Quiet s'.machine ∧ Folded s'.machine.outcome.overflow (rows ++ [row]) aggregates state' ∧
      Held.All s' hs state' ∧
      Held.Shaped hs (stateTypes aggregates) := by
  induction aggregates generalizing s current state with
  | nil => exact .pure ⟨[], .refl _, .nil, .nil, .nil⟩
  | cons aggregate aggregates ih =>
    cases folded with
    | @cons _ _ fields state here rest =>
      obtain ⟨_, _, rfl, firstAre, restAre, firstShapes, restShapes⟩ := here.split are shapes
      rw [stateTypes_cons, updateState_append firstShapes.length_eq]
      refine (attains_updateFields (typed aggregate mem_cons_self) here some
        (fun other member => (sameKeys_cons (same other member)).1) firstAre firstShapes is rowTyped).bind
        fun hs s1 before1 ⟨fields', quiet1, here', are', shapes'⟩ => ?_
      refine (ih (fun other member => typed other (mem_cons_of_mem _ member)) (rest.mono quiet1.toLater.unreported)
        (fun other member => (sameKeys_cons (same other member)).2) (restAre.imp fun _ _ is => is.mono before1) restShapes
        (is.mono before1)).bind fun hs' s2 before2 ⟨state', quiet2, folded', others', shapes''⟩ => ?_
      refine .pure ⟨fields' ++ state', quiet1.trans quiet2, .cons (here'.mono quiet2.toLater.unreported) folded', ?_, ?_⟩
      · exact rel_append (are'.imp fun _ _ is => is.mono before2) others'
      · exact rel_append shapes' shapes''

/-- The keys in the state of a group are those of its rows. -/
theorem Folded.keyFields (folded : Folded reported rows aggregates state) (are : Held.All s hs state) :
    ∃ key, Held.All s (Aggregate.keyFields aggregates hs) key ∧
      ∀ row ∈ rows, row.selected? (keys aggregates) = some key := by
  induction folded generalizing hs with
  | nil => exact ⟨[], by cases are; exact .nil, fun _ _ => rfl⟩
  | @cons aggregate aggregates fields state here rest ih =>
    cases here with
    | @keep a d same =>
      obtain ⟨h, hs, hIs, others, rfl⟩ := forall₂_cons_right_iff.mp are
      obtain ⟨key, keyAre, selected⟩ := ih others
      refine ⟨d :: key, .cons hIs keyAre, fun row member => ?_⟩
      change (a :: keys aggregates).mapM row.value? = _
      rw [mapM_cons, same row member, show (keys aggregates).mapM row.value? = _ from selected row member]
      rfl
    | sum | countAll | min =>
      obtain ⟨h, hs, hIs, others, rfl⟩ := forall₂_cons_right_iff.mp are
      exact ih others
    | avg =>
      obtain ⟨h, hs, hIs, others, rfl⟩ := forall₂_cons_right_iff.mp are
      obtain ⟨_, hs, _, others', rfl⟩ := forall₂_cons_right_iff.mp others
      exact ih others'

/-- The average out of a sum and a count. -/
theorem attains_quotient (shape : a.ty.shape = argument.ty.shape)
    (isNumeric : ∃ length precision, a.ty.shape = .numeric length precision) (arguments : Arguments argument rows xs)
    (exact : Datum.Exact reported xs) (some : rows ≠ []) (totalIs : total.Is s (sumOf xs))
    (countIs : count.Is s (.integer (Int32.ofNat rows.length))) :
    host.Attains (arithmetic .div a.ty total count) s fun h s' => s.machine.Quiet s'.machine ∧
      ∃ d, h.Is s' d ∧ Datum.Averages reported xs d := by
  obtain ⟨digits, precision, isNumeric⟩ := isNumeric
  have number : a.ty.shape.IsNumber := isNumeric ▸ .numeric digits precision
  have length : xs.length = rows.length := (mapM_eq_some_iff.mp arguments.values).length_eq.symm
  refine (totalIs.arithmetic .div a.ty countIs).mono fun h s' _ ⟨d, reaches, is⟩ =>
    ⟨reaches.quiet, d, is, fun member => ?_, fun present => ?_⟩
  · rw [sumOf_eq_null member] at reaches
    exact (Evaluation.Reaches.of_pure reaches).1
  · have sumShape := sumOf_hasShape number (shape ▸ arguments.fits) (arguments.ne_nil some) present
    rw [isNumeric] at sumShape reaches
    generalize isSum : sumOf xs = sum at sumShape reaches
    cases sumShape with
    | numeric n =>
      have quotient := divide_reaches reaches
      rw [← length] at quotient
      refine ⟨n, precision, ⟨isSum.symm, fun member => absurd member present, exact⟩, quotient, fun small => ?_⟩
      have counted : (Int32.ofNat xs.length).toInt = xs.length := Int32.toInt_ofNat_of_lt small
      have positive : (0 : Int) < xs.length := by
        have := List.length_pos_of_ne_nil (arguments.ne_nil some)
        omega
      rw [quotient, counted]
      exact CodeType.toInt_int64_of_fits (CodeType.fits_tdiv (CodeType.fits_int64 n) positive)

/-- The code for the value of one aggregate. -/
def outputValue : Aggregate → List Held → Emit Held
  | avg _ a, [total, count] => Held.arithmetic .div a.ty total count
  | _, [value] => return value
  | _, _ => Emit.trap

instance (aggregate : Aggregate) (fields : List Held) : Growing (aggregate.outputValue fields) := by
  unfold outputValue
  split <;> infer_instance

theorem outputRow_append {fields : List Held} (fit : fields.length = (stateTypes [aggregate]).length) (state : List Held)
    (row : HeldRow) : outputRow (aggregate :: aggregates) (fields ++ state) row = (do
      let value ← aggregate.outputValue fields
      outputRow aggregates state ((aggregate.result, value) :: row)) := by
  cases aggregate with
  | keep | sum | countAll | min =>
    obtain ⟨_, rfl⟩ := length_eq_one_iff.mp fit
    rfl
  | avg =>
    obtain ⟨_, _, rfl⟩ := length_eq_two.mp fit
    rfl

/-- The value of one aggregate for the rows of a group. -/
theorem attains_outputValue (typed : aggregate.Typed types) (holds : aggregate.Fields reported rows fields)
    (some : rows ≠ []) (are : Held.All s current fields) (shapes : Held.Shaped current (stateTypes [aggregate])) :
    host.Attains (aggregate.outputValue current) s fun h s' => s.machine.Quiet s'.machine ∧
      h.ty.shape = aggregate.result.ty.shape ∧ ∃ d, h.Is s' d ∧ aggregate.Yields reported rows d := by
  cases holds with
  | @keep a d same =>
    obtain ⟨h, rfl, hIs⟩ := exists_of_forall₂_single are
    exact .pure ⟨.refl _, (List.forall₂_cons.mp shapes).1, d, hIs, same⟩
  | @sum argument a xs arguments exact =>
    obtain ⟨h, rfl, hIs⟩ := exists_of_forall₂_single are
    exact .pure ⟨.refl _, (List.forall₂_cons.mp shapes).1, _, hIs, xs, arguments.values, rfl, sumOf_eq_null, exact⟩
  | @avg argument a xs arguments exact =>
    obtain ⟨total, _, totalIs, restAre, rfl⟩ := List.forall₂_cons_right_iff.mp are
    obtain ⟨count, rfl, countIs⟩ := exists_of_forall₂_single restAre
    refine ((attains_quotient typed.2.2.1 typed.2.2.2 arguments exact some totalIs countIs).with_gives
      (gives_arithmetic .div a.ty total count)).mono fun h s' _ ⟨⟨quiet, d, hIs, averages⟩, shape⟩ => ?_
    exact ⟨quiet, shape, d, hIs, xs, arguments.values, averages⟩
  | @countAll a =>
    obtain ⟨h, rfl, hIs⟩ := exists_of_forall₂_single are
    exact .pure ⟨.refl _, (List.forall₂_cons.mp shapes).1, _, hIs, rfl⟩
  | @min argument a xs d arguments least =>
    obtain ⟨h, rfl, hIs⟩ := exists_of_forall₂_single are
    exact .pure ⟨.refl _, (List.forall₂_cons.mp shapes).1, d, hIs, xs, arguments.values, least⟩

/-- The row of a group has for every aggregate the value that it has for the rows of the group. -/
def Describes (reported : Bool) (aggregates : List Aggregate) (rows : List ValueRow) (items : ValueRow) : Prop :=
  List.Forall₂ (fun aggregate item => item.1 = aggregate.result ∧ aggregate.Yields reported rows item.2) aggregates items

theorem attains_outputRow {front : HeldRow} {items : ValueRow} (typed : ∀ aggregate ∈ aggregates, aggregate.Typed types)
    (folded : Folded reported rows aggregates state) (some : rows ≠ []) (are : Held.All s hs state)
    (shapes : Held.Shaped hs (stateTypes aggregates)) (frontIs : HeldRow.Is s front items)
    (frontTyped : HeldRow.Typed types front) :
    host.Attains (outputRow aggregates hs front) s fun held s' => ∃ more, s.machine.Quiet s'.machine ∧
      Describes reported aggregates rows more ∧ HeldRow.Is s' held (more.reverse ++ items) ∧ HeldRow.Typed types held := by
  induction folded generalizing s hs front items with
  | nil =>
    cases are
    exact .pure ⟨[], .refl _, .nil, frontIs, frontTyped⟩
  | @cons aggregate aggregates fields state here rest ih =>
    have typedHere := typed aggregate mem_cons_self
    obtain ⟨_, _, rfl, firstAre, restAre, firstShapes, restShapes⟩ := here.split are shapes
    rw [outputRow_append firstShapes.length_eq]
    refine (attains_outputValue typedHere here some firstAre firstShapes).bind
      fun value s1 before1 ⟨quiet1, shape, d, valueIs, yields⟩ => ?_
    have frontTyped' : HeldRow.Typed types ((aggregate.result, value) :: front) :=
      forall_mem_cons.mpr ⟨shape.trans typedHere.result, frontTyped⟩
    have frontIs' : HeldRow.Is s1 ((aggregate.result, value) :: front) ((aggregate.result, d) :: items) :=
      .cons ⟨rfl, valueIs⟩ (frontIs.mono before1)
    refine (ih (fun other member => typed other (mem_cons_of_mem _ member)) (restAre.imp fun _ _ is => is.mono before1)
      restShapes frontIs' frontTyped').mono fun held s2 _ ⟨more, quiet2, each, _, heldTyped⟩ => ?_
    refine ⟨(aggregate.result, d) :: more, quiet1.trans quiet2, .cons ⟨rfl, yields⟩ each, ?_, heldTyped⟩
    rwa [reverse_cons, append_assoc, singleton_append]

end Aggregate

end

end QueryEngine
