import QueryEngine.Proofs.Expression.Operations

set_option synthInstance.maxSize 512

namespace QueryEngine

variable {s : Point} {p q : Bool} {flags : List Reg} {bits : List Bool} {t : Option Bool}

/-- A condition is a bool or NULL. -/
abbrev ValueType.IsCondition (ty : ValueType) : Prop := ty.shape = .bool ∨ ty.shape = .unknown

theorem ValueType.IsCondition.of_shape {ty' : ValueType} (condition : IsCondition ty)
    (same : ty'.shape = ty.shape) : ty'.IsCondition := by
  rwa [IsCondition, same]

theorem Present.eq_bool (v : Present) (shape : v.ty.IsCondition) : ∃ r, v = .bool r := by
  cases v with
  | bool r => exact ⟨r, rfl⟩
  | _ => rcases shape with shape | shape <;> cases shape

theorem Point.Bit.choose {r r' : Reg} (cond : Bool) (first : s.Bit r p) (second : s.Bit r' q) :
    s.Bit (if cond then r else r') (if cond then p else q) := by
  cases cond with
  | true => exact first
  | false => exact second

/-- The run computes the value that the evaluation gives, and reports the same. -/
abbrev Host.Evaluates (host : Host) (code : Emit Held) (s : Point) (eval : Evaluation Datum) : Prop :=
  host.Attains code s fun h s' => ∃ d, eval.Reaches s.machine d s'.machine ∧ h.Is s' d

namespace Held

open Host.Attains Present Datum Word Predicate

variable {host : Host} {a b : Held}

theorem attains_null (ty : ValueType) : host.Yields (null ty) s fun h s' => h.Is s' .null := by
  unfold null
  split
  · exact .pure ⟨rfl, .unknown⟩
  · refine (attains_zero ty).andThen fun v s1 before1 ⟨spare, _⟩ => ?_
    refine (constBool true).andThen fun flag s2 before2 set => ?_
    exact .pure ⟨rfl, .null set (spare.mono before2)⟩

theorem Is.withNullability (is : a.Is s x) (ty : ValueType) : host.Yields (a.withNullability ty) s fun h s' =>
    h.Is s' x := by
  cases is with
  | unknown => exact attains_null ty.asNullable
  | present is =>
    rw [withNullability]
    split
    · exact (constBool false).andThen fun flag s1 before1 unset => .pure ⟨rfl, .value unset (is.mono before1)⟩
    · exact .pure ⟨rfl, .present is⟩
  | null set spare =>
    rw [withNullability]
    split
    · exact .pure ⟨rfl, .null set spare⟩
    · exact .throw
  | value unset is =>
    rw [withNullability]
    split
    · exact .pure ⟨rfl, .value unset is⟩
    · exact .throw

theorem evaluates_null (ty : ValueType) : host.Evaluates (null ty) s (pure .null) :=
  (attains_null ty).mono fun _ _ _ ⟨machine, is⟩ => ⟨.null, .pure _ machine, is⟩

theorem attains_constant (d : Datum) (ty : ValueType) :
    host.Evaluates (constant d ty) s (Scalar.literal d ty |>.evaluate []) := by
  unfold constant Scalar.evaluate
  split
  · exact evaluates_null ty
  · refine (Present.attains_constant d ty).bind fun v s1 before1 ⟨machine1, d', coerced, is, _⟩ => ?_
    refine (Is.withNullability (.present is) ty).mono fun h s2 _ ⟨machine2, is'⟩ => ⟨d', ?_, is'⟩
    exact .ofOption (by rw [coerced]; rfl) (machine2.trans machine1)

/-- The flag that is set where one of the flags is. -/
theorem attains_any {first : Reg} (head : s.Bit first p) (rest : List.Forall₂ s.Bit flags bits) :
    host.Yields (flags.foldlM (fun any flag => Emit.binary .or any flag) first) s fun any s' =>
      s'.Bit any ((p :: bits).any id) := by
  induction flags generalizing s first p bits with
  | nil =>
    cases rest
    exact .pure ⟨rfl, by simpa using head⟩
  | cons flag flags ih =>
    obtain ⟨q, bits, bit, others, rfl⟩ := List.forall₂_cons_left_iff.mp rest
    refine (bitOr head bit).andThen fun any s1 before1 anyIs => ?_
    have others' : List.Forall₂ s1.Bit flags bits := others.imp fun _ _ bit => bit.mono before1
    refine (ih anyIs others').weaken fun r s2 _ result => ?_
    simpa [Bool.or_assoc] using result

variable {ty : ValueType}

/-- An operation that runs only where no flag is set. -/
theorem attains_guarded {code : Emit Present} [Emit.Growing code]
    (eval : Evaluation Datum) (flagged : List.Forall₂ s.Bit flags bits)
    (run : bits.any id = false → ∀ s', s.Before s' → s'.machine = s.machine →
      host.Attains code s' fun v s'' => ∃ d, eval.Reaches s.machine d s''.machine ∧ v.Is s'' d ∧ v.ty.shape = ty.shape) :
    host.Evaluates (guarded flags ty code) s (if bits.any id then pure .null else eval) := by
  cases flagged with
  | nil =>
    exact (run rfl s (.refl s) rfl).bind fun v s1 _ ⟨d, reaches, is, _⟩ => .pure ⟨d, reaches, .present is⟩
  | @cons first p rest bits head tail =>
    refine (attains_any head tail).bind fun any s1 before1 ⟨machine1, anyIs⟩ => ?_
    generalize (p :: bits).any id = isNull at run anyIs ⊢
    have merges : host.Attains (Emit.ifThenElse any (do return (← zero ty).regs) (do return (← code).regs)) s1
        fun regs s' => ∃ cells, s'.ReadsAll regs cells ∧
          if isNull then s'.machine = s.machine ∧ ty.shape.Spare s'.machine cells
          else ∃ d, eval.Reaches s.machine d s'.machine ∧ d.Cells s'.machine ty.shape cells := by
      refine ifThenElse (fun cells m => if isNull then m = s.machine ∧ ty.shape.Spare m cells
        else ∃ d, eval.Reaches s.machine d m ∧ d.Cells m ty.shape cells) anyIs ?_ ?_
      · intro set s2 before2 machine2
        refine (attains_zero ty).bind fun v s3 _ ⟨machine3, ⟨cells, reads, spare⟩, shape⟩ => ?_
        refine .pure ⟨cells, reads, ?_⟩
        rw [if_pos set, machine3, machine2, machine1]
        exact ⟨rfl, by simpa [shape, machine3, machine2, machine1] using spare⟩
      · intro unset s2 before2 machine2
        refine (run unset s2 (before1.trans before2) (machine2.trans machine1)).bind
          fun v s3 _ ⟨d, reaches, ⟨cells, reads, holds⟩, shape⟩ => .pure ⟨cells, reads, ?_⟩
        rw [unset, if_neg Bool.false_ne_true]
        exact ⟨d, reaches, shape ▸ holds⟩
    refine merges.bind fun merged s2 before2 ⟨cells, reads, result⟩ => ?_
    refine (attains_ofRegs ty merged).bind fun v s3 before3 ⟨point, same, shape⟩ => ?_
    rw [point]
    cases isNull with
    | true =>
      obtain ⟨machine, spare⟩ := result
      exact .pure ⟨.null, .pure _ machine, .null (anyIs.mono before2) ⟨cells, same ▸ reads, shape ▸ spare⟩⟩
    | false =>
      obtain ⟨d, reaches, holds⟩ := result
      exact .pure ⟨d, reaches, .value (anyIs.mono before2) ⟨cells, same ▸ reads, shape ▸ holds⟩⟩

theorem Is.lift (is : a.Is s x) (grows : ∀ v, Emit.Growing (code v))
    (run : ∀ v, a.value? = some v → ∀ s', v.Is s' x → host.Attains (code v) s'
      fun v' s'' => ∃ d, (operation x).Reaches s'.machine d s''.machine ∧ v'.Is s'' d ∧ v'.ty.shape = ty.shape) :
    host.Evaluates (Held.lift ty code a) s (x.unlessNull operation) := by
  unfold Held.lift
  split
  next v found =>
    obtain ⟨_, flagged, any⟩ := is.flags found
    rw [unlessNull, ← any]
    refine attains_guarded (operation x) flagged fun none s' before machine => ?_
    have present := (is.of_not_null found (any ▸ none)).mono before
    exact machine ▸ run v found s' present
  next missing =>
    rw [is.eq_null missing]
    exact evaluates_null ty.asNotNull

theorem Is.lift₂ [∀ v w, Emit.Growing (code v w)] (left : a.Is s x) (right : b.Is s y)
    (run : ∀ v w s', v.Is s' x → w.Is s' y → host.Attains (code v w) s'
      fun v' s'' => ∃ d, (operation x y).Reaches s'.machine d s''.machine ∧ v'.Is s'' d ∧ v'.ty.shape = ty.shape) :
    host.Evaluates (Held.lift₂ ty code a b) s (x.unlessNull₂ y operation) := by
  have nothing (null : x.isNull || y.isNull) :
      host.Evaluates (Held.null ty.asNotNull) s (x.unlessNull₂ y operation) := by
    rw [unlessNull₂, if_pos null]
    exact evaluates_null ty.asNotNull
  unfold Held.lift₂
  split
  next v w foundLeft foundRight =>
    obtain ⟨bits1, flagged1, any1⟩ := left.flags foundLeft
    obtain ⟨bits2, flagged2, any2⟩ := right.flags foundRight
    have any : (bits1 ++ bits2).any id = (x.isNull || y.isNull) := by rw [List.any_append, any1, any2]
    have flagged := List.rel_append flagged1 flagged2
    rw [unlessNull₂, ← any]
    refine attains_guarded (operation x y) flagged fun none s' before machine => ?_
    rw [any, Bool.or_eq_false_iff] at none
    have present1 := (left.of_not_null foundLeft none.1).mono before
    have present2 := (right.of_not_null foundRight none.2).mono before
    exact machine ▸ run v w s' present1 present2
  next missing =>
    refine nothing ?_
    cases first : a.value? with
    | none => simp [left.eq_null first, Datum.isNull]
    | some v => cases second : b.value? with
      | none => simp [right.eq_null second, Datum.isNull]
      | some w => exact absurd second (missing v w first)

theorem Is.arithmetic (op : ArithOp) (ty : ValueType) (left : a.Is s x) (right : b.Is s y) :
    host.Evaluates (Held.arithmetic op ty a b) s (x.unlessNull₂ y (Datum.arithmetic op ty.shape)) :=
  left.lift₂ right fun _ _ _ first second => first.arithmetic op ty.asNotNull second

theorem Is.compare (mode : Comparison) (left : a.Is s x) (right : b.Is s y) :
    host.Evaluates (Held.compare mode a b) s (x.unlessNull₂ y (Datum.compare mode)) := by
  have checks : host.Attains (checkComparable a b) s fun _ s' => s' = s := by
    unfold checkComparable
    split
    · exact .pure rfl
    · exact .throw
  refine checks.bind fun _ s1 _ point => ?_
  rw [point]
  refine left.lift₂ right fun v w s' first second => ?_
  refine (first.compare mode second).bind ?_
  rintro bit s1 before1 ⟨_, reaches, bitIs⟩
  refine (widenBit bitIs).bind ?_
  rintro r s2 before2 ⟨machine2, byte⟩
  exact .pure ⟨_, .bind reaches (.pure _ machine2), is_bool_of_reads byte, rfl⟩

theorem Is.cast (ty : ValueType) (is : a.Is s x) :
    host.Evaluates (Held.cast ty a) s (x.unlessNull (castTo ty.shape)) := by
  unfold Held.cast
  split
  · cases is
    exact evaluates_null ty
  · refine (is.lift inferInstance fun v _ s' present => present.cast ty.asNotNull).bind fun h s1 _ ⟨d, reaches, is'⟩ => ?_
    split
    · exact (is'.withNullability ty).mono fun h' s2 _ ⟨machine, is''⟩ => ⟨d, machine ▸ reaches, is''⟩
    · exact .pure ⟨d, reaches, is'⟩

theorem attains_expectBool (operation : String) : host.Attains (a.expectBool operation) s fun _ s' =>
    s' = s ∧ a.ty.IsCondition := by
  unfold expectBool
  split
  next shape => exact .pure ⟨rfl, .inl shape⟩
  next shape => exact .pure ⟨rfl, .inr shape⟩
  · exact .throw

theorem Is.not (is : a.Is s x) : host.Evaluates a.not s (x.unlessNull negate) := by
  refine .seq (fun _ => obeys_lift fun _ => by split <;> infer_instance) (attains_expectBool "not") ?_
  rintro _ s1 _ ⟨point, _⟩
  rw [point]
  refine is.lift (fun _ => by split <;> infer_instance) fun v _ s' present => ?_
  split
  · obtain ⟨value, rfl, number⟩ := is_bool.mp present
    refine (constNumber rfl).bind ?_
    rintro one s1 before1 ⟨machine1, oneIs⟩
    refine (binary .xor (number.mono before1).reads oneIs.reads).bind ?_
    rintro r s2 _ ⟨machine2, result⟩
    have flipped : CodeType.i8.normalize (BinaryOp.xor.apply .i8 (ofInt (if value then 1 else 0)) (ofInt 1)) =
        ofBool !value := by cases value <;> decide
    rw [flipped] at result
    exact .pure ⟨_, .pure _ (machine2.trans machine1), is_bool_of_reads result, rfl⟩
  · exact .throw

/-- Whether a byte is set, as a bit. -/
theorem attains_isSet (byte : s.Reads r .i8 w) (isNull : Reg) : host.Yields (do
      let zero ← Emit.const .i8 0
      return (← Emit.compare .ne r zero, isNull) : Emit (Reg × Reg)) s fun regs s' =>
        regs.2 = isNull ∧ s'.Bit regs.1 (ne.apply .i8 w 0) := by
  refine (constNumber rfl).andThen fun zero s1 before1 zeroIs => ?_
  refine (Host.Attains.compare .ne (byte.mono before1) zeroIs.reads).andThen fun bit s2 before2 bitIs => ?_
  exact .pure ⟨rfl, rfl, bitIs⟩

/-- Whether the value is set does not matter where it is NULL. -/
theorem Is.truth (is : a.Is s x) (shape : a.ty.IsCondition) :
    host.Yields a.truth s fun regs s' => ∃ t set, x.truth? = some t ∧ s'.Bit regs.1 set ∧
      s'.Bit regs.2 t.isNone ∧ ∀ value, t = some value → set = value := by
  have isSet (value : Bool) : ne.apply .i8 (ofInt (if value then 1 else 0)) 0 = value := by
    cases value <;> decide
  cases is with
  | unknown =>
    refine .seqThen (fun _ => by split <;> infer_instance) (constBool true) fun flag s1 before1 set => ?_
    refine (constBool false).andThen fun bit s2 before2 unset => .pure ⟨rfl, ?_⟩
    exact ⟨none, false, rfl, unset, set.mono before2, fun _ given => by cases given⟩
  | present is =>
    obtain ⟨r, rfl⟩ := eq_bool _ shape
    obtain ⟨value, rfl, number⟩ := is_bool.mp is
    refine .seqThen (fun _ => by split <;> infer_instance) (constBool false) fun flag s1 before1 unset => ?_
    refine (attains_isSet (number.mono before1).reads flag).weaken ?_
    rintro regs s2 before2 ⟨same, bit⟩
    refine ⟨some value, _, rfl, bit, same ▸ unset.mono before2, fun _ eq => ?_⟩
    rw [isSet, Option.some.inj eq]
  | @null v flag set spare =>
    obtain ⟨r, rfl⟩ := v.eq_bool shape
    obtain ⟨_, reads, kind⟩ := spare
    cases kind with
    | bool w =>
      refine (attains_isSet (Point.reads_one reads) flag).weaken ?_
      rintro regs s1 before1 ⟨same, bit⟩
      exact ⟨none, _, rfl, bit, same ▸ set.mono before1, fun _ given => by cases given⟩
  | @value v flag _ unset is =>
    obtain ⟨r, rfl⟩ := v.eq_bool shape
    obtain ⟨value, rfl, number⟩ := is_bool.mp is
    refine (attains_isSet number.reads flag).weaken ?_
    rintro regs s1 before1 ⟨same, bit⟩
    refine ⟨some value, _, rfl, bit, same ▸ unset.mono before1, fun _ eq => ?_⟩
    rw [isSet, Option.some.inj eq]

/-- A bool with its flag holds a truth value. -/
theorem is_ofTruth {r flag : Reg} {set isNull : Bool} (byte : s.Reads r .i8 (ofBool set))
    (bit : s.Bit flag isNull) (same : t = if isNull then none else some set) :
    (nullable (.bool r) flag).Is s (ofTruth t) := by
  subst same
  cases isNull with
  | true => exact .null bit (is_bool_of_reads byte).spare
  | false => exact .value bit (is_bool_of_reads byte)

/-- The bits of the code for AND and OR give the truth value. -/
theorem connective_truth (isAnd : Bool) (left : ∀ value, t = some value → p = value)
    (right : ∀ value, u = some value → q = value) :
    let decided := (!t.isNone && (if isAnd then !p else p)) || (!u.isNone && (if isAnd then !q else q))
    (if isAnd then conjunction else disjunction) t u =
      if !decided && (t.isNone || u.isNone) then none else some (if isAnd then !decided else decided) := by
  cases t with
  | none => cases u with
    | none => cases isAnd <;> rfl
    | some value => rw [right value rfl]; cases isAnd <;> cases value <;> rfl
  | some value =>
    rw [left value rfl]
    cases u with
    | none => cases isAnd <;> cases value <;> rfl
    | some value' => rw [right value' rfl]; cases isAnd <;> cases value <;> cases value' <;> rfl

theorem attains_decides (isAnd : Bool) (bit : s.Bit r p) :
    host.Yields (decides isAnd r) s fun r' s' => s'.Bit r' (if isAnd then !p else p) := by
  cases isAnd with
  | true => exact bitNot bit
  | false => exact .pure ⟨rfl, bit⟩

theorem attains_connect (isAnd : Bool) {aNull bNull aDecides bDecides : Reg} {u : Option Bool}
    (aFlag : s.Bit aNull t.isNone) (bFlag : s.Bit bNull u.isNone) (aBit : s.Bit aDecides (if isAnd then !p else p))
    (bBit : s.Bit bDecides (if isAnd then !q else q)) (left : ∀ value, t = some value → p = value)
    (right : ∀ value, u = some value → q = value) :
    host.Yields (connect isAnd aNull bNull aDecides bDecides) s fun h s' =>
      h.Is s' (ofTruth ((if isAnd then conjunction else disjunction) t u)) := by
  refine .seqThen (fun _ => .after fun _ => .after fun _ => inferInstance) (bitNot aFlag)
    fun aPresent s1 before1 aPresentIs => ?_
  refine (bitNot (bFlag.mono before1)).andThen fun bPresent s2 before2 bPresentIs => ?_
  have before := before1.trans before2
  refine (bitAnd (aPresentIs.mono before2) (aBit.mono before)).andThen fun aAlone s3 before3 aAloneIs => ?_
  refine (bitAnd (bPresentIs.mono before3) ((bBit.mono before).mono before3)).andThen fun bAlone s4 before4 bAloneIs => ?_
  refine (bitOr (aAloneIs.mono before4) bAloneIs).andThen fun decided s5 before5 decidedIs => ?_
  have before := before.trans (before3.trans (before4.trans before5))
  refine (bitOr (aFlag.mono before) (bFlag.mono before)).andThen fun anyNull s6 before6 anyNullIs => ?_
  refine (bitNot (decidedIs.mono before6)).andThen fun undecided s7 before7 undecidedIs => ?_
  refine (bitAnd undecidedIs (anyNullIs.mono before7)).andThen fun isNull s8 before8 isNullIs => ?_
  have later := before6.trans (before7.trans before8)
  have chosen := Point.Bit.choose isAnd (undecidedIs.mono before8) (decidedIs.mono later)
  refine (widenBit chosen).andThen fun byte s9 before9 byteIs => ?_
  exact .pure ⟨rfl, is_ofTruth byteIs (isNullIs.mono before9) (connective_truth isAnd left right)⟩

theorem Is.connectiveNullable (isAnd : Bool) (left : a.Is s x) (right : b.Is s y)
    (leftShape : a.ty.IsCondition) (rightShape : b.ty.IsCondition) :
    host.Evaluates (Held.connectiveNullable isAnd a b) s
      (x.connect (if isAnd then Datum.conjunction else Datum.disjunction) y) := by
  have code : host.Yields (Held.connectiveNullable isAnd a b) s fun h s' => ∃ t u, x.truth? = some t ∧ y.truth? = some u ∧
      h.Is s' (Datum.ofTruth ((if isAnd then Datum.conjunction else Datum.disjunction) t u)) := by
    rw [connectiveNullable_eq]
    refine (left.truth leftShape).andThen fun a' s1 before1 ⟨t, p, found1, aIs, aFlag, aEq⟩ => ?_
    refine ((right.mono before1).truth rightShape).andThen fun b' s2 before2 ⟨u, q, found2, bIs, bFlag, bEq⟩ => ?_
    refine (attains_decides isAnd (aIs.mono before2)).andThen fun aDecides s3 before3 aBit => ?_
    refine (attains_decides isAnd (bIs.mono before3)).andThen fun bDecides s4 before4 bBit => ?_
    have later := before3.trans before4
    exact (attains_connect isAnd (aFlag.mono (before2.trans later)) (bFlag.mono later) (aBit.mono before4) bBit aEq bEq).weaken
      fun h s5 _ is => ⟨t, u, found1, found2, is⟩
  exact code.mono fun h s' _ ⟨machine, t, u, found1, found2, is⟩ =>
    ⟨_, .bind (.ofOption found1 rfl) (.bind (.ofOption found2 rfl) (.pure _ machine)), is⟩

theorem Is.connective (isAnd : Bool) (left : a.Is s x) (right : b.Is s y) : host.Evaluates (Held.connective isAnd a b) s
      (x.connect (if isAnd then conjunction else disjunction) y) := by
  refine .seq (fun _ => .after fun _ => by split <;> infer_instance) (attains_expectBool _) ?_
  rintro _ s1 _ ⟨point1, leftShape⟩
  rw [point1]
  refine .seq (fun _ => by split <;> infer_instance) (attains_expectBool _) ?_
  rintro _ s2 _ ⟨point2, rightShape⟩
  rw [point2]
  split
  · cases left with
    | present left => cases right with
      | present right =>
        obtain ⟨p, rfl, leftIs⟩ := is_bool.mp left
        obtain ⟨q, rfl, rightIs⟩ := is_bool.mp right
        refine (binary _ leftIs.reads rightIs.reads).bind ?_
        rintro r s3 _ ⟨machine3, result⟩
        have byte : s3.Reads r .i8 (ofBool (if isAnd then p && q else p || q)) := by
          convert result using 1
          cases isAnd <;> cases p <;> cases q <;> decide
        refine .pure ⟨_, ?_, .present (is_bool_of_reads byte)⟩
        refine .bind (.ofOption rfl rfl) (.bind (.ofOption rfl rfl) ?_)
        have same : ofTruth ((if isAnd then conjunction else disjunction) (some p) (some q)) =
            .bool (if isAnd then p && q else p || q) := by cases isAnd <;> cases p <;> cases q <;> rfl
        rw [same]
        exact .pure _ machine3
  · exact left.connectiveNullable isAnd right leftShape rightShape

/-- A condition that is NULL is not true. -/
theorem Is.isTrue (is : a.Is s x) : host.Yields a.isTrue s fun r s' => s'.Bit r (decide (x = .bool true)) := by
  have isSet (value : Bool) : ne.apply .i8 (ofInt (if value then 1 else 0)) (ofInt 0) =
      decide (bool value = .bool true) := by
    cases value <;> decide
  refine .seq (fun _ => by split <;> infer_instance) (attains_expectBool "a condition") fun _ s0 _ ⟨point, shape⟩ => ?_
  subst point
  refine .seqThen (fun _ => by split <;> infer_instance) (constNumber rfl) fun zero s1 before1 zeroIs => ?_
  -- A flag that is not set leaves the bit of the byte as it is.
  have flagged {r flag : Reg} {w : Word} {p : Bool} (byte : s0.Reads r .i8 w) (bit : s0.Bit flag p) :
      host.Yields (do
        let set ← Emit.compare .ne r zero
        let present ← Emit.not flag
        Emit.binary .and present set) s1 fun r s' => s'.Bit r (!p && ne.apply .i8 w (ofInt 0)) := by
    refine (Host.Attains.compare .ne (byte.mono before1) zeroIs.reads).andThen fun set s2 before2 setIs => ?_
    refine (bitNot ((bit.mono before1).mono before2)).andThen fun present s3 before3 presentIs => ?_
    exact bitAnd presentIs (setIs.mono before3)
  cases is with
  | unknown => exact constBool false
  | present is =>
    obtain ⟨r, rfl⟩ := eq_bool _ shape
    obtain ⟨value, rfl, number⟩ := is_bool.mp is
    rw [← isSet]
    exact Host.Attains.compare .ne (number.mono before1).reads zeroIs.reads
  | @null v flag set spare =>
    obtain ⟨r, rfl⟩ := v.eq_bool shape
    obtain ⟨_, reads, kind⟩ := spare
    cases kind with
    | bool w => exact flagged (Point.reads_one reads) set
  | @value v flag _ unset is =>
    obtain ⟨r, rfl⟩ := v.eq_bool shape
    obtain ⟨value, rfl, number⟩ := is_bool.mp is
    rw [← isSet]
    exact flagged number.reads unset

end Held

end QueryEngine
