import QueryEngine.Proofs.Expression.Registers

set_option synthInstance.maxSize 512

namespace QueryEngine

open CodeType Predicate Word

variable {s : Point} {host : Host}

theorem Word.toNat_ofInt_natCast {n : Nat} (small : n < 2 ^ 63) : (ofInt (n : Int)).toNat = n := by
  exact UInt64.toNat_ofNat_of_lt (Nat.lt_trans small (by decide))

theorem Comparison.predicate_isSigned (mode : Comparison) : mode.predicate.isSigned = true := by
  cases mode <;> rfl

theorem Comparison.predicate_holds (mode : Comparison) (a b : Int) :
    mode.predicate.holds a b = mode.holds (Ord.compare a b) := by
  rw [Int.compare_eq_ite_lt]
  rcases Int.lt_trichotomy a b with less | same | greater
  · cases mode <;> simp [predicate, Predicate.holds, holds, less] <;> omega
  · cases mode <;> simp [predicate, Predicate.holds, holds, same]
  · have notLess : ¬a < b := by omega
    cases mode <;> simp [predicate, Predicate.holds, holds, greater, notLess] <;> omega

namespace Action

theorem bytesOrder_eq (first second : Bytes) : bytesOrder first second = compareOfLessAndEq first second := by
  fun_induction bytesOrder first second with
  | case1 => rfl
  | case2 b second => simp [compareOfLessAndEq]
  | case3 a first => simp [compareOfLessAndEq]
  | case4 a first b second less => simp [compareOfLessAndEq, List.cons_lt_cons_iff, less]
  | case5 a first b second notLess greater =>
    have different : a ≠ b := fun same => UInt8.lt_irrefl b (same ▸ greater)
    simp [compareOfLessAndEq, List.cons_lt_cons_iff, notLess, different]
  | case6 a first b second notLess notGreater ih =>
    have same : a = b := UInt8.le_antisymm (UInt8.not_lt.mp notGreater) (UInt8.not_lt.mp notLess)
    rw [ih, same]
    simp [compareOfLessAndEq]

/-- The common length is compared first. -/
theorem bytesOrder_take (first second : Bytes) : bytesOrder first second =
      (bytesOrder (first.take (min first.length second.length)) (second.take (min first.length second.length))).then
        (compare first.length second.length) := by
  fun_induction bytesOrder first second with
  | case1 => rfl
  | case2 b second => simp [bytesOrder, Nat.compare_eq_ite_lt]
  | case3 a first => simp [bytesOrder, Nat.compare_eq_ite_lt]
  | case4 a first b second less => simp [bytesOrder, Nat.succ_min_succ, less]
  | case5 a first b second notLess greater => simp [bytesOrder, Nat.succ_min_succ, notLess, greater]
  | case6 a first b second notLess notGreater ih =>
    have lengths : Ord.compare (first.length + 1) (second.length + 1) = Ord.compare first.length second.length := by
      simp [Nat.compare_eq_ite_lt]
    simp only [List.length_cons, Nat.succ_min_succ, List.take_succ_cons, bytesOrder, notLess, notGreater, if_false,
      lengths]
    exact ih

end Action

theorem Machine.readBytes_take (m : Machine) (a : Word) (fewer : few ≤ count) :
    (m.readBytes a count).take few = m.readBytes a few := by
  rw [readBytes, readBytes, ← List.map_take, List.take_range, Nat.min_eq_left fewer]

/-- Address and length of bytes, wherever they lie now. -/
structure Point.Shows (s : Point) (address len : Reg) (bytes : Bytes) : Prop where
  placed : ∃ a, s.Reads address .ptr a ∧ s.machine.readBytes a bytes.length = bytes
  length : s.Number len .i64 bytes.length

namespace Point

variable {s' : Point} {address len : Reg} {bytes : Bytes}

theorem Text.shows (text : s.Text address len bytes) : s.Shows address len bytes := by
  obtain ⟨a, ptr, lies⟩ := text.placed
  exact ⟨⟨a, ptr, lies.readBytes⟩, text.length⟩

theorem Shows.mono (shown : s.Shows address len bytes) (before : s.Before s') (machine : s'.machine = s.machine) :
    s'.Shows address len bytes := by
  obtain ⟨a, ptr, read⟩ := shown.placed
  exact ⟨⟨a, ptr.mono before, machine ▸ read⟩, shown.length.mono before⟩

theorem Shows.small (shown : s.Shows address len bytes) : bytes.length < 2 ^ 63 := by
  have fits := shown.length.fits
  simp only [CodeType.fits, Bool.and_eq_true, decide_eq_true_eq] at fits
  omega

end Point

theorem Action.compareBytes_run (m : Machine) (a b c : Word) :
    ∃ k : Int, Routine.run .compareBytes [a, b, c] m = .ok (ofInt k) m ∧
      Ord.compare k 0 = bytesOrder (m.readBytes a c.toNat) (m.readBytes b c.toNat) ∧ i32.fits k = true := by
  have run : Routine.run .compareBytes [a, b, c] m = (do
      let first ← pure a
      let second ← pure b
      let count ← pure c
      let m ← get
      _ : Action Word) m := rfl
  rw [run, pure_bind, pure_bind, pure_bind, get_bind]
  cases bytesOrder (m.readBytes a c.toNat) (m.readBytes b c.toNat) with
  | lt => exact ⟨-1, rfl, rfl, rfl⟩
  | eq => exact ⟨0, rfl, rfl, rfl⟩
  | gt => exact ⟨1, rfl, rfl, rfl⟩

theorem Int.compare_sub_zero (a b : Nat) : Ord.compare ((a : Int) - b) 0 = Ord.compare a b := by
  have less : (a : Int) - b < 0 ↔ a < b := by omega
  have greater : 0 < (a : Int) - b ↔ b < a := by omega
  simp only [Int.compare_eq_ite_lt, Nat.compare_eq_ite_lt, less, greater]

namespace Host.Attains

section

/-- The sign of the result is the order of the bytes. -/
theorem compareBytes {count : Reg} {n : Nat} (left : s.Shows address1 len1 first) (right : s.Shows address2 len2 second)
    (counts : s.Number count .i64 n) (boundFirst : n ≤ first.length) (boundSecond : n ≤ second.length) :
    host.Yields (Emit.callValue .compareBytes [address1, address2, count]) s fun r s' =>
      ∃ k, s'.Number r .i32 k ∧ Ord.compare k 0 = Action.bytesOrder (first.take n) (second.take n) := by
  have small := left.small
  obtain ⟨⟨a, ptr1, read1⟩, _⟩ := left
  obtain ⟨⟨b, ptr2, read2⟩, _⟩ := right
  have readsAll : s.ReadsAll [address1, address2, count] [(.ptr, a), (.ptr, b), (.i64, ofInt n)] :=
    .cons ptr1 (.cons ptr2 (.cons counts.reads .nil))
  have toNat := toNat_ofInt_natCast (Nat.lt_of_le_of_lt boundFirst small)
  have gives := Action.compareBytes_run s.machine a b (ofInt n)
  rw [toNat, ← Machine.readBytes_take _ a boundFirst, ← Machine.readBytes_take _ b boundSecond, read1, read2] at gives
  obtain ⟨k, run, order, fits⟩ := gives
  refine (callValue readsAll run rfl rfl (.refl _)).weaken fun r s' _ reads => ⟨k, ?_, order⟩
  rw [normalize_of_fits fits] at reads
  exact ⟨reads, fits⟩

theorem stringOrder (left : s.Shows address1 len1 first) (right : s.Shows address2 len2 second) :
    host.Yields (Emit.stringOrder address1 len1 address2 len2) s fun r s' =>
      ∃ k, s'.Number r .i64 k ∧ Ord.compare k 0 = compareOfLessAndEq first second := by
  have small1 := left.small
  have small2 := right.small
  refine (compare .ult left.length.reads right.length.reads).sameThen fun shorter s1 before1 machine1 shorterIs => ?_
  have isLess : ult.apply .i64 (ofInt first.length) (ofInt second.length) =
      decide (first.length < second.length) := by
    simp only [apply, zeroExtend, UInt64.lt_iff_toNat_lt, toNat_ofInt_natCast small1,
      toNat_ofInt_natCast small2]
  rw [isLess] at shorterIs
  refine (select shorterIs (left.length.mono before1).reads (right.length.mono before1).reads).sameThen
    fun count s2 before2 machine2 countIs => ?_
  have left2 := left.mono (before1.trans before2) (machine2.trans machine1)
  have right2 := right.mono (before1.trans before2) (machine2.trans machine1)
  have counts : s2.Number count .i64 (min first.length second.length : Nat) := by
    by_cases less : first.length < second.length
    · rw [Nat.min_eq_left (Nat.le_of_lt less)]
      exact ⟨by simpa [less] using countIs, left.length.fits⟩
    · rw [Nat.min_eq_right (Nat.not_lt.mp less)]
      exact ⟨by simpa [less] using countIs, right.length.fits⟩
  refine (compareBytes left2 right2 counts (Nat.min_le_left _ _) (Nat.min_le_right _ _)).andThen ?_
  rintro order s3 before3 ⟨k, orderIs, sign⟩
  refine (widen orderIs).andThen fun wide s4 before4 wideIs => ?_
  refine (constNumber rfl).andThen fun zero s5 before5 zeroIs => ?_
  refine (compareNumbers rfl (wideIs.mono before5) zeroIs).andThen fun same s6 before6 sameIs => ?_
  have later := before3.trans (before4.trans (before5.trans before6))
  refine (binary .sub (left2.length.mono later).reads (right2.length.mono later).reads).andThen
    fun difference s7 before7 differenceIs => ?_
  have fits : i64.fits ((first.length : Int) - second.length) = true := by
    simp only [fits, Bool.and_eq_true, decide_eq_true_eq]
    omega
  rw [BinaryOp.normalize_apply_exact .sub _ _ rfl, OverflowOp.exact, wrap_of_fits fits] at differenceIs
  refine (select (sameIs.mono before7) differenceIs (wideIs.mono (before5.trans (before6.trans before7))).reads).weaken
    fun r s8 _ result => ?_
  rw [← Action.bytesOrder_eq, Action.bytesOrder_take, ← sign]
  by_cases zero : k = 0
  · refine ⟨(first.length : Int) - second.length, ⟨by simpa [holds, zero] using result, fits⟩, ?_⟩
    rw [zero, Int.compare_sub_zero]
    rfl
  · refine ⟨k, ⟨by simpa [holds, zero] using result, wideIs.fits⟩, ?_⟩
    rcases Int.lt_or_gt_of_ne zero with less | greater
    · rw [Int.compare_eq_lt.mpr less]; rfl
    · rw [Int.compare_eq_gt.mpr greater]; rfl

/-- The comparison of strings of types that may be compared. -/
theorem compareStrings (mode : Comparison) (left : s.Shows address1 len1 first) (right : s.Shows address2 len2 second) :
    host.Yields (do
      let order ← Emit.stringOrder address1 len1 address2 len2
      let zero ← Emit.const .i64 0
      Emit.compare mode.predicate order zero) s fun bit s' =>
        s'.Bit bit (mode.holds (compareOfLessAndEq first second)) := by
  refine (stringOrder left right).andThen fun order s1 _ ⟨k, orderIs, sign⟩ => ?_
  refine (constNumber rfl).andThen fun zero s2 before2 zeroIs => ?_
  refine (compareNumbers mode.predicate_isSigned (orderIs.mono before2) zeroIs).weaken fun bit s3 _ bitIs => ?_
  rwa [mode.predicate_holds, sign] at bitIs

end

end Host.Attains

theorem CodeType.toInt_int32_of_fits (fits : i32.fits n = true) : (Int32.ofInt n).toInt = n := by
  simp only [CodeType.fits, Bool.and_eq_true, decide_eq_true_eq] at fits
  exact Int32.toInt_ofInt_of_le (by omega) (by omega)

theorem CodeType.toInt_int64_of_fits (fits : i64.fits n = true) : (Int64.ofInt n).toInt = n := by
  simp only [CodeType.fits, Bool.and_eq_true, decide_eq_true_eq] at fits
  exact Int64.toInt_ofInt_of_le (by omega) (by omega)

theorem CodeType.int32_ofInt_wrap (n : Int) : Int32.ofInt (i32.wrap n) = Int32.ofInt n := by
  rw [← Int32.toInt_inj, toInt_int32_of_fits (fits_wrap _ _), Int32.toInt_ofInt]
  rfl

theorem CodeType.int64_ofInt_wrap (n : Int) : Int64.ofInt (i64.wrap n) = Int64.ofInt n := by
  rw [← Int64.toInt_inj, toInt_int64_of_fits (fits_wrap _ _), Int64.toInt_ofInt]
  rfl

/-- Nothing is done where the value has the shape already. -/
theorem Datum.Cells.castTo_self (holds : d.Cells m shape cells) : d.castTo shape = (pure d : Evaluation Datum) := by
  cases holds with
  | numeric raw length precision =>
    have same : Evaluation.rescale raw.toInt precision precision = (pure raw.toInt : Evaluation Int) := if_pos rfl
    rw [castTo, same]
    simp [Evaluation.pure_bind]
  | _ => rfl

namespace Present

open Host.Attains CodeType

variable {a b : Present} {x : Datum}

theorem Is.text (is : a.Is s x) (found : a.string? = some (address, len)) :
    ∃ text, s.Text address len (textBytes text) ∧
      ((∃ n, a.ty.shape = .char n) ∧ x = .char text ∨ (∃ n, a.ty.shape = .varchar n) ∧ x = .varchar text) := by
  cases a with
  | char address' len' n =>
    cases found
    obtain ⟨text, same, lies⟩ := is_char.mp is
    exact ⟨text, lies, .inl ⟨⟨n, rfl⟩, same⟩⟩
  | varchar address' len' n =>
    cases found
    obtain ⟨text, same, lies⟩ := is_varchar.mp is
    exact ⟨text, lies, .inr ⟨⟨n, rfl⟩, same⟩⟩
  | _ => cases found

theorem Is.order_texts (left : a.Is s x) (right : b.Is s y) (comparable : a.ty.comparable b.ty = true)
    (first : a.string? = some (address1, len1)) (second : b.string? = some (address2, len2)) :
    ∃ xs ys, s.Text address1 len1 xs ∧ s.Text address2 len2 ys ∧
      x.order y = (pure (compareOfLessAndEq xs ys) : Evaluation Ordering) := by
  obtain ⟨_, lies1, kind1⟩ := left.text first
  obtain ⟨_, lies2, kind2⟩ := right.text second
  refine ⟨_, _, lies1, lies2, ?_⟩
  rcases kind1 with ⟨⟨n, shape1⟩, rfl⟩ | ⟨⟨n, shape1⟩, rfl⟩ <;> rcases kind2 with ⟨⟨k, shape2⟩, rfl⟩ | ⟨⟨k, shape2⟩, rfl⟩
  · rfl
  · simp [ValueType.comparable, ValueType.sameShape, shape1, shape2] at comparable
  · simp [ValueType.comparable, ValueType.sameShape, shape1, shape2] at comparable
  · rfl

theorem Is.compareNumbers {ty : CodeType} {r r' : Reg} {n k : Int} (mode : Comparison) (left : s.Number r ty n)
    (right : s.Number r' ty k) (same : x.order y = (pure (Ord.compare n k) : Evaluation Ordering)) :
    host.Attains (Emit.compare mode.predicate r r') s fun bit s' =>
      ∃ order, (x.order y).Reaches s.machine order s'.machine ∧ s'.Bit bit (mode.holds order) := by
  refine (Host.Attains.compareNumbers mode.predicate_isSigned left right).mono fun bit s' _ ⟨machine, bitIs⟩ => ?_
  rw [mode.predicate_holds] at bitIs
  exact ⟨_, same ▸ .pure _ machine, bitIs⟩

theorem Is.compare (mode : Comparison) (left : a.Is s x) (right : b.Is s y) :
    host.Attains (Present.compare mode a b) s fun bit s' =>
      ∃ order, (x.order y).Reaches s.machine order s'.machine ∧ s'.Bit bit (mode.holds order) := by
  unfold Present.compare
  split
  · obtain ⟨p, rfl, leftIs⟩ := is_bool.mp left
    obtain ⟨q, rfl, rightIs⟩ := is_bool.mp right
    exact compareNumbers mode leftIs rightIs (by cases p <;> cases q <;> rfl)
  · obtain ⟨n, rfl, leftIs⟩ := is_integer.mp left
    obtain ⟨k, rfl, rightIs⟩ := is_integer.mp right
    exact compareNumbers mode leftIs rightIs rfl
  · obtain ⟨n, rfl, leftIs⟩ := is_date.mp left
    obtain ⟨k, rfl, rightIs⟩ := is_date.mp right
    exact compareNumbers mode leftIs rightIs rfl
  · obtain ⟨n, rfl, leftIs⟩ := is_timestamp.mp left
    obtain ⟨k, rfl, rightIs⟩ := is_timestamp.mp right
    exact compareNumbers mode leftIs rightIs rfl
  next r _ p r' _ q =>
    obtain ⟨n, rfl, leftIs⟩ := is_numeric.mp left
    obtain ⟨k, rfl, rightIs⟩ := is_numeric.mp right
    refine (rescale p (max p q) leftIs).bind ?_
    rintro first s1 before1 ⟨_, reaches1, firstIs⟩
    refine (rescale q (max p q) (rightIs.mono before1)).bind ?_
    rintro second s2 before2 ⟨_, reaches2, secondIs⟩
    refine (Host.Attains.compareNumbers mode.predicate_isSigned (firstIs.mono before2) secondIs).mono ?_
    rintro bit s3 _ ⟨machine3, bitIs⟩
    rw [mode.predicate_holds] at bitIs
    exact ⟨_, .bind reaches1 (.bind reaches2 (.pure _ machine3)), bitIs⟩
  · split
    next address1 len1 address2 len2 first second =>
      split
      next comparable =>
        obtain ⟨_, _, lies1, lies2, same⟩ := left.order_texts right comparable first second
        refine (compareStrings mode lies1.shows lies2.shows).mono ?_
        rintro bit s' _ ⟨machine, bitIs⟩
        exact ⟨_, same ▸ .pure _ machine, bitIs⟩
      · exact .throw
    · exact .throw

section

theorem is_integer_ofInt (number : s.Number r .i32 n) : (integer r).Is s (.integer (Int32.ofInt n)) :=
  is_integer.mpr ⟨_, rfl, by rwa [toInt_int32_of_fits number.fits]⟩

theorem is_numeric_ofInt (number : s.Number r .i64 n) (length precision : UInt8) :
    (numeric r length precision).Is s (.numeric (Int64.ofInt n) precision) :=
  is_numeric.mpr ⟨_, rfl, by rwa [toInt_int64_of_fits number.fits]⟩

end

theorem Is.widen (is : a.Is s x) : host.Yields a.widen s fun found s' =>
    ∀ r length p, found = some (r, length, p) → ∃ n, x.number? = some (n, p) ∧ s'.Number r .i64 n := by
  unfold Present.widen
  split
  · obtain ⟨n, rfl, number⟩ := is_integer.mp is
    refine (Host.Attains.widen number).andThen fun wide s' _ wideIs => .pure ⟨rfl, fun r length p found => ?_⟩
    cases found
    exact ⟨n.toInt, rfl, wideIs⟩
  · obtain ⟨raw, rfl, number⟩ := is_numeric.mp is
    refine .pure ⟨rfl, fun r length p found => ?_⟩
    cases found
    exact ⟨raw.toInt, rfl, number⟩
  · exact .pure ⟨rfl, fun r length p found => by cases found⟩

theorem Is.arithmetic (op : ArithOp) (result : ValueType) (left : a.Is s x) (right : b.Is s y) :
    host.Attains (Present.arithmetic op result a b) s fun v s' => ∃ d,
      (x.arithmetic op result.shape y).Reaches s.machine d s'.machine ∧ v.Is s' d ∧ v.ty.shape = result.shape := by
  unfold Present.arithmetic
  split
  next shape =>
    split
    · obtain ⟨n, rfl, leftIs⟩ := is_integer.mp left
      obtain ⟨k, rfl, rightIs⟩ := is_integer.mp right
      refine (checked op leftIs rightIs).bind ?_
      rintro r s1 _ ⟨m, reaches, number⟩
      refine .pure ⟨_, ?_, is_integer_ofInt number, ?_⟩
      · rw [shape]
        exact .bind reaches (.pure _ rfl)
      · rw [shape]
        rfl
    · split
      · refine .seq (fun _ => .after fun _ => by split <;> infer_instance) left.widen
          fun first s1 before1 _ => ?_
        refine .seq (fun _ => by split <;> infer_instance) (right.mono before1).widen fun second s2 before2 _ => ?_
        split <;> exact .throw
      · exact .throw
  next length precision shape =>
    split
    · refine .seq (fun _ => .after fun _ => by split <;> infer_instance) left.widen ?_
      rintro first s1 before1 ⟨machine1, firstIs⟩
      refine .seq (fun _ => by split <;> infer_instance) (right.mono before1).widen ?_
      rintro second s2 before2 ⟨machine2, secondIs⟩
      split
      · obtain ⟨n, number1, leftIs⟩ := firstIs _ _ _ rfl
        obtain ⟨k, number2, rightIs⟩ := secondIs _ _ _ rfl
        refine (Host.Attains.numericArithmetic op precision _ _ (leftIs.mono before2) rightIs).bind ?_
        rintro raw s3 _ ⟨m, reaches, number⟩
        refine .pure ⟨_, ?_, is_numeric_ofInt number length precision, ?_⟩
        · rw [machine2, machine1] at reaches
          rw [shape]
          exact .bind (.ofOption number1 rfl) (.bind (.ofOption number2 rfl) (.bind reaches (.pure _ rfl)))
        · rw [shape]
          rfl
      · exact .throw
    · exact .throw
  · exact .throw

theorem Is.cast (target : ValueType) (is : a.Is s x) : host.Attains (Present.cast target a) s fun v s' => ∃ d,
      (x.castTo target.shape).Reaches s.machine d s'.machine ∧ v.Is s' d ∧ v.ty.shape = target.shape := by
  unfold Present.cast
  split
  next same =>
    have shape : a.ty.shape = target.shape := by simpa [ValueType.sameShape] using same
    obtain ⟨cells, reads, holds⟩ := is
    refine .pure ⟨x, ?_, ⟨cells, reads, holds⟩, shape⟩
    rw [← shape, holds.castTo_self]
    exact .pure x rfl
  · split
    next length precision shape _ =>
      obtain ⟨n, rfl, number⟩ := is_integer.mp is
      refine (Host.Attains.widen number).bind ?_
      rintro wide s1 before1 ⟨machine1, wideIs⟩
      refine (rescale 0 precision wideIs).bind ?_
      rintro raw s2 _ ⟨k, reaches, rawIs⟩
      refine .pure ⟨_, ?_, is_numeric_ofInt rawIs length precision, by rw [shape]; rfl⟩
      rw [machine1] at reaches
      rw [shape]
      exact .bind reaches (.pure _ rfl)
    next source length precision shape _ =>
      obtain ⟨n, rfl, number⟩ := is_numeric.mp is
      refine (rescale source precision number).bind ?_
      rintro raw s1 _ ⟨k, reaches, rawIs⟩
      refine .pure ⟨_, ?_, is_numeric_ofInt rawIs length precision, by rw [shape]; rfl⟩
      rw [shape]
      exact .bind reaches (.pure _ rfl)
    next precision shape _ =>
      obtain ⟨n, rfl, number⟩ := is_numeric.mp is
      refine (rescale precision 0 number).bind ?_
      rintro whole s1 before1 ⟨k, reaches, wholeIs⟩
      refine (resize wholeIs .i32).bind ?_
      rintro r s2 _ ⟨machine2, _, narrow⟩
      have narrowed := is_integer_ofInt (narrow (by decide))
      rw [int32_ofInt_wrap] at narrowed
      refine .pure ⟨_, ?_, narrowed, by rw [shape]; rfl⟩
      rw [shape]
      exact .bind reaches (.pure _ machine2)
    next shape _ =>
      obtain ⟨text, rfl, lies⟩ := is_char.mp is
      exact .pure ⟨_, by rw [shape]; exact .pure _ rfl, is_char.mpr ⟨text, rfl, lies⟩, by rw [shape]; rfl⟩
    next shape _ =>
      obtain ⟨text, rfl, lies⟩ := is_varchar.mp is
      exact .pure ⟨_, by rw [shape]; exact .pure _ rfl, is_char.mpr ⟨text, rfl, lies⟩, by rw [shape]; rfl⟩
    next shape _ =>
      obtain ⟨text, rfl, lies⟩ := is_char.mp is
      exact .pure ⟨_, by rw [shape]; exact .pure _ rfl, is_varchar.mpr ⟨text, rfl, lies⟩, by rw [shape]; rfl⟩
    next shape _ =>
      obtain ⟨text, rfl, lies⟩ := is_varchar.mp is
      exact .pure ⟨_, by rw [shape]; exact .pure _ rfl, is_varchar.mpr ⟨text, rfl, lies⟩, by rw [shape]; rfl⟩
    next shape _ =>
      obtain ⟨_, rfl, number⟩ := is_date.mp is
      refine (Host.Attains.widen number).bind ?_
      rintro wide s1 before1 ⟨machine1, wideIs⟩
      refine (constNumber rfl).bind ?_
      rintro seconds s2 before2 ⟨machine2, secondsIs⟩
      refine (checked .mul (wideIs.mono before2) secondsIs).bind ?_
      rintro r s3 _ ⟨k, reaches, number⟩
      refine .pure ⟨_, ?_, is_timestamp.mpr ⟨_, rfl, by rwa [toInt_int64_of_fits number.fits]⟩, by rw [shape]; rfl⟩
      rw [machine2, machine1] at reaches
      rw [shape]
      exact .bind reaches (.pure _ rfl)
    · exact .throw

theorem ofRegs?_eq {shape : Shape} {regs : List Reg} {v : Present} (found : ofRegs? shape regs = some v) :
    v.regs = regs ∧ v.ty.shape = shape := by
  unfold ofRegs? at found
  split at found <;> cases found <;> exact ⟨rfl, rfl⟩

theorem attains_ofRegs (ty : ValueType) (regs : List Reg) : host.Attains (ofRegs ty regs) s fun v s' =>
    s' = s ∧ v.regs = regs ∧ v.ty.shape = ty.shape := by
  unfold ofRegs
  split
  next v found => exact .pure ⟨rfl, ofRegs?_eq found⟩
  · exact .throw

theorem attains_zeros (parts : List (CodeType × Nat)) :
    host.Yields (parts.mapM fun part => Emit.const part.1 0) s fun regs s' =>
      s'.ReadsAll regs (parts.map fun part => (part.1, 0)) := by
  induction parts generalizing s with
  | nil => exact .pure ⟨rfl, .nil⟩
  | cons part parts ih =>
    rw [List.mapM_cons]
    have fits : part.1.fits 0 = true := fits_ofBool false
    refine (constNumber fits).andThen fun r s1 before1 zeroIs => ?_
    refine ih.andThen fun regs s2 before2 zerosAre => ?_
    exact .pure ⟨rfl, .cons (zeroIs.mono before2).reads zerosAre⟩

theorem spare_zeros (m : Machine) {ty : ValueType} {parts : List (CodeType × Nat)} (found : ty.parts? = some parts) :
    ty.shape.Spare m (parts.map fun part => (part.1, 0)) := by
  have empty : m.TextAt 0 [] := ⟨by decide, fun _ _ => rfl⟩
  unfold ValueType.parts? at found
  split at found <;> cases found <;> rename_i shape <;> rw [shape]
  · exact .bool 0
  · exact .integer 0
  · exact .date 0
  · exact .numeric 0 _ _
  · exact .timestamp 0
  · exact .char empty _
  · exact .varchar empty _

theorem attains_zero (ty : ValueType) : host.Yields (zero ty) s fun v s' => v.Spare s' ∧ v.ty.shape = ty.shape := by
  unfold zero build
  split
  · exact .throw
  next parts found =>
    refine (attains_zeros parts).andThen fun regs s1 before1 zeros => ?_
    refine (attains_ofRegs ty regs).mono ?_
    rintro v s2 _ ⟨point, same, shape⟩
    rw [point]
    exact ⟨rfl, ⟨_, same ▸ zeros, shape ▸ spare_zeros _ found⟩, shape⟩

theorem attains_constant (d : Datum) (ty : ValueType) : host.Yields (constant d ty) s fun v s' =>
    ∃ d', d.coerce ty.asNotNull = .ok d' ∧ v.Is s' d' ∧ v.ty.shape = ty.shape := by
  have strings {text : String} {d' : Datum} (coerced : d.coerce ty.asNotNull = .ok d')
      (cells : ∀ (m : Machine) (a : Word), m.TextAt a (textBytes text) →
        d'.Cells m ty.shape [(.ptr, a), (.i64, ofInt (textBytes text).length)]) :
      host.Yields (do
        let regs ← Emit.constBytes (textBytes text)
        ofRegs ty.asNotNull [regs.1, regs.2]) s fun v s' =>
          ∃ d', d.coerce ty.asNotNull = .ok d' ∧ v.Is s' d' ∧ v.ty.shape = ty.shape := by
    refine (constBytes (textBytes text)).andThen ?_
    rintro regs s1 before1 ⟨a, ptr, len, lies⟩
    refine (attains_ofRegs ty.asNotNull [regs.1, regs.2]).mono ?_
    rintro v s2 _ ⟨point, same, shape⟩
    rw [point]
    refine ⟨rfl, d', coerced, ⟨_, ?_, shape ▸ cells _ a lies⟩, shape⟩
    rw [same]
    exact .cons ptr (.cons len.reads .nil)
  refine .seq (fun d' => by cases d' <;> infer_instance) .ofChecked ?_
  rintro d' s1 before1 ⟨point, coerced⟩
  rw [point]
  have shaped (present : d'.isNull = false) := (Datum.coerce_hasShape coerced present).shape_eq
  cases d' with
  | null => exact .throw
  | bool value =>
    exact (constNumber (fits_ofBool value)).andThen fun r s2 _ number =>
      .pure ⟨rfl, _, coerced, is_bool.mpr ⟨value, rfl, number⟩, (shaped rfl).symm⟩
  | integer n =>
    exact (constNumber (fits_int32 n)).andThen fun r s2 _ number =>
      .pure ⟨rfl, _, coerced, is_integer.mpr ⟨n, rfl, number⟩, (shaped rfl).symm⟩
  | date day =>
    exact (constNumber (fits_int32 day)).andThen fun r s2 _ number =>
      .pure ⟨rfl, _, coerced, is_date.mpr ⟨day, rfl, number⟩, (shaped rfl).symm⟩
  | timestamp second =>
    exact (constNumber (fits_int64 second)).andThen fun r s2 _ number =>
      .pure ⟨rfl, _, coerced, is_timestamp.mpr ⟨second, rfl, number⟩, (shaped rfl).symm⟩
  | numeric raw precision =>
    obtain ⟨length, shape⟩ := shaped rfl
    refine (constNumber (fits_int64 raw)).andThen fun r s2 _ number => ?_
    refine (attains_ofRegs ty.asNotNull [r]).mono ?_
    rintro v s3 _ ⟨point, same, shape'⟩
    have reads : s2.ReadsAll v.regs [(.i64, ofInt raw.toInt)] := by
      rw [same]
      exact .cons number.reads .nil
    rw [point]
    refine ⟨rfl, _, coerced, ⟨_, reads, ?_⟩, shape'⟩
    rw [shape', shape]
    exact .numeric raw length precision
  | char text =>
    obtain ⟨length, shape⟩ : ∃ length, ty.shape = .char length := shaped rfl
    exact strings coerced fun m a lies => shape ▸ .char lies length
  | varchar text =>
    obtain ⟨capacity, shape⟩ : ∃ capacity, ty.shape = .varchar capacity := shaped rfl
    exact strings coerced fun m a lies => shape ▸ .varchar lies capacity

end Present

end QueryEngine
