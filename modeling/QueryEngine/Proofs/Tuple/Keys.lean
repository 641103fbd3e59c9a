import QueryEngine.Proofs.Emission.Operators
import QueryEngine.Proofs.Expression.Typing

set_option synthInstance.maxSize 512

namespace QueryEngine

open Hash

variable {host : Host} {s : Point} {m : Machine} {shape : Shape} {d : Datum}

/-- The hash code of a value. NULL has one of its own, whatever its type. -/
def Datum.hashCode : Datum → Word
  | null => Hash.ofNull
  | bool value => Hash.mix (Word.ofBool value)
  | integer n | date n => Hash.mix (Word.ofInt n.toInt)
  | numeric n _ | timestamp n => Hash.mix (Word.ofInt n.toInt)
  | char text | varchar text => Hash.ofBytes (textBytes text)

/-- The hash code of the first value, with that of each following value folded in. -/
def hashCode : List Datum → Word
  | [] => 0
  | d :: ds => ds.foldl (fun h d => Hash.combine h d.hashCode) d.hashCode

/-- What the registers of a value hold: NULL, the word of a number, or the bytes of a string. -/
inductive Content where
  | null
  | word (w : Word)
  | text (bytes : Bytes)

def Content.hashCode : Content → Word
  | null => Hash.ofNull
  | word w => Hash.mix w
  | text bytes => Hash.ofBytes bytes

/-- NULL is a value of every shape. -/
def Datum.Fits (shape : Shape) (d : Datum) : Prop := d = .null ∨ d.HasShape shape

theorem Datum.Cells.hasShape {cells : List (CodeType × Word)} (holds : d.Cells m shape cells) : d.HasShape shape := by
  cases holds <;> constructor

/-- Values of these types may be compared. -/
def ValueType.Comparable (a b : ValueType) : Prop :=
  a.shape = .unknown ∨ b.shape = .unknown ∨ a.comparable b = true

theorem ValueType.Comparable.of_comparison (found : comparison a b = .ok ty) : a.Comparable b := by
  unfold comparison at found
  split at found
  next missing =>
    simp only [isUnknown, Bool.or_eq_true, decide_eq_true_eq] at missing
    exact missing.imp id .inl
  · split at found
    next both => exact .inr (.inr both)
    · cases found

/-- Whether values may be compared depends on the shapes of their types alone. -/
theorem ValueType.Comparable.congr {a b a' b' : ValueType} (comparable : a.Comparable b) (first : a'.shape = a.shape)
    (second : b'.shape = b.shape) : a'.Comparable b' := by
  simpa only [Comparable, ValueType.comparable, sameShape, first, second] using comparable

theorem textOrder_eq_eq_iff (first second : String) : textOrder first second = .eq ↔ first = second := by
  unfold textOrder compareOfLessAndEq
  constructor
  · intro same
    split at same
    · cases same
    · split at same
      next bytes => exact textBytes_inj bytes
      · cases same
  · rintro rfl
    simp

/-- Values that may be compared sort as equal just when they are the same, and nothing is reported on the way. -/
theorem Datum.HasShape.order_alike {a b : ValueType} {x y : Datum} (left : x.HasShape a.shape) (right : y.HasShape b.shape)
    (comparable : a.comparable b = true) :
    ∃ order, x.order y = (pure order : Evaluation Ordering) ∧ (order = .eq ↔ x = y) := by
  unfold ValueType.comparable ValueType.sameShape at comparable
  generalize a.shape = first at left comparable
  generalize b.shape = second at right comparable
  cases left with
  | bool p => cases right with
    | bool q => exact ⟨_, rfl, by cases p <;> cases q <;> simp [Ord.compare]⟩
    | _ => cases comparable
  | integer n => cases right with
    | integer k => exact ⟨_, rfl, by rw [Int.compare_eq_eq, Int32.toInt_inj, integer.injEq]⟩
    | _ => cases comparable
  | date n => cases right with
    | date k => exact ⟨_, rfl, by rw [Int.compare_eq_eq, Int32.toInt_inj, date.injEq]⟩
    | _ => cases comparable
  | timestamp n => cases right with
    | timestamp k => exact ⟨_, rfl, by rw [Int.compare_eq_eq, Int64.toInt_inj, timestamp.injEq]⟩
    | _ => cases comparable
  | numeric n length precision => cases right with
    | numeric k length' precision' =>
      have same : length = length' ∧ precision = precision' := by simpa using comparable
      obtain ⟨rfl, rfl⟩ := same
      have kept (raw : Int) : Evaluation.rescale raw precision (max precision precision) = (pure raw : Evaluation Int) :=
        if_pos (ite_self precision)
      refine ⟨Ord.compare n.toInt k.toInt, ?_, by simp [Int64.toInt_inj]⟩
      rw [order, kept, kept]
      rfl
    | _ => cases comparable
  | char first => cases right with
    | char second => exact ⟨_, rfl, by rw [textOrder_eq_eq_iff, char.injEq]⟩
    | _ => cases comparable
  | varchar first => cases right with
    | varchar second => exact ⟨_, rfl, by rw [textOrder_eq_eq_iff, varchar.injEq]⟩
    | _ => cases comparable

/-- Whether the equality of two values is true. It is not where one of them is NULL. -/
def Datum.equal? (x y : Datum) : Option Bool :=
  (Option.map Prod.fst (x.unlessNull₂ y (Datum.compare .equal))).map fun d => decide (d = .bool true)

/-- Whether all equalities are true of two lists of values. -/
def allEqual? : List Datum → List Datum → Option Bool
  | x :: xs, y :: ys => do
    let here ← x.equal? y
    let rest ← allEqual? xs ys
    some (here && rest)
  | _, _ => some true

theorem Datum.HasShape.isNull (is : d.HasShape shape) : d.isNull = false := by
  cases is <;> rfl

theorem Datum.isNull_iff : d.isNull = true ↔ d = .null := by
  cases d <;> simp [isNull]

/-- The values of keys are equal where they are the same and none of them is NULL. -/
def Datum.Alike (xs ys : List Datum) : Prop := xs = ys ∧ ∀ x ∈ xs, x ≠ .null

instance : Decidable (Datum.Alike xs ys) := inferInstanceAs (Decidable (_ ∧ _))

theorem Datum.alike_cons : Datum.Alike (x :: xs) (y :: ys) ↔ (x = y ∧ x ≠ .null) ∧ Datum.Alike xs ys := by
  simp only [Datum.Alike, List.cons.injEq, List.forall_mem_cons]
  tauto

/-- An equality of values that may be compared reports nothing. -/
theorem Datum.Fits.compare_equal {a b : ValueType} {x y : Datum} (left : x.Fits a.shape) (right : y.Fits b.shape)
    (comparable : a.Comparable b) : ∃ d, x.unlessNull₂ y (compare .equal) = (pure d : Evaluation Datum) ∧
      (d = .bool true ↔ x = y ∧ x ≠ .null) := by
  rcases left with rfl | left
  · exact ⟨.null, if_pos rfl, by simp⟩
  have present : x ≠ .null := fun isNull => by
    rw [isNull] at left
    cases left.isNull
  rcases right with rfl | right
  · exact ⟨.null, if_pos (by simp [isNull]), by simp [present]⟩
  have alike : a.comparable b = true := by
    rcases comparable with missing | missing | alike
    · rw [missing] at left
      cases left
    · rw [missing] at right
      cases right
    · exact alike
  obtain ⟨order, given, same⟩ := left.order_alike right alike
  have holds : Comparison.equal.holds order = decide (order = .eq) := by cases order <;> rfl
  refine ⟨.bool (Comparison.equal.holds order), ?_, ?_⟩
  · rw [unlessNull₂, left.isNull, right.isNull, Bool.or_false, if_neg (by simp), compare, given]
    rfl
  · rw [holds, bool.injEq, decide_eq_true_eq, same, and_iff_left present]

theorem Datum.Fits.equal? {a b : ValueType} {x y : Datum} (left : x.Fits a.shape) (right : y.Fits b.shape)
    (comparable : a.Comparable b) : x.equal? y = some (decide (x = y ∧ x ≠ .null)) := by
  obtain ⟨d, given, same⟩ := left.compare_equal right comparable
  rw [Datum.equal?, given, ← decide_eq_decide.mpr same]
  rfl

theorem allEqual?_eq {types types' : List ValueType} {xs ys : List Datum}
    (left : List.Forall₂ (fun (x : Datum) (ty : ValueType) => x.Fits ty.shape) xs types)
    (right : List.Forall₂ (fun (y : Datum) (ty : ValueType) => y.Fits ty.shape) ys types')
    (comparable : List.Forall₂ ValueType.Comparable types types') :
    allEqual? xs ys = some (decide (Datum.Alike xs ys)) := by
  induction comparable generalizing xs ys with
  | nil =>
    cases left
    cases right
    simp [allEqual?, Datum.Alike]
  | cons here _ ih =>
    obtain ⟨x, xs, xFits, others, rfl⟩ := List.forall₂_cons_right_iff.mp left
    obtain ⟨y, ys, yFits, others', rfl⟩ := List.forall₂_cons_right_iff.mp right
    simp only [allEqual?, xFits.equal? yFits here, ih others others', Option.bind_eq_bind, Option.bind_some]
    rw [← Bool.decide_and, Option.some.injEq, decide_eq_decide, Datum.alike_cons]

theorem Evaluation.Reaches.of_pure (reaches : (Pure.pure x : Evaluation α).Reaches m y m') : y = x ∧ m' = m := by
  obtain ⟨_, ⟨⟩, rfl⟩ := reaches
  exact ⟨rfl, Machine.reportAll_nil m⟩

theorem Evaluation.Reaches.of_bind {α β : Type} {first : Evaluation α} {next : α → Evaluation β} {y : β} {m' : Machine}
    (reaches : (first >>= next).Reaches m y m') : ∃ x m1, first.Reaches m x m1 ∧ (next x).Reaches m1 y m' := by
  obtain ⟨_, gives, rfl⟩ := reaches
  obtain ⟨⟨x, before⟩, isFirst, gives⟩ := Option.bind_eq_some_iff.mp gives
  obtain ⟨⟨z, after⟩, isNext, ⟨⟩⟩ := Option.map_eq_some_iff.mp gives
  exact ⟨x, m.reportAll before, ⟨before, isFirst, rfl⟩, after, isNext, m.reportAll_append before after⟩

namespace Host.Attains

theorem xorShift (reads : s.Reads a .i64 x) : host.Yields (Emit.xorShift a) s fun r s' =>
    s'.Reads r .i64 (xorShift x) := by
  refine (const .i64 33).andThen fun amount s1 before1 amountIs => ?_
  refine (binary .lshr (reads.mono before1) amountIs).andThen fun shifted s2 before2 shiftedIs => ?_
  exact binary .xor (reads.mono (before1.trans before2)) shiftedIs

theorem mix (reads : s.Reads a .i64 x) : host.Yields (Emit.mix a) s fun r s' => s'.Reads r .i64 (mix x) := by
  refine (xorShift reads).andThen fun k s1 before1 kIs => ?_
  refine (constWord mixFirst).andThen fun first s2 before2 firstIs => ?_
  refine (binary .mul (kIs.mono before2) firstIs).andThen fun k2 s3 before3 k₂Is => ?_
  refine (xorShift k₂Is).andThen fun k3 s4 before4 k₃Is => ?_
  refine (constWord mixSecond).andThen fun second s5 before5 secondIs => ?_
  refine (binary .mul (k₃Is.mono before5) secondIs).andThen fun k4 s6 before6 k₄Is => ?_
  exact xorShift k₄Is

theorem combine (first : s.Reads a .i64 x) (second : s.Reads b .i64 y) : host.Yields (Emit.combine a b) s fun r s' =>
    s'.Reads r .i64 (combine x y) := by
  refine .seqThen (fun _ => .after fun _ => .after fun _ => inferInstance)
    (constWord combineSeed) fun seed s1 before1 seedIs => ?_
  refine (const .i64 6).andThen fun six s2 before2 sixIs => ?_
  refine (const .i64 2).andThen fun two s3 before3 twoIs => ?_
  have upto := before1.trans (before2.trans before3)
  refine (binary .shl (first.mono upto) (sixIs.mono before3)).andThen fun left s4 before4 leftIs => ?_
  refine (binary .lshr ((first.mono upto).mono before4) (twoIs.mono before4)).andThen fun right s5 before5 rightIs => ?_
  have upto5 := upto.trans (before4.trans before5)
  refine (binary .add (second.mono upto5) (seedIs.mono (before2.trans (before3.trans (before4.trans before5))))).andThen
    fun sum s6 before6 sumIs => ?_
  refine (binary .add sumIs (leftIs.mono (before5.trans before6))).andThen fun sum2 s7 before7 sum₂Is => ?_
  refine (binary .add sum₂Is (rightIs.mono (before6.trans before7))).andThen fun sum3 s8 before8 sum₃Is => ?_
  exact binary .xor (first.mono (upto5.trans (before6.trans (before7.trans before8)))) sum₃Is

/-- A word in a wider register. -/
theorem widenWord (reads : s.Reads a ty x) (narrow : ty.bits < 64) (signed : Bool) :
    host.Yields (Emit.resize a .i64 signed) s fun r s' =>
      s'.Reads r .i64 (if signed then x else ty.zeroExtend x) := by
  have different : ty.bits ≠ CodeType.i64.bits := Nat.ne_of_lt narrow
  have wider : ¬CodeType.i64.bits < ty.bits := Nat.not_lt.mpr (Nat.le_of_lt narrow)
  refine (Computes.resize .i64 signed (x := (ty, x)) reads).yields.weaken fun r s' _ reads => ?_
  rw [Cell.resize, if_neg different, if_neg wider] at reads
  cases signed <;> exact reads

end Host.Attains

namespace Present

open Host.Attains Datum Point

variable {v a b : Present}

/-- The registers of the value hold this. A bool is extended by zeros, and any other number by its sign. -/
inductive Contains (s : Point) : Present → Content → Prop
  | bool (reads : s.Reads r .i8 w) : Contains s (.bool r) (.word (CodeType.i8.zeroExtend w))
  | integer (reads : s.Reads r .i32 w) : Contains s (.integer r) (.word (CodeType.i32.normalize w))
  | date (reads : s.Reads r .i32 w) : Contains s (.date r) (.word (CodeType.i32.normalize w))
  | numeric (reads : s.Reads r .i64 w) (length precision : UInt8) : Contains s (.numeric r length precision) (.word w)
  | timestamp (reads : s.Reads r .i64 w) : Contains s (.timestamp r) (.word w)
  | char (shown : s.Shows address len bytes) (length : UInt16) : Contains s (.char address len length) (.text bytes)
  | varchar (shown : s.Shows address len bytes) (capacity : UInt16) :
    Contains s (.varchar address len capacity) (.text bytes)

theorem Contains.mono (contains : v.Contains s content) (before : s.Before s') (machine : s'.machine = s.machine) :
    v.Contains s' content := by
  cases contains with
  | bool reads => exact .bool (reads.mono before)
  | integer reads => exact .integer (reads.mono before)
  | date reads => exact .date (reads.mono before)
  | numeric reads length precision => exact .numeric (reads.mono before) length precision
  | timestamp reads => exact .timestamp (reads.mono before)
  | char shown length => exact .char (shown.mono before machine) length
  | varchar shown capacity => exact .varchar (shown.mono before machine) capacity

theorem attains_hashBytes (shown : s.Shows address len bytes) :
    host.Yields (Emit.callValue .hashBytes [address, len]) s fun r s' => s'.Reads r .i64 (ofBytes bytes) := by
  have small := shown.small
  obtain ⟨⟨a, ptr, read⟩, size⟩ := shown
  have readsAll : s.ReadsAll [address, len] [(.ptr, a), (.i64, Word.ofInt bytes.length)] :=
    .cons ptr (.cons size.reads .nil)
  have run : Routine.run .hashBytes [a, Word.ofInt bytes.length] s.machine = .ok (ofBytes bytes) s.machine := by
    have gives : Routine.run .hashBytes [a, Word.ofInt bytes.length] s.machine =
        .ok (ofBytes (s.machine.readBytes a (Word.ofInt bytes.length).toNat)) s.machine := rfl
    rw [gives, Word.toNat_ofInt_natCast small, read]
  exact callValue readsAll run rfl rfl (.refl _)

/-- The code computes the hash code of what the registers hold. -/
theorem Contains.hash (contains : v.Contains s content) :
    host.Yields v.hash s fun r s' => s'.Reads r .i64 content.hashCode := by
  cases contains with
  | bool reads => exact (widenWord reads (by decide) false).andThen fun wide s1 before1 wideIs => mix wideIs
  | integer reads | date reads =>
    rw [reads.normal]
    exact (widenWord reads (by decide) true).andThen fun wide s1 before1 wideIs => mix wideIs
  | numeric reads | timestamp reads => exact mix reads
  | char shown | varchar shown => exact attains_hashBytes shown

/-- A value hashes as what its registers hold. -/
theorem Is.contains (is : v.Is s d) : ∃ content, v.Contains s content ∧ content.hashCode = d.hashCode := by
  cases v with
  | bool r =>
    obtain ⟨_, reads, holds⟩ := is
    cases holds with
    | bool value => exact ⟨_, .bool (Point.reads_one reads), by cases value <;> rfl⟩
  | integer r =>
    obtain ⟨n, rfl, number⟩ := is_integer.mp is
    exact ⟨_, .integer number.reads, by rw [number.reads.normal]; rfl⟩
  | date r =>
    obtain ⟨n, rfl, number⟩ := is_date.mp is
    exact ⟨_, .date number.reads, by rw [number.reads.normal]; rfl⟩
  | numeric r length precision =>
    obtain ⟨n, rfl, number⟩ := is_numeric.mp is
    exact ⟨_, .numeric number.reads length precision, rfl⟩
  | timestamp r =>
    obtain ⟨n, rfl, number⟩ := is_timestamp.mp is
    exact ⟨_, .timestamp number.reads, rfl⟩
  | char address len length =>
    obtain ⟨text, rfl, lies⟩ := is_char.mp is
    exact ⟨_, .char lies.shows length, rfl⟩
  | varchar address len capacity =>
    obtain ⟨text, rfl, lies⟩ := is_varchar.mp is
    exact ⟨_, .varchar lies.shows capacity, rfl⟩

/-- What stands in for a string can be read. -/
theorem Spare.text (spare : v.Spare s) (found : v.string? = some (address, len)) :
    ∃ bytes, s.Text address len bytes := by
  obtain ⟨_, reads, kind⟩ := spare
  cases v with
  | char address' len' n =>
    cases found
    cases kind with
    | char lies => exact ⟨_, ⟨_, (reads_two reads).1, lies⟩, (reads_two reads).2, lies.fits⟩
  | varchar address' len' n =>
    cases found
    cases kind with
    | varchar lies => exact ⟨_, ⟨_, (reads_two reads).1, lies⟩, (reads_two reads).2, lies.fits⟩
  | _ => cases found

/-- What stands in for a value holds something too. -/
theorem Spare.contains (spare : v.Spare s) : ∃ content, v.Contains s content := by
  obtain ⟨cells, reads, kind⟩ := spare
  cases v with
  | bool r => cases kind; exact ⟨_, .bool (Point.reads_one reads)⟩
  | integer r => cases kind; exact ⟨_, .integer (Point.reads_one reads)⟩
  | date r => cases kind; exact ⟨_, .date (Point.reads_one reads)⟩
  | numeric r length precision => cases kind; exact ⟨_, .numeric (Point.reads_one reads) length precision⟩
  | timestamp r => cases kind; exact ⟨_, .timestamp (Point.reads_one reads)⟩
  | char address len length =>
    obtain ⟨bytes, text⟩ := Spare.text ⟨cells, reads, kind⟩ rfl
    exact ⟨_, .char text.shows length⟩
  | varchar address len capacity =>
    obtain ⟨bytes, text⟩ := Spare.text ⟨cells, reads, kind⟩ rfl
    exact ⟨_, .varchar text.shows capacity⟩

theorem Is.hasShape (is : v.Is s d) : d.HasShape v.ty.shape := by
  obtain ⟨_, _, holds⟩ := is
  exact holds.hasShape

theorem Is.compareAlike (mode : Comparison) (left : a.Is s x) (right : b.Is s y)
    (comparable : a.ty.comparable b.ty = true) :
    host.Yields (Present.compare mode a b) s fun bit s' =>
      ∃ order, x.order y = (pure order : Evaluation Ordering) ∧ s'.Bit bit (mode.holds order) := by
  obtain ⟨_, given, _⟩ := left.hasShape.order_alike right.hasShape comparable
  refine (left.compare mode right).mono fun bit s' _ ⟨order', reaches, bitIs⟩ => ?_
  rw [given] at reaches
  obtain ⟨rfl, machine⟩ := reaches.of_pure
  exact ⟨machine, order', given, bitIs⟩

/-- What stands in for values can be compared too. -/
theorem Spare.compare (mode : Comparison) (left : a.Spare s) (right : b.Spare s)
    (comparable : a.ty.comparable b.ty = true) :
    host.Yields (Present.compare mode a b) s fun bit s' => ∃ value, s'.Bit bit value := by
  have numbers {r r' : Reg} {ty : CodeType} {w w' : Word} (first : s.Reads r ty w) (second : s.Reads r' ty w') :
      host.Yields (Emit.compare mode.predicate r r') s fun bit s' => ∃ value, s'.Bit bit value :=
    (Host.Attains.compare mode.predicate first second).weaken fun bit s' _ bitIs => ⟨_, bitIs⟩
  unfold Present.compare
  split
  case h_1 | h_2 | h_3 | h_4 =>
    obtain ⟨_, reads, kind⟩ := left
    obtain ⟨_, reads', kind'⟩ := right
    cases kind
    cases kind'
    exact numbers (reads_one reads) (reads_one reads')
  next r length p r' length' q =>
    obtain ⟨_, reads, kind⟩ := left
    obtain ⟨_, reads', kind'⟩ := right
    have same : length = length' ∧ p = q := by
      simpa [Present.ty, ValueType.comparable, ValueType.sameShape, ValueType.numeric] using comparable
    obtain ⟨rfl, rfl⟩ := same
    have kept (raw : Reg) : Emit.rescale raw p (max p p) = Pure.pure raw := if_pos (ite_self p)
    rw [kept, kept]
    cases kind
    cases kind'
    exact numbers (reads_one reads) (reads_one reads')
  · split
    next address1 len1 address2 len2 first second =>
      rw [if_pos comparable]
      obtain ⟨_, text1⟩ := left.text first
      obtain ⟨_, text2⟩ := right.text second
      exact (compareStrings mode text1.shows text2.shows).weaken fun bit s' _ bitIs => ⟨_, bitIs⟩
    · exact .throw

end Present

namespace Held

open Host.Attains

variable {h a b : Held}

/-- The registers hold this. Where the value is NULL, its registers may hold anything. -/
inductive Contains (s : Point) : Held → Content → Prop
  | unknown : Contains s .unknown .null
  | present (contains : v.Contains s content) : Contains s (.present v) content
  | null (set : s.Bit flag true) (spare : v.Contains s content) : Contains s (.nullable v flag) .null
  | value (unset : s.Bit flag false) (contains : v.Contains s content) : Contains s (.nullable v flag) content

theorem Contains.mono (contains : h.Contains s content) (before : s.Before s') (machine : s'.machine = s.machine) :
    h.Contains s' content := by
  cases contains with
  | unknown => exact .unknown
  | present contains => exact .present (contains.mono before machine)
  | null set spare => exact .null (set.mono before) (spare.mono before machine)
  | value unset contains => exact .value (unset.mono before) (contains.mono before machine)

theorem Contains.hash (contains : h.Contains s content) :
    host.Yields h.hash s fun r s' => s'.Reads r .i64 content.hashCode := by
  cases contains with
  | unknown => exact constWord ofNull
  | present contains => exact contains.hash
  | null flag contains | value flag contains =>
    refine contains.hash.andThen fun code s1 before1 codeIs => ?_
    refine (constWord ofNull).andThen fun ofNull s2 before2 ofNullIs => ?_
    exact select ((flag.mono before1).mono before2) ofNullIs (codeIs.mono before2)

theorem Is.contains (is : h.Is s d) : ∃ content, h.Contains s content ∧ content.hashCode = d.hashCode := by
  cases is with
  | unknown => exact ⟨_, .unknown, rfl⟩
  | present is =>
    obtain ⟨content, contains, same⟩ := is.contains
    exact ⟨content, .present contains, same⟩
  | null set spare =>
    obtain ⟨content, contains⟩ := spare.contains
    exact ⟨_, .null set contains, rfl⟩
  | value unset is =>
    obtain ⟨content, contains, same⟩ := is.contains
    exact ⟨content, .value unset contains, same⟩

theorem Is.hash (is : h.Is s d) : host.Yields h.hash s fun r s' => s'.Reads r .i64 d.hashCode := by
  obtain ⟨_, contains, same⟩ := is.contains
  exact same ▸ contains.hash

theorem attains_hashRest (reads : s.Reads r .i64 w) (contain : List.Forall₂ (Contains s) values contents) :
    host.Yields (hashRest r values) s fun r' s' =>
      s'.Reads r' .i64 ((contents.map Content.hashCode).foldl combine w) := by
  induction values generalizing s r w contents with
  | nil =>
    cases contain
    exact .pure ⟨rfl, reads⟩
  | cons value values ih =>
    obtain ⟨_, contents, here, others, rfl⟩ := List.forall₂_cons_left_iff.mp contain
    refine here.hash.sameThen fun next s1 before1 machine1 nextIs => ?_
    refine (combine (reads.mono before1) nextIs).sameThen fun folded s2 before2 machine2 foldedIs => ?_
    exact (ih foldedIs (others.imp fun _ _ each => each.mono (before1.trans before2) (machine2.trans machine1)) :)

theorem attains_hashContents (contain : List.Forall₂ (Contains s) (value :: values) (content :: contents)) :
    host.Yields (hashTuple (value :: values)) s fun r s' =>
      s'.Reads r .i64 ((contents.map Content.hashCode).foldl combine content.hashCode) := by
  obtain ⟨here, others⟩ := List.forall₂_cons.mp contain
  refine here.hash.sameThen fun first s1 before1 machine1 firstIs => ?_
  exact attains_hashRest firstIs (others.imp fun _ _ each => each.mono before1 machine1)

theorem All.contain (are : Held.All s values datums) : ∃ contents, List.Forall₂ (Contains s) values contents ∧
    contents.map Content.hashCode = datums.map Datum.hashCode := by
  induction are with
  | nil => exact ⟨[], .nil, rfl⟩
  | cons is _ ih =>
    obtain ⟨content, contains, same⟩ := is.contains
    obtain ⟨contents, contain, all⟩ := ih
    exact ⟨content :: contents, .cons contains contain, by rw [List.map_cons, List.map_cons, same, all]⟩

theorem attains_hashTuple (are : Held.All s values datums) :
    host.Yields (hashTuple values) s fun r s' => s'.Reads r .i64 (hashCode datums) := by
  obtain ⟨contents, contain, same⟩ := All.contain are
  cases are with
  | nil => exact const .i64 0
  | cons is others =>
    obtain ⟨_, contents, _, _, rfl⟩ := List.forall₂_cons_left_iff.mp contain
    obtain ⟨first, rest⟩ := List.cons.inj same
    rw [hashCode, ← List.foldl_map, ← rest, ← first]
    exact attains_hashContents contain

theorem Is.fits (is : h.Is s d) : d.Fits h.ty.shape := by
  cases is with
  | unknown => exact .inl rfl
  | null => exact .inl rfl
  | present is => exact .inr is.hasShape
  | value _ is => exact .inr is.hasShape

theorem gives_checkComparable (a b : Held) : Emit.Gives (checkComparable a b) fun _ => a.ty.Comparable b.ty := by
  unfold checkComparable
  split
  next found => exact .pure (.of_comparison found)
  · exact .throw

theorem attains_checkComparable : host.Attains (checkComparable a b) s fun _ s' => s' = s ∧ a.ty.Comparable b.ty := by
  unfold checkComparable
  split
  next found => exact .pure ⟨rfl, .of_comparison found⟩
  · exact .throw

theorem gives_comparable (mode : Comparison) (a b : Held) :
    Emit.Gives (Held.compare mode a b) fun _ => a.ty.Comparable b.ty :=
  (gives_checkComparable a b).bind fun _ comparable _ _ _ _ => comparable

/-- The equality of two values, which is true where they are the same and not NULL. -/
theorem Is.compareEqual (left : a.Is s x) (right : b.Is s y) : host.Yields (Held.compare .equal a b) s fun h s' =>
    ∃ d, h.Is s' d ∧ (d = .bool true ↔ x = y ∧ x ≠ .null) := by
  refine ((left.compare .equal right).with_gives (gives_comparable .equal a b)).mono
    fun h s' _ ⟨⟨d, reaches, is⟩, comparable⟩ => ?_
  obtain ⟨_, given, same⟩ := left.fits.compare_equal right.fits comparable
  rw [given] at reaches
  obtain ⟨rfl, machine⟩ := reaches.of_pure
  exact ⟨machine, d, is, same⟩

theorem comparable_values (comparable : a.ty.Comparable b.ty) {v w : Present} (first : a.value? = some v)
    (second : b.value? = some w) : v.ty.comparable w.ty = true := by
  have known (v : Present) : v.ty.shape ≠ .unknown := by cases v <;> nofun
  have shape {h : Held} {v : Present} (found : h.value? = some v) : v.ty.shape = h.ty.shape := by
    cases h with
    | unknown => cases found
    | present | nullable => cases found; rfl
  rcases comparable.congr (shape first) (shape second) with missing | missing | both
  · exact absurd missing (known v)
  · exact absurd missing (known w)
  · exact both

theorem Is.isNull (is : a.Is s x) : host.Yields a.isNull s fun r s' => s'.Bit r x.isNull := by
  cases is with
  | unknown => exact constBool true
  | present is => exact is.isNull ▸ constBool false
  | null set spare => exact .pure ⟨rfl, set⟩
  | value unset is => exact .pure ⟨rfl, is.isNull ▸ unset⟩

theorem Is.spare (is : a.Is s x) (found : a.value? = some v) : v.Spare s := by
  cases is with
  | unknown => cases found
  | present is | value _ is => cases found; exact is.spare
  | null set spare => cases found; exact spare

/-- The comparison inside `equals`, of whatever the registers hold. -/
def sameValues (a b : Held) : Emit Reg :=
  match a.value?, b.value? with
  | some v, some w => Present.compare .equal v w
  | _, _ => Emit.constBool false

instance : Emit.Growing (sameValues a b) := by
  unfold sameValues
  split <;> infer_instance

theorem equals_eq (a b : Held) : a.equals b = (do
    checkComparable a b
    match a, b with
    | .present x, .present y => Present.compare .equal x y
    | _, _ =>
      let aNull ← a.isNull
      let bNull ← b.isNull
      let bothNull ← Emit.binary .and aNull bNull
      let eitherNull ← Emit.binary .or aNull bNull
      let same ← sameValues a b
      let neitherNull ← Emit.not eitherNull
      let alike ← Emit.binary .and neitherNull same
      Emit.binary .or bothNull alike) := by
  congr 1
  funext _
  cases a <;> cases b <;> rfl

/-- The bit tells whether the values are the same where none is NULL. -/
theorem Is.sameValues (left : a.Is s x) (right : b.Is s y) (comparable : a.ty.Comparable b.ty) :
    host.Yields (sameValues a b) s fun r s' => ∃ same, s'.Bit r same ∧
      (x.isNull = false → y.isNull = false → same = decide (x = y)) := by
  unfold Held.sameValues
  split
  next v w first second =>
    have alike := comparable_values comparable first second
    by_cases none : x.isNull = false ∧ y.isNull = false
    · have leftIs := left.of_not_null first none.1
      have rightIs := right.of_not_null second none.2
      refine (leftIs.compareAlike .equal rightIs alike).weaken fun r s' _ ⟨order, given, bit⟩ => ⟨_, bit, fun _ _ => ?_⟩
      obtain ⟨_, given', same⟩ := leftIs.hasShape.order_alike rightIs.hasShape alike
      rw [given] at given'
      cases given'
      rw [← decide_eq_decide.mpr same]
      cases order <;> rfl
    · exact ((left.spare first).compare .equal (right.spare second) alike).weaken fun r s' _ ⟨same, bit⟩ =>
        ⟨same, bit, fun xPresent yPresent => absurd ⟨xPresent, yPresent⟩ none⟩
  next missing =>
    refine (constBool false).weaken fun r s' _ bit => ⟨false, bit, fun xPresent yPresent => ?_⟩
    cases first : a.value? with
    | none =>
      rw [left.eq_null first] at xPresent
      cases xPresent
    | some v => cases second : b.value? with
      | none =>
        rw [right.eq_null second] at yPresent
        cases yPresent
      | some w => exact absurd second (missing v w first)

theorem same_bits (x y : Datum) (same : x.isNull = false → y.isNull = false → value = decide (x = y)) :
    ((x.isNull && y.isNull) || (!(x.isNull || y.isNull) && value)) = decide (x = y) := by
  cases first : x.isNull with
  | true =>
    rw [Datum.isNull_iff.mp first]
    cases second : y.isNull with
    | true => simp [Datum.isNull_iff.mp second]
    | false =>
      have different : Datum.null ≠ y := fun eq => by rw [← eq] at second; cases second
      simp [different]
  | false =>
    cases second : y.isNull with
    | true =>
      have different : x ≠ y := fun eq => by rw [eq, second] at first; cases first
      simp [different]
    | false => simp [same first second]

/-- A bit that tells whether two values are the same, where NULL is the same as NULL. -/
theorem Is.equals (left : a.Is s x) (right : b.Is s y) : host.Yields (a.equals b) s fun r s' =>
    s'.Bit r (decide (x = y)) := by
  rw [equals_eq]
  refine .seq (fun _ => by split <;> infer_instance) attains_checkComparable ?_
  rintro _ s0 _ ⟨point, comparable⟩
  subst point
  split
  next v w =>
    refine (left.sameValues right comparable).weaken ?_
    rintro r s' _ ⟨same, bit, agrees⟩
    cases left with
    | present left => cases right with
      | present right => rwa [agrees left.isNull right.isNull] at bit
  · refine left.isNull.andThen fun aNull s1 before1 aNullIs => ?_
    refine ((right.mono before1).isNull).andThen fun bNull s2 before2 bNullIs => ?_
    refine (bitAnd (aNullIs.mono before2) bNullIs).andThen fun both s3 before3 bothIs => ?_
    refine (bitOr ((aNullIs.mono before2).mono before3) (bNullIs.mono before3)).andThen
      fun either s4 before4 eitherIs => ?_
    have upto := before1.trans (before2.trans (before3.trans before4))
    refine ((left.mono upto).sameValues (right.mono upto) comparable).andThen ?_
    rintro values s5 before5 ⟨same, sameIs, agrees⟩
    refine (bitNot (eitherIs.mono before5)).andThen fun neither s6 before6 neitherIs => ?_
    refine (bitAnd neitherIs (sameIs.mono before6)).andThen fun alike s7 before7 alikeIs => ?_
    refine (bitOr (bothIs.mono (before4.trans (before5.trans (before6.trans before7)))) alikeIs).weaken
      fun r s8 _ result => same_bits x y agrees ▸ result

theorem attains_equalsFrom (bit : s.Bit all value) (left : Held.All s first xs) (right : Held.All s second ys)
    (same : first.length = second.length) :
    host.Yields (equalsFrom all first second) s fun r s' => s'.Bit r (value && decide (xs = ys)) := by
  induction first generalizing s all value second xs ys with
  | nil =>
    cases left
    cases right with
    | nil => exact .pure ⟨rfl, by simpa using bit⟩
    | cons => cases same
  | cons a first ih =>
    obtain ⟨x, xs, aIs, others, rfl⟩ := List.forall₂_cons_left_iff.mp left
    cases right with
    | nil => cases same
    | @cons b y second ys bIs others' =>
      refine (aIs.equals bIs).andThen fun equal s1 before1 equalIs => ?_
      refine (bitAnd (bit.mono before1) equalIs).andThen fun next s2 before2 nextIs => ?_
      have before := before1.trans before2
      refine (ih nextIs (others.imp fun _ _ is => is.mono before) (others'.imp fun _ _ is => is.mono before)
        (Nat.succ.inj same)).weaken fun r s3 _ result => ?_
      simpa [Bool.and_assoc, Bool.decide_and] using result

/-- A bit that tells whether two tuples are the same. -/
theorem attains_equalsTuple (left : Held.All s first xs) (right : Held.All s second ys) :
    host.Yields (equalsTuple first second) s fun r s' => s'.Bit r (decide (xs = ys)) := by
  unfold equalsTuple
  split
  · exact .bind .throw fun _ _ _ (impossible : False) => impossible.elim
  next lengths =>
    refine (constBool true).andThen fun all s1 before1 allIs => ?_
    refine (attains_equalsFrom allIs (left.imp fun _ _ is => is.mono before1) (right.imp fun _ _ is => is.mono before1)
      (Decidable.not_not.mp lengths)).weaken fun r s2 _ result => ?_
    simpa using result

end Held

end QueryEngine
