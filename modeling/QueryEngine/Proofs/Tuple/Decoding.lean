import QueryEngine.Proofs.Tuple.Layouts

namespace QueryEngine

open Word TupleLayout Codec

variable {m : Machine} {a : Word} {ty : ValueType} {encoding : NullEncoding} {d : Datum} {layout : TupleLayout}

namespace Machine

theorem readBytes_drop (m : Machine) (a : Word) (skip count : Nat) :
    (m.readBytes a (skip + count)).drop skip = m.readBytes (a + UInt64.ofNat skip) count := by
  refine List.ext_getElem (by simp [readBytes]) fun i _ _ => ?_
  simp [readBytes, UInt64.ofNat_add, UInt64.add_assoc]

theorem load_take (m : Machine) (a : Word) (fewer : few ≤ count) :
    ofBytes ((m.readBytes a count).take few) = m.load few a := by
  rw [readBytes_take m a fewer, load]

end Machine

theorem CodeType.toInt32_of_normalize (same : i32.normalize w = ofInt n.toInt) : w.toUInt32.toInt32 = n := by
  have signed : w.toUInt32.toInt32.toInt64 = n.toInt64 := by
    have words := congrArg UInt64.toInt64 same
    rwa [normalize, ofInt, Int64.toInt64_toUInt64, Int64.toInt64_toUInt64, Int64.ofInt_int32ToInt] at words
  rw [← Int32.toInt_inj, ← Int32.toInt_toInt64, signed, Int32.toInt_toInt64]

theorem Word.add_ofNat_zero (w : Word) : w + UInt64.ofNat 0 = w := by simp

theorem Word.toInt64_ofInt (n : Int64) : (ofInt n.toInt).toInt64 = n := by
  rw [ofInt, Int64.toInt64_toUInt64, Int64.ofInt_toInt]

namespace Word

theorem pow_le (few : count ≤ 7) : 256 ^ count ≤ 2 ^ 56 :=
  calc 256 ^ count ≤ 256 ^ 7 := Nat.pow_le_pow_right (by decide) few
    _ = 2 ^ 56 := by decide

/-- The first byte is the lowest one. -/
theorem ofBytes_cons_toNat (byte : UInt8) (small : (ofBytes rest).toNat < 2 ^ 56) :
    (ofBytes (byte :: rest)).toNat = byte.toNat + 256 * (ofBytes rest).toNat := by
  have low := byte.toNat_lt
  have high : (ofBytes rest <<< 8).toNat = (ofBytes rest).toNat <<< 8 := by
    rw [UInt64.toNat_shiftLeft]
    exact Nat.mod_eq_of_lt (by rw [Nat.shiftLeft_eq]; change _ * 256 < _; omega)
  rw [ofBytes, UInt64.toNat_or, UInt8.toNat_toUInt64, high, Nat.or_comm,
    ← Nat.shiftLeft_add_eq_or_of_lt (by omega : byte.toNat < 2 ^ 8), Nat.shiftLeft_eq]
  omega

theorem ofBytes_lt {bytes : Bytes} (short : bytes.length ≤ 8) : (ofBytes bytes).toNat < 256 ^ bytes.length := by
  induction bytes with
  | nil => decide
  | cons byte rest ih =>
    rw [List.length_cons] at short ⊢
    have bound := ih (by omega)
    have low := byte.toNat_lt
    rw [ofBytes_cons_toNat byte (Nat.lt_of_lt_of_le bound (pow_le (by omega))), Nat.pow_succ']
    omega

theorem ofBytes_inj (same : first.length = second.length) (short : first.length ≤ 8) (equal : ofBytes first = ofBytes second)
    : first = second := by
  induction first generalizing second with
  | nil => exact (List.eq_nil_of_length_eq_zero same.symm).symm
  | cons byte first ih =>
    cases second with
    | nil => cases same
    | cons byte' second =>
      simp only [List.length_cons, Nat.add_right_cancel_iff] at same short
      have numbers := congrArg UInt64.toNat equal
      have bound := ofBytes_lt (show first.length ≤ 8 by omega)
      have bound' := ofBytes_lt (show second.length ≤ 8 by omega)
      have most := @pow_le first.length (by omega)
      rw [← same] at bound'
      rw [ofBytes_cons_toNat byte (by omega), ofBytes_cons_toNat byte' (by omega)] at numbers
      have small := byte.toNat_lt
      have small' := byte'.toNat_lt
      rw [UInt8.toNat_inj.mp (by omega : byte.toNat = byte'.toNat),
        ih same (by omega) (UInt64.toNat_inj.mp (by omega))]

end Word

namespace CodeType

/-- Words that fit the bytes of a type are told apart by their registers. -/
theorem normalize_inj {ty : CodeType} (wide : ty ≠ .i1) {w w' : Word} (small : w.toNat < 256 ^ ty.storeSize)
    (small' : w'.toNat < 256 ^ ty.storeSize) (same : ty.normalize w = ty.normalize w') : w = w' := by
  cases ty with
  | i1 => exact absurd rfl wide
  | i8 =>
    have signed : w.toUInt8.toInt8.toInt = w'.toUInt8.toInt8.toInt := by
      simpa [normalize] using congrArg (fun w => (UInt64.toInt64 w).toInt) same
    have bytes : w.toUInt8 = w'.toUInt8 := by
      simpa using congrArg Int8.toUInt8 (Int8.toInt_inj.mp signed)
    have numbers := congrArg UInt8.toNat bytes
    simp only [UInt64.toNat_toUInt8] at numbers
    simp only [storeSize] at small small'
    exact UInt64.toNat_inj.mp (by omega)
  | i32 =>
    have signed : w.toUInt32.toInt32.toInt = w'.toUInt32.toInt32.toInt := by
      simpa [normalize] using congrArg (fun w => (UInt64.toInt64 w).toInt) same
    have bytes : w.toUInt32 = w'.toUInt32 := by
      simpa using congrArg Int32.toUInt32 (Int32.toInt_inj.mp signed)
    have numbers := congrArg UInt32.toNat bytes
    simp only [UInt64.toNat_toUInt32] at numbers
    simp only [storeSize] at small small'
    exact UInt64.toNat_inj.mp (by omega)
  | i64 | ptr => exact same

end CodeType

namespace Machine

variable {isNull : Bool}

/-- A single byte that is loaded as a bool. -/
theorem headD_of_load (byte : CodeType.i8.normalize (m.load 1 a) = ofBool value) :
    decide ((m.readBytes a 1).headD 0 ≠ 0) = value := by
  have read : m.readBytes a 1 = [m.byteAt a] := by simp [readBytes]
  rw [load, read] at byte
  have word : ofBytes [m.byteAt a] = (m.byteAt a).toUInt64 := by simp [ofBytes]
  rw [word] at byte
  rw [read, List.headD_cons]
  generalize m.byteAt a = b at byte
  by_cases zero : b = 0
  · subst zero
    cases value with
    | false => rfl
    | true => exact absurd byte (by decide)
  · cases value with
    | true => simp [zero]
    | false =>
      have signed : b.toInt8.toInt = 0 := by
        have words := congrArg (fun w => (UInt64.toInt64 w).toInt) byte
        simpa [CodeType.normalize, ofBool] using words
      have none : b.toInt8 = 0 := Int8.toInt_inj.mp signed
      exact absurd (by rw [← UInt8.toUInt8_toInt8 b, none]; rfl) zero

variable {cells : List (CodeType × Word)} {parts : List (CodeType × Nat)}

/-- A value that is not NULL is decoded from its bytes. -/
theorem decode_of_partsAt
    (present : ¬(encoding = .sentinel ∧ ty.nullable = true ∧ isSentinel ty (m.readBytes a ty.size) = true))
    (found : ty.parts? = some parts) (lies : m.PartsAt a parts cells) (holds : d.Cells m ty.shape cells) :
    decode encoding m.readBytes ty (m.readBytes a ty.size) = d := by
  unfold Codec.decode
  rw [if_neg present]
  unfold ValueType.parts? at found
  unfold ValueType.size
  generalize ty.shape = shape at holds found
  cases holds with
  | bool value =>
    cases found
    obtain ⟨⟨_, word⟩, _⟩ := List.forall₂_cons.mp lies
    rw [add_ofNat_zero] at word
    exact congrArg Datum.bool (headD_of_load word)
  | integer n | date n =>
    cases found
    obtain ⟨⟨_, word⟩, _⟩ := List.forall₂_cons.mp lies
    rw [add_ofNat_zero] at word
    have same : (m.load 4 a).toUInt32.toInt32 = n := CodeType.toInt32_of_normalize word
    simp only [int32, load_take m a (Nat.le_refl 4), same]
  | numeric n | timestamp n =>
    cases found
    obtain ⟨⟨_, word⟩, _⟩ := List.forall₂_cons.mp lies
    rw [add_ofNat_zero] at word
    have same : m.load 8 a = ofInt n.toInt := word
    simp only [int64, load_take m a (Nat.le_refl 8), same, toInt64_ofInt]
  | char inHeap | varchar inHeap =>
    cases found
    obtain ⟨⟨_, first⟩, rest⟩ := List.forall₂_cons.mp lies
    obtain ⟨⟨_, second⟩, _⟩ := List.forall₂_cons.mp rest
    rw [add_ofNat_zero] at first
    have address : m.load 8 a = _ := first
    have length : m.load 8 (a + UInt64.ofNat 8) = _ := second
    have tail := readBytes_drop m a 8 8
    simp only [load_take m a (show 8 ≤ 16 by decide), tail, load_take m _ (Nat.le_refl 8), address, length,
      toNat_ofInt_natCast inHeap.length, inHeap.readBytes, bytesText_textBytes]

theorem readBytes_one_of_load (flag : m.load 1 (scratchAddress offset) = ofBool isNull) :
    decide (m.readBytes (scratchAddress offset) 1 ≠ [0]) = isNull := by
  rw [load_one] at flag
  rw [readBytes_scratch]
  have cell : m.cell offset = if isNull then 1 else 0 := by
    apply UInt8.toUInt64_inj.mp
    rw [flag]
    cases isNull <;> rfl
  simp only [List.range_one, List.map_cons, List.map_nil, Nat.add_zero, cell]
  cases isNull <;> decide

variable {readable : Prop} {offset low high : Nat}

/-- The bytes are those of the sentinel just if the first word is. -/
theorem isSentinel_iff (found : ty.parts? = some parts) (lies : m.PartsAt a parts cells) :
    isSentinel ty (m.readBytes a ty.size) = true ↔ cells.head?.map Prod.snd = some ty.sentinel := by
  obtain ⟨first, _, rfl, wide, size, normal⟩ := ValueType.first_part found
  obtain ⟨⟨_, w⟩, _, ⟨_, word⟩, _, rfl⟩ := List.forall₂_cons_left_iff.mp lies
  have taken : (m.readBytes a ty.size).take 8 = m.readBytes a (min ty.size 8) := by
    rw [readBytes, readBytes, ← List.map_take, List.take_range, Nat.min_comm]
  have few : min ty.size 8 ≤ 8 := Nat.min_le_right _ _
  have stored := CodeType.normalize_ofBytes_bytes first ty.sentinel
  rw [normal] at stored
  rw [isSentinel, decide_eq_true_iff, taken, List.head?_cons, Option.map_some, Option.some_inj]
  rw [add_ofNat_zero, load] at word
  rw [← size] at few ⊢
  have length : (m.readBytes a first.storeSize).length = first.storeSize := by simp [readBytes]
  have length' := bytes_length first.storeSize ty.sentinel
  constructor
  · intro same
    rw [← word, same, stored]
  · intro same
    have small := ofBytes_lt (Nat.le_trans (Nat.le_of_eq length) few)
    have small' := ofBytes_lt (Nat.le_trans (Nat.le_of_eq length') few)
    rw [length] at small
    rw [length'] at small'
    exact ofBytes_inj (length.trans length'.symm) (Nat.le_trans (Nat.le_of_eq length) few)
      (CodeType.normalize_inj wide small small' (word.trans (same.trans stored.symm)))

/-- The decoder reads what the bytes of a field mean. -/
theorem FieldMeans.decodeField {field : TupleField} (means : m.FieldMeans encoding readable offset field d)
    (flagged : TupleLayout.Flagged encoding field) :
    decodeField encoding m.readBytes (scratchAddress offset) field = d := by
  obtain ⟨flag, byte, meant⟩ := means
  unfold TupleLayout.decodeField
  by_cases isUnknown : field.ty.isUnknown = true
  · rw [if_pos isUnknown, meant.unknown isUnknown]
  rw [if_neg isUnknown]
  obtain ⟨parts, found⟩ := ValueType.parts?_isSome isUnknown
  obtain ⟨cells, lies, value, _⟩ := meant.known parts found
  have any : (field.indicator.any fun i => m.readBytes (scratchAddress offset + UInt64.ofNat i) 1 ≠ [0]) =
      (hasIndicator encoding field.ty && flag) := by
    cases present : field.indicator with
    | none =>
      rw [flagged] at present
      split at present
      · cases present
      · simp_all
    | some i =>
      rw [Option.any_some, scratchAddress_add, readBytes_one_of_load (byte i present)]
      rw [flagged] at present
      split at present
      · simp_all
      · cases present
  rw [any, scratchAddress_add]
  unfold NullEncoding.Means NullEncoding.isNull at value
  cases encoding with
  | indicator =>
    by_cases null : (field.ty.nullable && flag) = true
    · rw [if_pos null] at value
      rw [if_pos (by simpa [hasIndicator, isUnknown] using null), value]
    · rw [if_neg null] at value
      rw [if_neg (by simpa [hasIndicator, isUnknown] using null)]
      exact decode_of_partsAt (fun sentinel => by cases sentinel.1) found lies value
  | sentinel =>
    rw [if_neg (by simp [hasIndicator])]
    simp only [Bool.and_eq_true, decide_eq_true_eq, ← isSentinel_iff found lies] at value
    split at value
    next null => rw [Codec.decode, if_pos ⟨rfl, null⟩, value]
    next present => exact decode_of_partsAt (fun sentinel => present sentinel.2) found lies value

theorem TupleMeans.decode {values : List Datum} (means : m.TupleMeans encoding readable offset layout.fields values)
    (placed : TupleLayout.Placed encoding layout.fields low high) :
    layout.decode encoding m.readBytes (scratchAddress offset) = values := by
  have flagged := placed.flagged
  unfold TupleLayout.decode
  generalize layout.fields = fields at means flagged
  induction means with
  | nil => rfl
  | cons head _ ih =>
    rw [List.map_cons, head.decodeField (flagged _ List.mem_cons_self),
      ih fun field member => flagged field (List.mem_cons_of_mem _ member)]

end Machine

namespace TupleLayout

theorem decodeField_named (encoding : NullEncoding) (read : MemoryReader) (a : Word) (field : TupleField) :
    decodeField encoding read a (named field) = decodeField encoding read a field := by
  unfold decodeField named
  by_cases isUnknown : field.ty.isUnknown = true
  · rw [if_pos isUnknown, if_pos isUnknown]
    rfl
  · rw [if_neg isUnknown]

/-- Tuples that lie alike are decoded alike. -/
theorem decode_of_shares {other : TupleLayout} (shared : layout.shares other = true) (encoding : NullEncoding)
    (read : MemoryReader) (a : Word) : other.decode encoding read a = layout.decode encoding read a := by
  have each (layout : TupleLayout) : layout.decode encoding read a =
      (layout.fields.map named).map (decodeField encoding read a) := by
    rw [decode, List.map_map]
    exact List.map_congr_left fun field _ => (decodeField_named encoding read a field).symm
  rw [each, each, of_decide_eq_true shared]

end TupleLayout

end QueryEngine
