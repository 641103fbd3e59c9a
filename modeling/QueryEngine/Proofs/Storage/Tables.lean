import Mathlib.Data.Nat.Bitwise
import QueryEngine.Proofs.Expression.Registers
import QueryEngine.Proofs.Memory.Scratch

namespace QueryEngine

variable {i : Nat} {bytes : Bytes} {heap heap' : TextHeap} {value : Datum}

namespace Word

theorem toNat_bit (small : i < 64) : (bit i).toNat = 2 ^ i := by
  have power : 2 ^ i < 2 ^ 64 := Nat.pow_lt_pow_right (by decide) small
  rw [bit, UInt64.toNat_shiftLeft, UInt64.toNat_ofNat', UInt64.toNat_one, Nat.one_shiftLeft,
    Nat.mod_eq_of_lt (by omega : i < 2 ^ 64), Nat.mod_eq_of_lt small, Nat.mod_eq_of_lt power]

theorem hasBit_eq (w : Word) (small : i < 64) : w.hasBit i = w.toNat.testBit i := by
  have masked : (w &&& bit i).toNat = (w.toNat.testBit i).toNat * 2 ^ i := by
    rw [UInt64.toNat_and, toNat_bit small, Nat.and_two_pow]
  have positive : 0 < 2 ^ i := Nat.two_pow_pos i
  cases set : w.toNat.testBit i with
  | false =>
    rw [set, Bool.toNat_false, Nat.zero_mul] at masked
    have zero : w &&& bit i = 0 := UInt64.toNat_inj.mp masked
    simp [hasBit, zero]
  | true =>
    rw [set, Bool.toNat_true, Nat.one_mul] at masked
    have other : w &&& bit i ≠ 0 := by
      intro zero
      rw [zero] at masked
      change 0 = 2 ^ i at masked
      omega
    simp [hasBit, other]

theorem hasBit_zero : (0 : Word).hasBit i = false := by
  simp [hasBit]

theorem hasBit_setBit (w : Word) (small : i < 64) (small' : j < 64) :
    (w.setBit i).hasBit j = (decide (i = j) || w.hasBit j) := by
  rw [hasBit_eq _ small', hasBit_eq _ small', setBit, UInt64.toNat_or, toNat_bit small, Nat.testBit_or,
    Nat.testBit_two_pow, Bool.or_comm]

theorem hasBit_clearBit (w : Word) (small : i < 64) (small' : j < 64) :
    (w.clearBit i).hasBit j = (!decide (i = j) && w.hasBit j) := by
  have flipped : (~~~ bit i).toNat.testBit j = !decide (i = j) := by
    have all : (~~~ bit i).toBitVec.getLsbD j = !(bit i).toBitVec.getLsbD j := by
      simp [small']
    have one : (bit i).toBitVec.getLsbD j = decide (i = j) := by
      change (bit i).toNat.testBit j = _
      rw [toNat_bit small, Nat.testBit_two_pow]
    rw [one, ← BitVec.testBit_toNat] at all
    exact all
  rw [hasBit_eq _ small', hasBit_eq _ small', clearBit, UInt64.toNat_and, Nat.testBit_and, flipped, Bool.and_comm]
end Word

namespace Growable

variable {α : Type} {v : Growable α} {a : α}

/-- There is room for every element, and for doubling. -/
structure Valid (v : Growable α) : Prop where
  room : v.size ≤ v.slots.size
  positive : 0 < v.slots.size

theorem get?_eq (inside : i < v.size) : v.get? i = v.slots[i]? := if_pos inside

theorem Valid.get?_isSome (valid : v.Valid) (inside : i < v.size) : ∃ a, v.get? i = some a := by
  have bound : i < v.slots.size := Nat.lt_of_lt_of_le inside valid.room
  exact ⟨v.slots[i], (get?_eq inside).trans (Array.getElem?_eq_getElem bound)⟩

theorem Valid.empty [Inhabited α] : (Growable.empty : Growable α).Valid := by
  constructor <;> simp [Growable.empty, leastCapacity]

theorem Valid.roomier [Inhabited α] (valid : v.Valid) : v.size < v.roomier.size ∧ v.slots.size ≤ v.roomier.size := by
  have room := valid.room
  have positive := valid.positive
  unfold Growable.roomier capacity
  split
  · simp
    omega
  · omega

theorem Valid.push [Inhabited α] (valid : v.Valid) (a : α) : (v.push a).Valid := by
  obtain ⟨room, more⟩ := valid.roomier
  have positive := valid.positive
  constructor
  · simp only [Growable.push, Array.size_setIfInBounds]
    omega
  · simp only [Growable.push, Array.size_setIfInBounds]
    omega

theorem Valid.get?_push [Inhabited α] (valid : v.Valid) (a : α) :
    (v.push a).get? i = if i = v.size then some a else v.get? i := by
  obtain ⟨room, more⟩ := valid.roomier
  have old (inside : i < v.size) : v.roomier[i]? = v.slots[i]? := by
    unfold Growable.roomier
    split
    · exact Array.getElem?_append_left (Nat.lt_of_lt_of_le inside valid.room)
    · rfl
  simp only [get?, Growable.push, Array.getElem?_setIfInBounds]
  rcases Nat.lt_trichotomy i v.size with less | rfl | greater
  · rw [if_pos (by omega), if_neg (by omega), if_neg (by omega), if_pos less, old less]
  · rw [if_pos (by omega), if_pos rfl, if_pos room, if_pos rfl]
  · rw [if_neg (by omega), if_neg (by omega), if_neg (by omega)]

theorem Valid.set (valid : v.Valid) (i : Nat) (a : α) : (v.set i a).Valid := by
  unfold Growable.set
  split
  · exact ⟨by simpa using valid.room, by simpa using valid.positive⟩
  · exact valid

@[simp] theorem set_size (v : Growable α) (i : Nat) (a : α) : (v.set i a).size = v.size := by
  unfold set
  split <;> rfl

theorem Valid.get?_set (valid : v.Valid) (inside : j < v.size) (a : α) :
    (v.set j a).get? i = if i = j then some a else v.get? i := by
  have bound : j < v.slots.size := Nat.lt_of_lt_of_le inside valid.room
  unfold Growable.set
  rw [if_pos inside]
  simp only [get?, Array.getElem?_setIfInBounds]
  by_cases same : i = j
  · subst same
    rw [if_pos inside, if_pos rfl, if_pos bound, if_pos rfl]
  · rw [if_neg same, if_neg (Ne.symm same)]

theorem Valid.map (valid : v.Valid) (f : α → α) : (v.map f).Valid :=
  ⟨by simpa [Growable.map] using valid.room, by simpa [Growable.map] using valid.positive⟩

theorem get?_map (v : Growable α) (f : α → α) (i : Nat) : (v.map f).get? i = (v.get? i).map f := by
  unfold get? Growable.map
  split
  next inside =>
    rw [Array.getElem?_mapIdx]
    simp only [if_pos inside]
  · rfl

end Growable

theorem Checked.orTrap_ok (gives : (Checked.orTrap x? : Checked ε α) = .ok x) : x? = some x := by
  cases x? with
  | none => cases gives
  | some _ => cases gives; rfl

variable {region : Nat}

namespace TextHeap

/-- The texts of a database, all of which have addresses. -/
structure Valid (heap : TextHeap) : Prop where
  arena : heap.arena = .text
  addressable : heap.Addressable

/-- A text of the heap can be read at its address. -/
theorem Valid.byteAt (valid : heap.Valid) (found : heap.texts.toList[region]? = some (stored bytes))
    (bound : i < bytes.length) :
    placeAt? (regionAddress .text region + UInt64.ofNat i) = some ⟨.text, region, i⟩ ∧ heap.byteAt region i = bytes[i] := by
  have present : bytes ≠ [] := by
    rintro rfl
    cases bound
  have place := valid.addressable.valid found (stored_size present ▸ bound)
  rw [valid.arena] at place
  refine ⟨?_, byteAt_stored found bound⟩
  rw [regionAddress, Place.address_add, Nat.zero_add, Place.placeAt?_address place]

theorem Valid.read (valid : heap.Valid) (found : heap.texts.toList[region]? = some (stored bytes)) :
    heap.read (regionAddress .text region) bytes.length = bytes := by
  refine List.ext_getElem (by simp [TextHeap.read]) fun i _ bound => ?_
  obtain ⟨place, byte⟩ := valid.byteAt found bound
  simp [TextHeap.read, place, valid.arena, byte]

theorem Valid.intern (valid : heap.Valid) (found : heap.intern? bytes = some (a, heap')) :
    heap'.Valid ∧ heap.Grows heap' ∧
      ∃ region, a = regionAddress .text region ∧ heap'.texts.toList[region]? = some (stored bytes) := by
  obtain ⟨room, interned⟩ := intern?_eq_some found
  have addressable := valid.addressable.intern room
  have grows := Grows.intern heap bytes
  have added : (heap.intern bytes).2.texts.toList[heap.size]? = some (stored bytes) := by
    simp [TextHeap.intern, stored, TextHeap.size]
  have address : (heap.intern bytes).1 = regionAddress .text heap.size := by rw [TextHeap.intern, valid.arena]
  rw [interned] at addressable grows added address
  exact ⟨⟨grows.arena.trans valid.arena, addressable⟩, grows, heap.size, address, added⟩

theorem Valid.length_lt (valid : heap.Valid) (found : heap.texts.toList[region]? = some (stored bytes)) :
    bytes.length < 2 ^ 63 := by
  by_cases empty : bytes = []
  · rw [empty]
    decide
  · have length := valid.addressable.lengths _ (List.mem_of_getElem? found)
    rw [stored_size empty, valid.arena] at length
    exact Nat.lt_of_le_of_lt length (by decide)

theorem Grows.text (grows : heap.Grows heap') {text : ByteArray}
    (found : heap.texts.toList[region]? = some text) : heap'.texts.toList[region]? = some text := by
  obtain ⟨_, all⟩ := grows.texts
  rw [← all, List.getElem?_append_left (List.getElem?_eq_some_iff.mp found).1, found]

end TextHeap

namespace Codec

/-- The bytes that a cell of type `ty` has for a value. -/
inductive Encoded (encoding : NullEncoding) (heap : TextHeap) (ty : ValueType) : Datum → Bytes → Prop
  | null (nullable : ty.nullable = true) : Encoded encoding heap ty .null (encodeNull encoding ty)
  | bool (shape : ty.shape = .bool) (value : Bool) :
    Encoded encoding heap ty (.bool value) (Word.bytes 1 (Word.ofBool value))
  | integer (shape : ty.shape = .integer) (n : Int32) :
    Encoded encoding heap ty (.integer n) (Word.bytes 4 (Word.ofInt n.toInt))
  | numeric {length precision : UInt8} (shape : ty.shape = .numeric length precision) (raw : Int64) :
    Encoded encoding heap ty (.numeric raw precision) (Word.bytes 8 raw.toUInt64)
  | char {length : UInt16} (shape : ty.shape = .char length) {text : String} {region : Nat}
    (found : heap.texts.toList[region]? = some (TextHeap.stored (textBytes text))) :
    Encoded encoding heap ty (.char text)
      (Word.bytes 8 (regionAddress .text region) ++ Word.bytes 8 (UInt64.ofNat (byteLength text)))
  | varchar {capacity : UInt16} (shape : ty.shape = .varchar capacity) {text : String} {region : Nat}
    (found : heap.texts.toList[region]? = some (TextHeap.stored (textBytes text))) :
    Encoded encoding heap ty (.varchar text)
      (Word.bytes 8 (regionAddress .text region) ++ Word.bytes 8 (UInt64.ofNat (byteLength text)))
  | date (shape : ty.shape = .date) (day : Int32) : Encoded encoding heap ty (.date day) (Word.bytes 4 (Word.ofInt day.toInt))
  | timestamp (shape : ty.shape = .timestamp) (second : Int64) :
    Encoded encoding heap ty (.timestamp second) (Word.bytes 8 second.toUInt64)

variable {encoding : NullEncoding} {ty : ValueType} {d : Datum}

theorem Encoded.mono (encoded : Encoded encoding heap ty d bytes) (grows : heap.Grows heap') :
    Encoded encoding heap' ty d bytes := by
  cases encoded with
  | null nullable => exact .null nullable
  | bool shape value => exact .bool shape value
  | integer shape n => exact .integer shape n
  | numeric shape raw => exact .numeric shape raw
  | char shape found => exact .char shape (grows.text found)
  | varchar shape found => exact .varchar shape (grows.text found)
  | date shape day => exact .date shape day
  | timestamp shape second => exact .timestamp shape second

theorem Encoded.length (encoded : Encoded encoding heap ty d bytes) : bytes.length = ty.size := by
  cases encoded with
  | null =>
    cases encoding with
    | indicator => exact List.length_replicate
    | sentinel =>
      simp only [encodeNull, wordBytes, List.length_append, Word.bytes_length, List.length_replicate]
      omega
  | bool shape | integer shape | numeric shape | date shape | timestamp shape =>
    rw [Word.bytes_length, ValueType.size, shape]
  | char shape | varchar shape => rw [List.length_append, Word.bytes_length, Word.bytes_length, ValueType.size, shape]

/-- NULL goes into nullable columns only. -/
theorem coerce_null (coerced : value.coerce ty = .ok .null) : ty.nullable = true := by
  rcases Datum.coerce_cases coerced with ⟨_, nullable⟩ | fits
  · exact nullable
  · cases fits

/-- What `encode` gives for a value that has been coerced to the type. -/
theorem encode_encoded (valid : heap.Valid) (coerced : value.coerce ty = .ok d)
    (encodes : encode encoding d ty heap = .ok (bytes, heap')) :
    Encoded encoding heap' ty d bytes ∧ heap'.Valid ∧ heap.Grows heap' := by
  have kind (notNull : d.isNull = false) := Datum.coerce_hasShape coerced notNull
  unfold encode at encodes
  split at encodes
  case h_1 =>
    cases encodes
    exact ⟨.null (coerce_null coerced), valid, .refl heap⟩
  case h_2 | h_3 | h_4 | h_5 | h_6 =>
    rename_i shape
    have kind := kind rfl
    rw [shape] at kind
    cases kind
    cases encodes
    constructor
    · constructor
      exact shape
    · exact ⟨valid, .refl heap⟩
  case h_8 | h_9 =>
    rename_i shape
    have kind := kind rfl
    rw [shape] at kind
    cases kind
  case h_7 | h_10 =>
    rename_i shape
    obtain ⟨⟨a, _⟩, found, encodes⟩ := Checked.bind_ok encodes
    cases encodes
    obtain ⟨valid', grows, _, rfl, lies⟩ := valid.intern (Checked.orTrap_ok found)
    refine ⟨?_, valid', grows⟩
    constructor
    · exact shape
    · exact lies
  case h_11 =>
    obtain ⟨_, _, ⟨⟩⟩ := Checked.bind_ok encodes

end Codec

end QueryEngine
