import QueryEngine.Machine.Run
import QueryEngine.Proofs.Memory.Addresses

namespace QueryEngine

open List
open Word hiding bytes

variable {m m' : Machine}

namespace Word

theorem ofBytes_bytes_toNat (count : Nat) (w : Word) (few : count ≤ 8) :
    (ofBytes (bytes count w)).toNat = w.toNat % 256 ^ count := by
  induction count generalizing w with
  | zero => simp [bytes, ofBytes, Nat.mod_one]
  | succ count ih =>
    have rest := ih (w >>> 8) (by omega)
    have shifted : (w >>> 8).toNat = w.toNat / 256 := by
      simp [UInt64.toNat_shiftRight, Nat.shiftRight_eq_div_pow]
    rw [shifted] at rest
    have small : (ofBytes (bytes count (w >>> 8))).toNat < 2 ^ 56 := by
      rw [rest]
      refine Nat.lt_of_lt_of_le (Nat.mod_lt _ (Nat.pow_pos (by decide))) ?_
      calc 256 ^ count ≤ 256 ^ 7 := Nat.pow_le_pow_right (by decide) (by omega)
        _ = 2 ^ 56 := by decide
    have low : w.toUInt8.toUInt64.toNat = w.toNat % 256 := by simp
    have high : (ofBytes (bytes count (w >>> 8)) <<< 8).toNat = (w.toNat / 256 % 256 ^ count) <<< 8 := by
      rw [UInt64.toNat_shiftLeft, ← rest]
      exact Nat.mod_eq_of_lt (by rw [Nat.shiftLeft_eq]; change _ * 256 < _; omega)
    rw [bytes, ofBytes, UInt64.toNat_or, low, high, Nat.or_comm,
      ← Nat.shiftLeft_add_eq_or_of_lt (by omega : w.toNat % 256 < 2 ^ 8), Nat.shiftLeft_eq,
      Nat.pow_succ' (n := count), Nat.mod_mul]
    omega

theorem bytes_length (count : Nat) (w : Word) : (bytes count w).length = count := by
  induction count generalizing w with
  | zero => rfl
  | succ count ih => rw [bytes, length_cons, ih]

theorem ofBytes_bytes (w : Word) : ofBytes (bytes 8 w) = w := by
  apply UInt64.toNat_inj.mp
  rw [ofBytes_bytes_toNat 8 w (by decide)]
  exact Nat.mod_eq_of_lt w.toNat_lt

end Word

/-- As many bytes are stored as a register of the type needs. -/
theorem CodeType.normalize_ofBytes_bytes (ty : CodeType) (w : Word) :
    ty.normalize (ofBytes (Word.bytes ty.storeSize w)) = ty.normalize w := by
  have stored := ofBytes_bytes_toNat ty.storeSize w (by cases ty <;> decide)
  cases ty with
  | i1 =>
    apply UInt64.toNat_inj.mp
    simp only [normalize, UInt64.toNat_and, stored]
    simp only [UInt64.toNat_one, Nat.and_one_is_mod, storeSize]
    omega
  | i8 =>
    have same : (ofBytes (Word.bytes i8.storeSize w)).toUInt8 = w.toUInt8 := by
      apply UInt8.toNat_inj.mp
      rw [UInt64.toNat_toUInt8, UInt64.toNat_toUInt8, stored, storeSize]
      omega
    simp only [normalize, same]
  | i32 =>
    have same : (ofBytes (Word.bytes i32.storeSize w)).toUInt32 = w.toUInt32 := by
      apply UInt32.toNat_inj.mp
      rw [UInt64.toNat_toUInt32, UInt64.toNat_toUInt32, stored, storeSize]
      omega
    simp only [normalize, same]
  | i64 | ptr => exact ofBytes_bytes w

variable {offset count other : Nat}

namespace Machine

/-- The bytes of the scratch arena that have addresses. -/
def scratchSpan : Nat := Arena.scratch.span

theorem scratch_valid (inside : offset < scratchSpan) : Place.Valid ⟨.scratch, 0, offset⟩ :=
  ⟨inside, show (0 + 2) * Arena.scratch.span ≤ arenaSpan by decide⟩

theorem scratchAddress_add (offset more : Nat) :
    scratchAddress offset + UInt64.ofNat more = scratchAddress (offset + more) :=
  Place.address_add .scratch 0 offset more

theorem scratchAddress_inj (insideFirst : first < scratchSpan) (insideSecond : second < scratchSpan)
    (same : scratchAddress first = scratchAddress second) : first = second := by
  have places := Place.address_inj (scratch_valid insideFirst) (scratch_valid insideSecond) same
  exact congrArg Place.offset places

theorem scratchAddress_ne_zero (inside : offset < scratchSpan) : scratchAddress offset ≠ 0 :=
  Place.address_ne_zero (scratch_valid inside)

/-- The byte at an offset of the scratch arena. -/
def cell (m : Machine) (offset : Nat) : UInt8 := m.byteAt (scratchAddress offset)

theorem cell_eq (m : Machine) (inside : offset < scratchSpan) :
    m.cell offset = m.scratch.getD (scratchAddress offset) 0 := by
  rw [cell, byteAt, scratchAddress, Place.placeAt?_address (scratch_valid inside)]

theorem setByte_scratch (m : Machine) (inside : offset < scratchSpan) (b : UInt8) :
    m.setByte (scratchAddress offset) b = { m with scratch := m.scratch.insert (scratchAddress offset) b } := by
  rw [setByte, scratchAddress, Place.placeAt?_address (scratch_valid inside)]

theorem cell_setByte (m : Machine) (inside : offset < scratchSpan) (b : UInt8) (otherInside : other < scratchSpan) :
    (m.setByte (scratchAddress offset) b).cell other = if other = offset then b else m.cell other := by
  rw [setByte_scratch m inside, cell_eq _ otherInside, cell_eq _ otherInside, Std.HashMap.getD_insert]
  by_cases same : other = offset
  · simp [same]
  · have different : scratchAddress offset ≠ scratchAddress other := fun equal =>
      same (scratchAddress_inj inside otherInside equal).symm
    simp [same, different]

/-- Two machines that differ in the bytes of the scratch arena at most. -/
structure SameButScratch (m m' : Machine) : Prop where
  program : m'.program = m.program
  database : m'.database = m.database
  settings : m'.settings = m.settings
  taken : m'.taken = m.taken
  objects : m'.objects = m.objects
  pending : m'.pending = m.pending
  outcome : m'.outcome = m.outcome

theorem SameButScratch.refl (m : Machine) : m.SameButScratch m := ⟨rfl, rfl, rfl, rfl, rfl, rfl, rfl⟩

theorem SameButScratch.trans {m1 m2 m3 : Machine} (first : m1.SameButScratch m2) (second : m2.SameButScratch m3) :
    m1.SameButScratch m3 where
  program := second.program.trans first.program
  database := second.database.trans first.database
  settings := second.settings.trans first.settings
  taken := second.taken.trans first.taken
  objects := second.objects.trans first.objects
  pending := second.pending.trans first.pending
  outcome := second.outcome.trans first.outcome

theorem writeBytes_sameButScratch (m : Machine) {bytes : Bytes} (inside : offset + bytes.length ≤ scratchSpan) :
    m.SameButScratch (m.writeBytes (scratchAddress offset) bytes) := by
  induction bytes generalizing m offset with
  | nil => exact .refl m
  | cons b bytes ih =>
    rw [length_cons] at inside
    have first : m.SameButScratch (m.setByte (scratchAddress offset) b) := by
      rw [setByte_scratch m (by omega)]
      exact ⟨rfl, rfl, rfl, rfl, rfl, rfl, rfl⟩
    have next : scratchAddress offset + 1 = scratchAddress (offset + 1) := scratchAddress_add offset 1
    rw [writeBytes, next]
    exact first.trans (ih _ (by omega))

theorem cell_writeBytes (m : Machine) (inside : offset + bytes.length ≤ scratchSpan) (otherInside : other < scratchSpan) :
    (m.writeBytes (scratchAddress offset) bytes).cell other =
      if offset ≤ other then bytes.getD (other - offset) (m.cell other) else m.cell other := by
  induction bytes generalizing m offset with
  | nil => simp [writeBytes]
  | cons b bytes ih =>
    rw [length_cons] at inside
    have next : scratchAddress offset + 1 = scratchAddress (offset + 1) := scratchAddress_add offset 1
    rw [writeBytes, next, ih _ (by omega), cell_setByte m (by omega) b otherInside]
    by_cases here : other = offset
    · subst here
      rw [if_neg (by omega), if_pos rfl, if_pos (Nat.le_refl _), Nat.sub_self]
      rfl
    · by_cases later : offset ≤ other
      · have position : other - offset = (other - (offset + 1)) + 1 := by omega
        rw [if_pos (by omega), if_pos later, if_neg here, position, getD_cons_succ]
      · rw [if_neg (by omega), if_neg later, if_neg here]

theorem readBytes_scratch (m : Machine) (offset count : Nat) :
    m.readBytes (scratchAddress offset) count = (List.range count).map fun i => m.cell (offset + i) := by
  simp only [readBytes, cell, scratchAddress_add]

/-- What is read depends on the bytes that are read. -/
theorem readBytes_congr (same : ∀ i, offset ≤ i → i < offset + count → m'.cell i = m.cell i) :
    m'.readBytes (scratchAddress offset) count = m.readBytes (scratchAddress offset) count := by
  rw [readBytes_scratch, readBytes_scratch]
  refine map_congr_left fun i member => same _ (by omega) ?_
  have bound := mem_range.mp member
  omega

theorem load_congr (same : ∀ i, offset ≤ i → i < offset + count → m'.cell i = m.cell i) :
    m'.load count (scratchAddress offset) = m.load count (scratchAddress offset) :=
  congrArg ofBytes (readBytes_congr same)

section

variable (m : Machine) {offset count : Nat} (w : Word) (inside : offset + count ≤ scratchSpan)

include inside

theorem store_sameButScratch : m.SameButScratch (m.store count (scratchAddress offset) w) :=
  writeBytes_sameButScratch m (by rwa [bytes_length])

theorem cell_store_other (otherInside : other < scratchSpan) (apart : other < offset ∨ offset + count ≤ other) :
    (m.store count (scratchAddress offset) w).cell other = m.cell other := by
  rw [store, cell_writeBytes m (by rwa [bytes_length]) otherInside]
  split
  · rw [getD_eq_getElem?_getD, getElem?_eq_none (by rw [bytes_length]; omega), Option.getD_none]
  · rfl

theorem load_store : (m.store count (scratchAddress offset) w).load count (scratchAddress offset) =
    ofBytes (Word.bytes count w) := by
  rw [load, readBytes_scratch]
  congr 1
  refine ext_getElem (by simp [bytes_length]) fun i bound _ => ?_
  have small : i < count := by simpa using bound
  rw [getElem_map, getElem_range, store, cell_writeBytes m (by rwa [bytes_length]) (by omega),
    if_pos (by omega), Nat.add_sub_cancel_left, getD_eq_getElem?_getD, getElem?_eq_getElem,
    Option.getD_some]

end

/-- Only bytes from the first offset up to the last one have been written. -/
structure Writes (m : Machine) (first last : Nat) (m' : Machine) : Prop extends m.SameButScratch m' where
  keeps : ∀ i, i < scratchSpan → i < first ∨ last ≤ i → m'.cell i = m.cell i

namespace Writes

variable {first' last' : Nat}

theorem refl (m : Machine) (first last : Nat) : m.Writes first last m := ⟨.refl m, fun _ _ _ => rfl⟩

theorem mono (writes : m.Writes first last m1) (lower : first' ≤ first) (upper : last ≤ last') :
    m.Writes first' last' m1 :=
  ⟨writes.toSameButScratch, fun i inside away => writes.keeps i inside (by omega)⟩

theorem trans (writes : m.Writes first last m1) (more : m1.Writes first last m2) : m.Writes first last m2 :=
  ⟨writes.toSameButScratch.trans more.toSameButScratch,
    fun i inside away => (more.keeps i inside away).trans (writes.keeps i inside away)⟩

theorem load (writes : m.Writes first last m1) (inside : offset + count ≤ scratchSpan)
    (away : offset + count ≤ first ∨ last ≤ offset) :
    m1.load count (scratchAddress offset) = m.load count (scratchAddress offset) :=
  load_congr fun i _ _ => writes.keeps i (by omega) (by omega)

end Writes

theorem store_writes (m : Machine) (w : Word) (inside : offset + count ≤ scratchSpan) :
    m.Writes offset (offset + count) (m.store count (scratchAddress offset) w) :=
  ⟨store_sameButScratch m w inside, fun _ small away => cell_store_other m w inside small away⟩

/-- One byte, as the word it is loaded as. -/
theorem load_one (m : Machine) (offset : Nat) : m.load 1 (scratchAddress offset) = (m.cell offset).toUInt64 := by
  rw [load, readBytes_scratch]
  simp [ofBytes]

end Machine

end QueryEngine
