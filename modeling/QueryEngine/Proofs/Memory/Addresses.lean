import Mathlib.Algebra.Ring.Nat
import QueryEngine.Code.Program

namespace QueryEngine

/-- The place has an address of its own. -/
structure Place.Valid (place : Place) : Prop where
  offset : place.offset < place.arena.span
  region : (place.region + 2) * place.arena.span ≤ arenaSpan

namespace Arena

theorem ofCode_code (arena : Arena) : ofCode arena.code = arena := by
  cases arena <;> rfl

theorem code_le (arena : Arena) : arena.code ≤ 3 := by
  cases arena <;> decide

theorem span_pos (arena : Arena) : 0 < arena.span := by
  cases arena <;> decide

end Arena

variable {place : Place}

namespace Place

theorem Valid.inner_lt (valid : place.Valid) : (place.region + 1) * place.arena.span + place.offset < arenaSpan := by
  have offset := valid.offset
  have region := valid.region
  rw [show (place.region + 2) * place.arena.span = (place.region + 1) * place.arena.span + place.arena.span by
    rw [← Nat.succ_mul]] at region
  omega

theorem address_toNat (valid : place.Valid) : place.address.toNat =
    place.arena.code * arenaSpan + ((place.region + 1) * place.arena.span + place.offset) := by
  have code := place.arena.code_le
  have inner := valid.inner_lt
  unfold arenaSpan at inner
  rw [address, UInt64.toNat_ofNat', Nat.mod_eq_of_lt, Nat.add_assoc]
  unfold arenaSpan
  omega

theorem div_mod_of_lt {quotient divisor rest : Nat} (less : rest < divisor) :
    (quotient * divisor + rest) / divisor = quotient ∧ (quotient * divisor + rest) % divisor = rest := by
  rw [Nat.add_comm, Nat.add_mul_div_right _ _ (Nat.zero_lt_of_lt less), Nat.div_eq_of_lt less, Nat.zero_add,
    Nat.add_mul_mod_self_right, Nat.mod_eq_of_lt less]
  exact ⟨rfl, rfl⟩

theorem placeAt?_of_parts {a : Word} (code : a.toNat / arenaSpan = place.arena.code)
    (rest : a.toNat % arenaSpan = (place.region + 1) * place.arena.span + place.offset)
    (bound : place.offset < place.arena.span) : placeAt? a = some place := by
  obtain ⟨region, offset⟩ := @div_mod_of_lt (place.region + 1) _ _ bound
  unfold placeAt?
  simp only [code, rest, Arena.ofCode_code, region, offset]

/-- Every place can be told from its address. -/
theorem placeAt?_address (valid : place.Valid) : placeAt? place.address = some place := by
  obtain ⟨code, rest⟩ := @div_mod_of_lt place.arena.code _ _ valid.inner_lt
  rw [← address_toNat valid] at code rest
  exact placeAt?_of_parts code rest valid.offset

theorem address_add (arena : Arena) (region offset more : Nat) :
    address ⟨arena, region, offset⟩ + UInt64.ofNat more = address ⟨arena, region, offset + more⟩ := by
  simp only [address, ← UInt64.ofNat_add, Nat.add_assoc]

theorem address_inj {first second : Place} (validFirst : first.Valid) (validSecond : second.Valid)
    (same : first.address = second.address) : first = second := by
  have found := congrArg placeAt? same
  rw [placeAt?_address validFirst, placeAt?_address validSecond] at found
  exact Option.some.inj found

theorem address_ne_zero (valid : place.Valid) : place.address ≠ 0 := by
  intro zero
  have found := placeAt?_address valid
  rw [zero] at found
  cases found

end Place

variable {heap : TextHeap}

namespace TextHeap

/-- Every byte of every string has an address of its own. -/
structure Addressable (heap : TextHeap) : Prop where
  count : (heap.texts.size + 1) * heap.arena.span ≤ arenaSpan
  lengths : ∀ text ∈ heap.texts.toList, text.size ≤ heap.arena.span

instance : Decidable heap.Addressable :=
  decidable_of_iff ((heap.texts.size + 1) * heap.arena.span ≤ arenaSpan ∧
    ∀ text ∈ heap.texts.toList, text.size ≤ heap.arena.span)
    ⟨fun ⟨count, lengths⟩ => ⟨count, lengths⟩, fun ⟨count, lengths⟩ => ⟨count, lengths⟩⟩

theorem Addressable.valid (addressable : heap.Addressable) (found : heap.texts.toList[region]? = some text)
    (bound : offset < text.size) :
    Place.Valid ⟨heap.arena, region, offset⟩ := by
  have length := addressable.lengths text (List.mem_of_getElem? found)
  have less := (List.getElem?_eq_some_iff.mp found).1
  exact ⟨Nat.lt_of_lt_of_le bound length,
    Nat.le_trans (Nat.mul_le_mul_right _ (Nat.succ_le_succ less)) addressable.count⟩

/-- Whatever is interned has addresses of its own. -/
theorem Addressable.intern (addressable : heap.Addressable) (room : heap.hasRoom bytes = true) :
    (heap.intern bytes).2.Addressable := by
  simp only [hasRoom, Bool.and_eq_true, decide_eq_true_eq] at room
  refine ⟨by simpa [TextHeap.intern, size] using room.1, fun text member => ?_⟩
  simp only [TextHeap.intern, Array.toList_push, List.mem_append, List.mem_singleton] at member
  rcases member with old | rfl
  · exact addressable.lengths text old
  · have long := room.2
    split
    · exact Nat.le_trans (Nat.le_max_left _ _) long
    · rw [List.size_toByteArray]
      exact Nat.le_trans (Nat.le_max_right _ _) long

theorem intern?_eq_some (found : heap.intern? bytes = some (a, heap')) :
    heap.hasRoom bytes = true ∧ heap.intern bytes = (a, heap') := by
  unfold intern? at found
  split at found
  next room => exact ⟨room, Option.some.inj found⟩
  · cases found

end TextHeap

/-- Code can name every literal by its address. -/
structure Program.Addressable (p : Program) : Prop where
  arena : p.literals.arena = .literal
  literals : p.literals.Addressable

instance (p : Program) : Decidable p.Addressable :=
  decidable_of_iff (p.literals.arena = .literal ∧ p.literals.Addressable)
    ⟨fun ⟨arena, literals⟩ => ⟨arena, literals⟩, fun ⟨arena, literals⟩ => ⟨arena, literals⟩⟩

end QueryEngine
