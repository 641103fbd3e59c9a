import Mathlib.Data.Nat.Log
import QueryEngine.Proofs.Memory.Building

namespace QueryEngine

open private Nat.nextPowerOfTwo.go from Init.Data.Nat.Power2.Basic in
/-- Doubling stops at the first power of two that is large enough. -/
theorem nextPowerOfTwo_go_le_iff (n : Nat) {power j k : Nat} (positive : power > 0) (isPower : power = 2 ^ j) :
    Nat.nextPowerOfTwo.go n power positive ≤ 2 ^ k ↔ n ≤ 2 ^ k ∧ power ≤ 2 ^ k := by
  unfold Nat.nextPowerOfTwo.go
  split
  next less =>
    rw [nextPowerOfTwo_go_le_iff n (Nat.mul_pos positive (by decide)) (by rw [isPower, ← Nat.pow_succ])]
    refine and_congr_right fun fits => ⟨by omega, fun _ => ?_⟩
    have shorter : j < k := (Nat.pow_lt_pow_iff_right (by decide)).mp (isPower ▸ Nat.lt_of_lt_of_le less fits)
    rw [isPower, ← Nat.pow_succ]
    exact Nat.pow_le_pow_right (by decide) shorter
  next enough => exact ⟨fun fits => ⟨by omega, fits⟩, And.right⟩
termination_by n - power

theorem powerOfTwoAbove_le_iff (n k : Nat) : powerOfTwoAbove n ≤ 2 ^ k ↔ n ≤ 2 ^ k := by
  have search := @nextPowerOfTwo_go_le_iff n 1 0 k (by decide) rfl
  exact search.trans (and_iff_left Nat.one_le_two_pow)

theorem bucketsFor_le_iff (count k : Nat) : bucketsFor count ≤ 2 ^ k ↔ 4 * count ≤ 3 * 2 ^ k := by
  have positive := Nat.two_pow_pos k
  rw [bucketsFor, powerOfTwoAbove_le_iff]
  omega

theorem load_bucketsFor (count : Nat) : 4 * count ≤ 3 * bucketsFor count := by
  obtain ⟨k, power⟩ := exists_bucketsFor_eq count
  rw [power, ← bucketsFor_le_iff, power]

/-- A power of two is left as it is. -/
theorem powerOfTwoAbove_bucketsFor (count : Nat) : powerOfTwoAbove (max 1 (bucketsFor count)) = bucketsFor count := by
  obtain ⟨k, power⟩ := exists_bucketsFor_eq count
  obtain ⟨j, above⟩ : ∃ j, powerOfTwoAbove (max 1 (bucketsFor count)) = 2 ^ j := Nat.isPowerOfTwo_nextPowerOfTwo _
  refine Nat.le_antisymm ?_ ?_
  · rw [power, powerOfTwoAbove_le_iff]
    exact Nat.max_le.mpr ⟨Nat.one_le_two_pow, Nat.le_refl _⟩
  · rw [above]
    exact Nat.le_trans (Nat.le_max_right 1 _) ((powerOfTwoAbove_le_iff _ j).mp (Nat.le_of_eq above))

namespace ChainTable

variable {ν : Type} {table : ChainTable ν}

/-- A table with room for all pairs, even if no two hash codes are the same, never gets more buckets. -/
theorem foldl_insert_of_room (pairs : List (Word × ν)) (room : 4 * (table.distinct + pairs.length) ≤ 3 * table.bucketCount) :
    (pairs.foldl (fun table pair => table.insert pair.1 pair.2) table).bucketCount = table.bucketCount ∧
      (pairs.foldl (fun table pair => table.insert pair.1 pair.2) table).rehashes = table.rehashes := by
  induction pairs generalizing table with
  | nil => exact ⟨rfl, rfl⟩
  | cons pair pairs ih =>
    rw [List.length_cons] at room
    have size := link_size table ⟨table.count, pair.1, pair.2⟩
    have counted := link_distinct_le table ⟨table.count, pair.1, pair.2⟩
    have light : table.insert pair.1 pair.2 =
        { table.link ⟨table.count, pair.1, pair.2⟩ with count := table.count + 1 } := by
      refine if_neg fun heavy => ?_
      have := of_decide_eq_true heavy
      unfold bucketCount at *
      dsimp only at this
      omega
    rw [List.foldl_cons, light]
    unfold bucketCount at *
    have rest := @ih { table.link ⟨table.count, pair.1, pair.2⟩ with count := table.count + 1 }
      (by dsimp only; rw [size]; omega)
    exact ⟨rest.1.trans size, rest.2⟩

end ChainTable

/-- The buckets for `n` entries are the least power of two of which they fill at most three quarters. So a table that is
filled with so many entries is never rehashed, and one that is built from a list is not overfilled. -/
theorem buckets_meet_load (ν : Type) (n : Nat) :
    ((∃ k, bucketsFor n = 2 ^ k) ∧ 4 * n ≤ 3 * bucketsFor n ∧ ∀ k, 4 * n ≤ 3 * 2 ^ k → bucketsFor n ≤ 2 ^ k) ∧
    (∀ pairs : List (Word × ν), (ChainTable.ofList pairs).bucketCount = bucketsFor pairs.length ∧
      (ChainTable.ofList pairs).rehashes = 0) ∧
    ∀ list : JoinList ν, list.build.bucketCount = bucketsFor list.size ∧ list.build.entries.length = list.size ∧
      4 * list.build.entries.length ≤ 3 * list.build.bucketCount := by
  refine ⟨⟨exists_bucketsFor_eq n, load_bucketsFor n, fun k => (bucketsFor_le_iff n k).mpr⟩, fun pairs => ?_,
    fun list => ?_⟩
  · have size : (ChainTable.withBuckets (bucketsFor pairs.length) : ChainTable ν).bucketCount =
        bucketsFor pairs.length := by
      rw [ChainTable.bucketCount, ChainTable.withBuckets, Array.size_replicate, powerOfTwoAbove_bucketsFor]
    have room : 4 * (0 + pairs.length) ≤ 3 * (ChainTable.withBuckets (bucketsFor pairs.length) : ChainTable ν).bucketCount := by
      rw [size, Nat.zero_add]
      exact load_bucketsFor _
    have filled := @ChainTable.foldl_insert_of_room ν (.withBuckets (bucketsFor pairs.length)) pairs room
    exact ⟨filled.1.trans size, filled.2⟩
  · have count : list.build.bucketCount = bucketsFor list.size := by
      rw [JoinTable.bucketCount, list.chains_build, ChainTable.size_built]
    have entries : list.build.entries.length = list.size := by
      rw [(JoinTable.walks_eq list.chains_build).1, (ChainTable.Holds.built (bucketsFor_pos _) _).same.length_eq,
        List.length_reverse, JoinList.size]
    rw [count, entries]
    exact ⟨rfl, rfl, load_bucketsFor _⟩

end QueryEngine
