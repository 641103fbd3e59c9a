import Mathlib.Data.List.Pairwise
import QueryEngine.Proofs.Memory.Ownership

namespace QueryEngine

open Option
open Machine hiding taken

open Machine (scratchAddress scratchSpan)

variable {memory : PoolMemory} {m : Machine}

/-- What a pool may have taken from the arena after it has handed out `count` times `unit` bytes. -/
def Pool.cost (unit block count : Nat) : Nat := 4 * (count * unit) + block + 8 * count

theorem Pool.cost_mono (unit block : Nat) (le : count ≤ more) : cost unit block count ≤ cost unit block more := by
  have := Nat.mul_le_mul_right unit le
  unfold cost
  omega

theorem Pool.cost_wider (le : unit ≤ wider) (block count : Nat) : cost unit block count ≤ cost wider block count := by
  have := Nat.mul_le_mul_left count le
  unfold cost
  omega

/-- The pool after `unit` bytes have been handed out of a new block. -/
def Pool.pushed (pool : Pool) (unit : Nat) : Pool where
  blocks := pool.blocks.push ⟨max pool.nextSize unit, unit⟩
  nextSize := min (pool.nextSize * 2) (sizeLimit - 1)
  allocated := pool.allocated + unit

/-- A pool that has handed out `count` times `unit` bytes and has taken `spent` bytes for them. The bytes from `first` up
to `last` are what is left of its last block. -/
structure PoolMemory.Holds (memory : PoolMemory) (unit block count spent first last : Nat) : Prop where
  starts : memory.starts.size = memory.pool.blocks.size
  back : ∃ base size used, memory.pool.blocks.back? = some ⟨size, used⟩ ∧ used ≤ size ∧ first = base + used ∧
    last = base + size ∧ (0 < size → memory.starts.back? = some (scratchAddress base))
  /-- A block is filled before the next one is taken, which is at most as large as all before it and the first one. -/
  filled : ∃ total, total ≤ 2 * (count * unit) + (last - first) ∧ total ≤ 4 * (count * unit) + block ∧
    memory.pool.nextSize ≤ total + block ∧ spent ≤ total + 8 * count

namespace PoolMemory.Holds

variable (holds : memory.Holds unit block count spent first last)

include holds

theorem spent_le : spent ≤ Pool.cost unit block count := by
  obtain ⟨total, _, few, _, taken⟩ := holds.filled
  unfold Pool.cost
  omega

omit holds in
/-- A new pool has nothing. -/
theorem new (found : newPool? size = some memory) : memory.Holds unit (max size 8 + 8) 0 0 0 0 := by
  unfold newPool? Pool.make? Pool.roundUp? at found
  split at found
  · simp only [bind_eq_bind, bind_some, some.injEq] at found
    subst found
    refine ⟨rfl, ⟨0, 0, 0, rfl, Nat.le_refl _, rfl, rfl, fun positive => absurd positive (Nat.lt_irrefl _)⟩,
      ⟨0, by omega, by omega, ?_, by omega⟩⟩
    dsimp only
    omega
  · cases found

/-- A part of the last block. -/
theorem take_last (rounded : Pool.roundUp? n = some unit) (positive : 0 < unit) (fits : first + unit ≤ last) :
    ∃ memory', m.takeFrom? memory n = some (scratchAddress first, memory', m) ∧
      memory'.Holds unit block (count + 1) spent (first + unit) last := by
  obtain ⟨base, size, used, back, inside, rfl, rfl, address⟩ := holds.back
  obtain ⟨total, filled, few, next, taken⟩ := holds.filled
  have start := address (by omega)
  have enough : unit ≤ size - used := by omega
  rw [Array.back?_eq_getElem?] at back start
  have product := Nat.add_one_mul count unit
  let pool' : Pool := { memory.pool with
    blocks := memory.pool.blocks.modify (memory.pool.blocks.size - 1) fun block =>
      { block with used := block.used + unit }
    allocated := memory.pool.allocated + unit }
  have takes : memory.pool.take? n = some (⟨memory.pool.blocks.size - 1, used⟩, pool') := by
    simp [Pool.take?, rounded, Array.back?_eq_getElem?, back, enough, pool']
  have blocks : pool'.blocks.size = memory.pool.blocks.size := by simp [pool']
  refine ⟨⟨pool', memory.starts⟩, ?_, ?_, ?_, ?_⟩
  · unfold takeFrom?
    simp only [takes, bind_eq_bind, bind_some]
    rw [if_pos (by rw [blocks, holds.starts]), Array.getD_eq_getD_getElem?, ← holds.starts, start, getD_some,
      scratchAddress_add]
  · exact holds.starts.trans blocks.symm
  · refine ⟨base, size, used + unit, ?_, by omega, by omega, rfl, fun _ => ?_⟩
    · simp [pool', Array.back?_eq_getElem?, Array.getElem?_modify, back]
    · exact start
  · exact ⟨total, by omega, by omega, next, by omega⟩

/-- A pool takes a new block where the last one is full. -/
theorem take?_new (rounded : Pool.roundUp? n = some unit) (full : last < first + unit)
    (small : ¬Pool.largestBlock < max memory.pool.nextSize unit) :
    memory.pool.take? n = some (⟨memory.pool.blocks.size, 0⟩, memory.pool.pushed unit) := by
  obtain ⟨base, size, used, back, inside, rfl, rfl, _⟩ := holds.back
  have lacks : ¬unit ≤ size - used := by omega
  have grows : memory.pool.grow? unit = some { memory.pool with
      blocks := memory.pool.blocks.push ⟨max memory.pool.nextSize unit, 0⟩
      nextSize := min (memory.pool.nextSize * 2) (Pool.sizeLimit - 1) } := by
    unfold Pool.grow?
    rw [if_neg small]
  have pushed : (memory.pool.blocks.push ⟨max memory.pool.nextSize unit, 0⟩).modify memory.pool.blocks.size
      (fun block => { block with used := block.used + unit }) =
      memory.pool.blocks.push ⟨max memory.pool.nextSize unit, unit⟩ := by
    refine Array.ext (by simp) fun i _ inside => ?_
    rw [Array.size_push] at inside
    simp only [Array.getElem_modify, Array.getElem_push]
    split
    next last =>
      subst last
      simp
    next differs => rw [dif_pos (by omega), dif_pos (by omega)]
  simp [Pool.take?, rounded, back, lacks, grows, pushed, Pool.pushed]

/-- The first part of a new block. -/
theorem take_new (rounded : Pool.roundUp? n = some unit) (full : last < first + unit)
    (room : m.taken + Pool.cost unit block (count + 1) ≤ scratchSpan + spent) :
    ∃ memory' size, m.takeFrom? memory n = some (scratchAddress m.taken, memory',
        { m with taken := m.taken + regionSize size }) ∧ unit ≤ size ∧
      m.taken + regionSize size ≤ scratchSpan ∧
      memory'.Holds unit block (count + 1) (spent + regionSize size) (m.taken + unit) (m.taken + size) := by
  obtain ⟨total, filled, few, next, taken⟩ := holds.filled
  have product := Nat.add_one_mul count unit
  have atLeast : unit ≤ max memory.pool.nextSize unit := Nat.le_max_right _ _
  have region := regionSize_le (max memory.pool.nextSize unit)
  have fits : m.taken + regionSize (max memory.pool.nextSize unit) ≤ scratchSpan := by
    unfold Pool.cost at room
    omega
  have small : ¬Pool.largestBlock < max memory.pool.nextSize unit := by
    have below := lt_regionSize (max memory.pool.nextSize unit)
    have span : scratchSpan = 2 ^ 61 := rfl
    unfold Pool.largestBlock
    omega
  refine ⟨⟨memory.pool.pushed unit, memory.starts.push (scratchAddress m.taken)⟩, max memory.pool.nextSize unit, ?_,
    atLeast, fits, ?_, ?_, ?_⟩
  · unfold takeFrom?
    simp only [holds.take?_new rounded full small, bind_eq_bind, bind_some]
    rw [if_neg (by simp [Pool.pushed, holds.starts])]
    simp [Pool.pushed, newRegion?_eq m fits]
  · simpa [Pool.pushed] using holds.starts
  · exact ⟨m.taken, max memory.pool.nextSize unit, unit, by simp [Pool.pushed], atLeast, rfl, rfl, fun _ => by simp⟩
  · refine ⟨total + max memory.pool.nextSize unit, by omega, by omega, ?_, by omega⟩
    dsimp only [Pool.pushed]
    omega

end PoolMemory.Holds

/-- What belongs to a pool: the places it has handed out, and what is left of its last block. -/
def Pool.parts (unit : Nat) (places : List Nat) (first last : Nat) : Set Part :=
  { part | (∃ place ∈ places, part ∈ Part.range place (place + unit)) ∨ part ∈ Part.range first last }

/-- A pool that has handed out places of `unit` bytes each, which lie apart in memory that has been taken. It has `parts`
for itself, and takes no more than `left` bytes for all up to `most` places. -/
structure PoolMemory.Serves (memory : PoolMemory) (unit block most : Nat) (places : List Nat) (left : Nat)
    (parts : Set Part) (taken : Nat) : Prop where
  apart : places.Pairwise fun a b => a + unit ≤ b ∨ b + unit ≤ a
  inside : ∀ place ∈ places, place + unit ≤ taken
  area : ∃ spent first last, memory.Holds unit block places.length spent first last ∧
    left + spent = Pool.cost unit block most ∧ parts = Pool.parts unit places first last ∧
    (∀ place ∈ places, place + unit ≤ first ∨ last ≤ place) ∧ last ≤ taken

namespace PoolMemory.Serves

variable {places : List Nat}

theorem new (found : newPool? size = some memory) (unit most taken : Nat) :
    memory.Serves unit (max size 8 + 8) most [] (Pool.cost unit (max size 8 + 8) most) ∅ taken := by
  refine ⟨.nil, nofun, 0, 0, 0, .new found, rfl, ?_, nofun, Nat.zero_le _⟩
  refine (Set.eq_empty_of_forall_notMem ?_).symm
  rintro part (⟨_, member, _⟩ | ⟨i, _, upper, _⟩)
  · cases member
  · omega

section

variable (serves : memory.Serves unit block most places left parts taken)

include serves

theorem mono (more : taken ≤ taken') :
    memory.Serves unit block most places left parts taken' := by
  obtain ⟨spent, first, last, holds, budget, own, away, rest⟩ := serves.area
  exact ⟨serves.apart, fun place member => Nat.le_trans (serves.inside place member) more,
    spent, first, last, holds, budget, own, away, Nat.le_trans rest more⟩

omit serves in
theorem has (serves : memory.Serves unit block most places left parts m.taken) (member : part ∈ parts) :
    m.Has part := by
  obtain ⟨_, _, _, _, _, rfl, _, rest⟩ := serves.area
  rcases member with ⟨place, among, i, _, upper, rfl⟩ | ⟨i, _, upper, rfl⟩
  · exact Nat.lt_of_lt_of_le upper (serves.inside place among)
  · exact Nat.lt_of_lt_of_le upper rest

theorem apart_of_ne (member : place ∈ places) (isOther : other ∈ places) (different : place ≠ other) :
    place + unit ≤ other ∨ other + unit ≤ place := by
  have : Std.Symm fun a b : Nat => a + unit ≤ b ∨ b + unit ≤ a := ⟨fun _ _ => Or.symm⟩
  exact serves.apart.forall member isOther different

theorem range_subset (member : place ∈ places) :
    Part.range place (place + unit) ⊆ parts := by
  obtain ⟨_, _, _, _, _, rfl, _⟩ := serves.area
  exact fun part inside => .inl ⟨place, member, inside⟩

end

theorem mem_append_singleton : other ∈ places ++ [place] ↔ other ∈ places ∨ other = place := by
  simp

/-- The next place is a part of the last block, or of memory that nobody has had. -/
theorem take (serves : memory.Serves unit block most places left parts m.taken)
    (rounded : Pool.roundUp? n = some unit) (positive : 0 < unit) (few : places.length < most)
    (room : m.taken + left ≤ scratchSpan) :
    ∃ place memory' left' parts' taken',
      m.takeFrom? memory n = some (scratchAddress place, memory', { m with taken := taken' }) ∧
      memory'.Serves unit block most (places ++ [place]) left' parts' taken' ∧
      taken' + left' = m.taken + left ∧ m.taken ≤ taken' ∧ taken' ≤ scratchSpan ∧ parts' ⊆ parts ∪ m.fresh := by
  obtain ⟨spent, first, last, holds, budget, rfl, away, rest⟩ := serves.area
  by_cases fits : first + unit ≤ last
  · obtain ⟨memory', takes, holds'⟩ := holds.take_last (m := m) rounded positive fits
    refine ⟨first, memory', left, Pool.parts unit (places ++ [first]) (first + unit) last, m.taken, takes,
      ⟨?_, ?_, spent, first + unit, last, ?_, budget, rfl, ?_, rest⟩, rfl, Nat.le_refl _, by omega, ?_⟩
    · refine List.pairwise_append.mpr ⟨serves.apart, List.pairwise_singleton _ _, fun place member other isNew => ?_⟩
      have := away place member
      rw [List.mem_singleton.mp isNew]
      omega
    · intro place member
      rcases mem_append_singleton.mp member with old | rfl
      · exact serves.inside place old
      · omega
    · rw [List.length_append]
      exact holds'
    · intro place member
      rcases mem_append_singleton.mp member with old | rfl
      · have := away place old
        omega
      · omega
    · rintro part (⟨place, member, inside⟩ | inside)
      · rcases mem_append_singleton.mp member with old | rfl
        · exact .inl (.inl ⟨place, old, inside⟩)
        · exact .inl (.inr (Part.range_subset (Nat.le_refl _) fits inside))
      · exact .inl (.inr (Part.range_subset (Nat.le_add_right _ _) (Nat.le_refl _) inside))
  · have more : Pool.cost unit block (places.length + 1) ≤ Pool.cost unit block most := Pool.cost_mono unit block few
    obtain ⟨memory', size, takes, enough, limit, holds'⟩ := holds.take_new (m := m) rounded (by omega) (by omega)
    have region := lt_regionSize size
    have spentLe := holds'.spent_le
    have inside (place : Nat) (member : place ∈ places) := serves.inside place member
    -- Nothing that is there lies where the new block starts.
    have fresh {a b : Nat} (lower : m.taken ≤ a) : Part.range a b ⊆ m.fresh := by
      rintro _ ⟨i, least, _, rfl⟩ has
      have : i < m.taken := has
      omega
    refine ⟨m.taken, memory', left - regionSize size,
      Pool.parts unit (places ++ [m.taken]) (m.taken + unit) (m.taken + size), m.taken + regionSize size, takes,
      ⟨?_, ?_, spent + regionSize size, m.taken + unit, m.taken + size, ?_, by omega, rfl, ?_, by omega⟩,
      by omega, by omega, limit, ?_⟩
    · refine List.pairwise_append.mpr ⟨serves.apart, List.pairwise_singleton _ _, fun place member other isNew => ?_⟩
      rw [List.mem_singleton.mp isNew]
      exact .inl (inside place member)
    · intro place member
      rcases mem_append_singleton.mp member with old | rfl
      · have := inside place old
        omega
      · omega
    · rw [List.length_append]
      exact holds'
    · intro place member
      rcases mem_append_singleton.mp member with old | rfl
      · have := inside place old
        omega
      · exact .inl (Nat.le_refl _)
    · rintro part (⟨place, member, inside⟩ | inside)
      · rcases mem_append_singleton.mp member with old | rfl
        · exact .inl (.inl ⟨place, old, inside⟩)
        · exact .inr (fresh (Nat.le_refl _) inside)
      · exact .inr (fresh (Nat.le_add_right _ _) inside)

end PoolMemory.Serves

end QueryEngine
