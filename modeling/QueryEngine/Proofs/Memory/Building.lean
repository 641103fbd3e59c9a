import QueryEngine.Proofs.Memory.Allocation
import QueryEngine.Storage.JoinTable

namespace QueryEngine

open Action ChainTable Entry

variable {ν : Type} {m : Machine} {held : List (Entry Nat)}

theorem Visits.next_eq (visits : Visits next start (before ++ a :: after)) : next a = after.head? := by
  induction before generalizing start with
  | nil =>
    cases visits with
    | step rest => exact rest.start_eq
  | cons b before ih =>
    cases visits with
    | step rest => exact ih rest

namespace JoinList

/-- The list after these entries have been appended. -/
def appended (pairs : List (Word × ν)) : JoinList ν := pairs.foldl (fun list pair => list.append pair.1 pair.2) {}

theorem entries_appended (pairs : List (Word × ν)) :
    (appended pairs).entries = (numbered pairs).reverse := by
  induction pairs using List.reverseRecOn with
  | nil => rfl
  | append_singleton pairs pair ih =>
    have size : (appended pairs).size = pairs.length := by
      rw [JoinList.size, ih, List.length_reverse, length_numbered]
    rw [numbered_append, List.reverse_append, ← ih, ← size, appended, List.foldl_append]
    rfl

theorem size_appended (pairs : List (Word × ν)) : (appended pairs).size = pairs.length := by
  rw [size, entries_appended, List.length_reverse, length_numbered]

theorem chains_build (list : JoinList ν) :
    list.build.chains = (built (bucketsFor list.size) list.entries.reverse).chains := by
  have folds (entries : List (Entry ν)) (table : ChainTable ν) : (entries.foldl link table).chains =
      entries.foldl (fun chains entry => chains.modify (bucketOf chains entry.hash) (entry :: ·))
        table.chains := by
    induction entries generalizing table with
    | nil => rfl
    | cons entry entries ih => exact ih (table.link entry)
  rw [built, folds, List.reverse_reverse]
  rfl

end JoinList

/-- A join table is walked as a table with the same chains is. -/
theorem JoinTable.walks_eq {table : JoinTable ν} {other : ChainTable ν} (same : table.chains = other.chains) :
    table.entries = other.entries ∧ table.lookup? = other.lookup? ∧ table.nextSameHash? = other.nextSameHash? := by
  cases table
  cases same
  exact ⟨rfl, rfl, rfl⟩

namespace NodeList

/-- Appends nodes of one size under these hash codes. -/
def appendAll (list : NodeList) (size : Word) (hashes : List Word) : Action NodeList :=
  hashes.foldlM (fun list hash => Prod.snd <$> list.append hash size) list

variable {size : Word}

theorem appendAll_run (list : NodeList) (hashes : List Word) (chain : m.Chain held.reverse list.last)
    (counted : list.count = held.length) (numbers : held.map number = List.range held.length)
    (serves : list.memory.Serves unit block most (held.map payload) left parts m.taken)
    (rounded : Pool.roundUp? (nodeHeader + size.toNat) = some unit) (few : held.length + hashes.length ≤ most)
    (room : m.taken + left ≤ Machine.scratchSpan) :
    ∃ list' m', ∃ held' : List (Entry Nat), list.appendAll size hashes m = .ok list' m' ∧ m'.Chain held'.reverse list'.last ∧
      list'.count = held'.length ∧ held'.map number = List.range held'.length ∧
      held'.map hash = held.map hash ++ hashes ∧ held'.Pairwise Entry.Away := by
  induction hashes generalizing list held left parts m with
  | nil =>
    have header := Nat.le_trans (Nat.le_add_right _ _) (Pool.le_of_roundUp rounded)
    exact ⟨list, m, held, rfl, chain, counted, numbers, (List.append_nil _).symm, serves.away header⟩
  | cons hash hashes ih =>
    rw [List.length_cons] at few
    obtain ⟨place, memory', left', parts', m1, appends, chain1, serves1, budget, -⟩ :=
      NodeList.append_run serves rounded (by omega) room chain hash
    have length : (appended held hash place).length = held.length + 1 := by simp [appended]
    obtain ⟨list', m', held', runs, chain', counted', numbers', hashes', apart⟩ := ih
      ⟨Machine.scratchAddress place, list.count + 1, memory'⟩ chain1 (by rw [length, counted])
      (by simp [appended, numbers, List.range_succ]) serves1 (by omega) (by omega)
    refine ⟨list', m', held', ?_, chain', counted', numbers', ?_, apart⟩
    · have appends' : (Prod.snd <$> list.append hash size) m = .ok _ m1 := bind_of_ok appends
      rw [appendAll, List.foldlM_cons, bind_of_ok appends']
      exact runs
    · simpa [appended] using hashes'

end NodeList

/-- The nodes are in their buckets, and every chain and every walk has them in this order. -/
structure Machine.InOrder (m : Machine) (buckets : Array Word) (held : List (Entry Nat)) : Prop where
  chain : ∀ bucket, bucket < buckets.size → m.Chain
    (held.filter fun entry => entry.hash.toNat &&& (buckets.size - 1) = bucket) (buckets.getD bucket 0)
  lookup : ∀ hash, lookup buckets hash m = .ok (nodeAddress (held.filter fun entry => entry.hash = hash).head?) m
  next : ∀ hash before entry after, (held.filter fun entry => entry.hash = hash) = before ++ entry :: after →
    nextSameHash entry.address hash m = .ok (nodeAddress after.head?) m

theorem exists_bucketsFor_eq (count : Nat) : ∃ k, bucketsFor count = 2 ^ k := Nat.isPowerOfTwo_nextPowerOfTwo _

theorem and_pred_bucketsFor (n count : Nat) : n &&& (bucketsFor count - 1) = n % bucketsFor count := by
  obtain ⟨k, power⟩ := exists_bucketsFor_eq count
  rw [power, Nat.and_two_pow_sub_one_eq_mod]

theorem Machine.Linked.inOrder {buckets : Array Word} {count : Nat}
    (linked : m.Linked buckets (.built (bucketsFor count) held)) (nodup : (held.map number).Nodup)
    (short : held.length < chainLimit) : m.InOrder buckets held := by
  have size : buckets.size = bucketsFor count := linked.size.trans (size_built _ _)
  have holds := ChainTable.Holds.built (bucketsFor_pos count) held
  have walked (hash : Word) := holds.visits_walk nodup hash
  simp only [walk_built (bucketsFor_pos count)] at walked
  rw [← holds.same.length_eq] at short
  refine ⟨?_, fun hash => ?_, fun hash before entry after split => ?_⟩
  · rw [size]
    intro bucket bound
    simp only [and_pred_bucketsFor]
    exact linked.chain bucket _ (chain_built bound held)
  · rw [linked.lookup holds.positive hash short, (walked hash).start_eq]
  · have member : entry ∈ held.filter fun entry => entry.hash = hash := by
      rw [split]
      exact List.mem_append_right _ List.mem_cons_self
    have next := split ▸ walked hash
    rw [linked.nextSameHash holds nodup (List.mem_filter.mp member).1 hash short, next.next_eq]

/-- Building a table from a list is exact. Its buckets are a power of two; going over them in turn meets what has been
appended, each at its masked hash code and in the order of appending; and walking from the first entry under a hash code
meets what has been appended under it, in that order. The same holds of nodes in memory, whose links are overwritten while
they are walked. -/
theorem JoinList.build_keeps_order {ν : Type} (pairs : List (Word × ν)) :
    (∃ k, (appended pairs).build.bucketCount = 2 ^ k) ∧
    (appended pairs).build.entries = ((List.range (appended pairs).build.bucketCount).flatMap fun bucket =>
      (ChainTable.numbered pairs).filter fun entry =>
        entry.hash.toNat &&& ((appended pairs).build.bucketCount - 1) = bucket) ∧
    (appended pairs).build.entries.Perm (ChainTable.numbered pairs) ∧
    (∀ hash, Visits (fun entry => (appended pairs).build.nextSameHash? entry hash)
      ((appended pairs).build.lookup? hash) ((ChainTable.numbered pairs).filter fun entry => entry.hash = hash)) ∧
    ∀ (m : Machine) (memory : PoolMemory) (size : Word) (unit block : Nat), Machine.newPool? block = some memory →
      Pool.roundUp? (nodeHeader + size.toNat) = some unit → pairs.length < chainLimit →
      m.taken + Pool.cost unit (max block 8 + 8) pairs.length ≤ Machine.scratchSpan →
      ∃ list m1 buckets m2, ∃ held : List (Entry Nat),
        NodeList.appendAll { memory } size (pairs.map Prod.fst) m = .ok list m1 ∧ list.build m1 = .ok buckets m2 ∧
        buckets.size = (appended pairs).build.bucketCount ∧ held.map Entry.number = List.range pairs.length ∧
        held.map Entry.hash = pairs.map Prod.fst ∧ m2.InOrder buckets held := by
  have positive := bucketsFor_pos pairs.length
  have chains : (appended pairs).build.chains =
      (ChainTable.built (bucketsFor pairs.length) (ChainTable.numbered pairs)).chains := by
    rw [chains_build, size_appended, entries_appended, List.reverse_reverse]
  have buckets : (appended pairs).build.bucketCount = bucketsFor pairs.length := by
    rw [JoinTable.bucketCount, chains, ChainTable.size_built]
  obtain ⟨entries, looks, follows⟩ := JoinTable.walks_eq chains
  have holds := ChainTable.Holds.built positive (ChainTable.numbered pairs)
  simp only [buckets, entries, looks, follows, and_pred_bucketsFor]
  refine ⟨Nat.isPowerOfTwo_nextPowerOfTwo _, ChainTable.entries_built _ _, holds.same, fun hash => ?_, ?_⟩
  · have walked := holds.visits_walk (ChainTable.nodup_numbers pairs) hash
    rwa [ChainTable.walk_built positive] at walked
  · intro m memory size unit block made rounded short room
    have empty : m.Chain [].reverse 0 := rfl
    obtain ⟨list, m1, held, appends, chain, counted, numbers, hashes, apart⟩ := NodeList.appendAll_run { memory }
      (pairs.map Prod.fst) empty rfl rfl (.new made unit pairs.length m.taken) rounded (by simp) room
    have length : held.length = pairs.length := by simpa using congrArg List.length hashes
    obtain ⟨buckets, m2, builds, linked, -⟩ := list.build_run chain apart (by omega)
    have size : buckets.size = bucketsFor pairs.length := by
      rw [linked.size, ChainTable.size_built, counted, length]
    have nodup : (held.map Entry.number).Nodup := numbers ▸ List.nodup_range
    exact ⟨list, m1, buckets, m2, held, appends, builds, size, length ▸ numbers, hashes,
      linked.inOrder nodup (by omega)⟩

end QueryEngine
