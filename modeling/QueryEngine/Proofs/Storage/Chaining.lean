import Mathlib.Algebra.Ring.Nat
import Mathlib.Data.Finset.Card
import Mathlib.Data.Finset.Dedup
import Mathlib.Data.List.Nodup
import QueryEngine.Storage.ChainTable

namespace QueryEngine

open Entry Option
open List hiding map_map

/-- `visited` is what one meets from `start` on when `next` is followed until there is none. -/
inductive Visits {α : Type} (next : α → Option α) : (start : Option α) → (visited : List α) → Prop
  | stop : Visits next none []
  | step {a : α} {visited : List α} : Visits next (next a) visited → Visits next (some a) (a :: visited)

/-- A list is visited in its order if `next` of each element is the head of what comes after it. -/
theorem Visits.start_eq {next : α → Option α} (visits : Visits next start visited) : start = visited.head? := by
  cases visits <;> rfl

theorem Visits.of_heads {next : α → Option α} (list : List α) (heads : ∀ before a after, list = before ++ a :: after → next a = after.head?) :
    Visits next list.head? list := by
  induction list with
  | nil => exact .stop
  | cons a list ih =>
    refine .step ?_
    rw [heads [] a list rfl]
    refine ih fun before b after same => heads (a :: before) b after ?_
    rw [same, cons_append]

theorem bucketsFor_pos (count : Nat) : 0 < bucketsFor count :=
  Nat.pos_of_isPowerOfTwo (Nat.isPowerOfTwo_nextPowerOfTwo _)

namespace ChainTable

variable {ν : Type} {table : ChainTable ν} {entry : Entry ν} {held : List (Entry ν)} {hash : Word}

/-- Every entry is in the bucket of its hash code. -/
def Placed (chains : Array (List (Entry ν))) : Prop :=
  ∀ (bucket : Nat) (chain : List (Entry ν)), chains[bucket]? = some chain → ∀ entry ∈ chain, bucketOf chains entry.hash = bucket

/-- The entries of the table are those of `held`, each in its bucket, and their hash codes have been counted. -/
structure Holds (table : ChainTable ν) (held : List (Entry ν)) : Prop where
  positive : 0 < table.chains.size
  placed : Placed table.chains
  same : table.entries.Perm held
  distinct : table.distinct = (held.map Entry.hash).toFinset.card

theorem bucketOf_lt {chains : Array (List (Entry ν))} (positive : 0 < chains.size) (hash : Word) :
    bucketOf chains hash < chains.size := Nat.mod_lt _ positive

theorem chainOf_eq (positive : 0 < table.chains.size) (hash : Word) :
    table.chains[bucketOf table.chains hash]? = some (table.chainOf hash) := by
  have bound := bucketOf_lt positive hash
  simp [chainOf, Array.getElem?_eq_getElem bound]

theorem mem_entries : entry ∈ table.entries ↔
    ∃ (bucket : Nat) (chain : List (Entry ν)), table.chains[bucket]? = some chain ∧ entry ∈ chain := by
  unfold entries
  rw [mem_flatten]
  constructor
  · rintro ⟨chain, member, among⟩
    obtain ⟨bucket, found⟩ := mem_iff_getElem?.mp member
    exact ⟨bucket, chain, by simpa using found, among⟩
  · rintro ⟨bucket, chain, found, among⟩
    exact ⟨chain, mem_iff_getElem?.mpr ⟨bucket, by simpa using found⟩, among⟩

/-- The entries under a hash code are all in one chain. -/
theorem Holds.mem_chainOf (holds : table.Holds held) :
    entry ∈ table.chainOf hash ↔ entry ∈ held ∧ bucketOf table.chains entry.hash = bucketOf table.chains hash := by
  have found := chainOf_eq holds.positive hash
  constructor
  · intro among
    refine ⟨holds.same.mem_iff.mp (mem_entries.mpr ⟨_, _, found, among⟩), ?_⟩
    exact holds.placed _ _ found entry among
  · rintro ⟨member, bucket⟩
    obtain ⟨other, chain, found', among⟩ := mem_entries.mp (holds.same.mem_iff.mpr member)
    have here := holds.placed other chain found' entry among
    rw [← here, bucket, found, some.injEq] at found'
    rw [found']
    exact among

theorem Holds.known_iff (holds : table.Holds held) :
    ((table.chainOf hash).any fun other => other.hash = hash) = true ↔ hash ∈ held.map Entry.hash := by
  simp only [List.any_eq_true, decide_eq_true_eq, List.mem_map, holds.mem_chainOf]
  constructor
  · rintro ⟨other, ⟨member, _⟩, same⟩
    exact ⟨other, member, same⟩
  · rintro ⟨other, member, same⟩
    exact ⟨other, ⟨member, by rw [same]⟩, same⟩

theorem flatten_modify_perm (entry : Entry ν) (chains : List (List (Entry ν))) (bucket : Nat) (bound : bucket < chains.length) :
    ((chains.modify bucket (entry :: ·)).flatten).Perm (entry :: chains.flatten) := by
  induction chains generalizing bucket with
  | nil => simp at bound
  | cons chain chains ih =>
    cases bucket with
    | zero => simp
    | succ bucket =>
      have rest := ih bucket (by simpa using bound)
      exact (rest.append_left chain).trans perm_middle

theorem Holds.link (holds : table.Holds held) (entry : Entry ν) : (table.link entry).Holds (entry :: held) := by
  have bound := bucketOf_lt holds.positive entry.hash
  have size : (table.link entry).chains.size = table.chains.size := by simp [ChainTable.link]
  refine ⟨by rw [size]; exact holds.positive, ?_, ?_, ?_⟩
  · intro bucket chain found other among
    unfold bucketOf
    rw [size]
    simp only [ChainTable.link, Array.getElem?_modify] at found
    split at found
    next here =>
      obtain ⟨before, atBucket, rfl⟩ := map_eq_some_iff.mp found
      rcases mem_cons.mp among with rfl | old
      · exact here
      · exact holds.placed bucket before atBucket other old
    · exact holds.placed bucket chain found other among
  · unfold entries ChainTable.link
    rw [Array.toList_modify]
    have moved := flatten_modify_perm entry table.chains.toList _ (by simpa using bound)
    exact moved.trans (holds.same.cons entry)
  · simp only [ChainTable.link, holds.known_iff, map_cons, toFinset_cons]
    split
    next known => rw [Finset.insert_eq_of_mem (mem_toFinset.mpr known), holds.distinct]
    next unknown => rw [Finset.card_insert_of_notMem (by simpa using unknown), holds.distinct]

theorem Holds.perm (holds : table.Holds held) (perm : held.Perm other) : table.Holds other := by
  refine ⟨holds.positive, holds.placed, holds.same.trans perm, ?_⟩
  rw [holds.distinct, toFinset_eq_of_perm _ _ (perm.map _)]

theorem Holds.foldl_link (holds : table.Holds held) (entries : List (Entry ν)) :
    (entries.foldl ChainTable.link table).Holds (entries.reverse ++ held) := by
  induction entries generalizing table held with
  | nil => exact holds
  | cons entry entries ih =>
    rw [foldl_cons, reverse_cons, append_assoc]
    exact ih (holds.link entry)

theorem Holds.empty (positive : 0 < buckets) (chains : table.chains = Array.replicate buckets [])
    (distinct : table.distinct = 0) : table.Holds [] := by
  refine ⟨by simpa [chains] using positive, ?_, ?_, by simp [distinct]⟩
  · intro bucket chain found
    rw [chains, Array.getElem?_replicate] at found
    split at found
    · cases found
      simp
    · cases found
  · simp [entries, chains]

theorem link_size (table : ChainTable ν) (entry : Entry ν) : (table.link entry).chains.size = table.chains.size := by
  simp [link]

theorem link_distinct_le (table : ChainTable ν) (entry : Entry ν) : (table.link entry).distinct ≤ table.distinct + 1 := by
  unfold link
  dsimp only
  split <;> omega

theorem foldl_link_size (entries : List (Entry ν)) : (entries.foldl link table).chains.size = table.chains.size := by
  induction entries generalizing table with
  | nil => rfl
  | cons entry entries ih => rw [foldl_cons, ih, link_size table entry]

theorem foldl_link_count (entries : List (Entry ν)) : (entries.foldl link table).count = table.count := by
  induction entries generalizing table with
  | nil => rfl
  | cons entry entries ih =>
    rw [foldl_cons, ih]
    rfl

/-- Twice as many buckets, without entries. -/
def doubled (table : ChainTable ν) : ChainTable ν :=
  { table with chains := Array.replicate (table.chains.size * 2) [], distinct := 0 }

theorem rehash_size (table : ChainTable ν) : table.rehash.chains.size = table.chains.size * 2 := by
  unfold rehash
  rw [foldl_link_size]
  simp

theorem Holds.doubled (holds : table.Holds held) : table.doubled.Holds [] :=
  .empty (by have := holds.positive; omega) rfl rfl

/-- Rehashing keeps the entries. -/
theorem Holds.rehash (holds : table.Holds held) : table.rehash.Holds held := by
  have linked := holds.doubled.foldl_link table.entries
  rw [append_nil] at linked
  have kept := linked.perm ((reverse_perm _).trans holds.same)
  exact ⟨kept.positive, kept.placed, kept.same, kept.distinct⟩

/-- A table as insertions leave it. -/
structure Sound (table : ChainTable ν) (held : List (Entry ν)) : Prop extends table.Holds held where
  power : ∃ k, table.bucketCount = 2 ^ k
  count : table.count = held.length
  load : 4 * table.distinct ≤ 3 * table.bucketCount

theorem Sound.withBuckets (buckets : Nat) : (withBuckets buckets : ChainTable ν).Sound [] := by
  have size : (ChainTable.withBuckets buckets : ChainTable ν).bucketCount = powerOfTwoAbove (max 1 buckets) := by
    simp [bucketCount, ChainTable.withBuckets]
  have positive : 0 < powerOfTwoAbove (max 1 buckets) := Nat.pos_of_isPowerOfTwo (Nat.isPowerOfTwo_nextPowerOfTwo _)
  refine ⟨.empty positive rfl rfl, ?_, rfl, by simp [ChainTable.withBuckets]⟩
  rw [size]
  exact Nat.isPowerOfTwo_nextPowerOfTwo _

theorem Sound.insert (sound : table.Sound held) (hash : Word) (payload : ν) :
    (table.insert hash payload).Sound (held ++ [⟨held.length, hash, payload⟩]) := by
  obtain ⟨k, power⟩ := sound.power
  have linked := sound.toHolds.link ⟨table.count, hash, payload⟩
  rw [sound.count] at linked
  have grown : ({ table.link ⟨held.length, hash, payload⟩ with count := table.count + 1 } : ChainTable ν).Holds
      (held ++ [⟨held.length, hash, payload⟩]) :=
    have moved := linked.perm (perm_append_singleton _ _).symm
    ⟨moved.positive, moved.placed, moved.same, moved.distinct⟩
  have size := link_size table ⟨held.length, hash, payload⟩
  have counted := link_distinct_le table ⟨held.length, hash, payload⟩
  have load := sound.load
  have positive := sound.positive
  unfold ChainTable.insert
  rw [sound.count]
  dsimp only
  rw [sound.count] at grown
  unfold bucketCount at *
  split
  · -- The load was right before, and there is at most one hash code more for twice the buckets.
    have rehashed := grown.rehash
    have doubled := rehash_size { table.link ⟨held.length, hash, payload⟩ with count := held.length + 1 }
    dsimp only at doubled
    refine ⟨rehashed, ⟨k + 1, ?_⟩, ?_, ?_⟩
    · unfold bucketCount
      rw [doubled, size, power, Nat.pow_succ]
    · unfold ChainTable.rehash
      rw [foldl_link_count]
      simp
    · rw [rehashed.distinct, ← grown.distinct]
      unfold bucketCount
      dsimp only
      omega
  next light =>
    refine ⟨grown, ⟨k, by unfold bucketCount; rw [size, power]⟩, by simp, ?_⟩
    exact Nat.not_lt.mp fun heavy => light (decide_eq_true heavy)

/-- The table after these insertions. -/
def inserted (buckets : Nat) (pairs : List (Word × ν)) : ChainTable ν :=
  pairs.foldl (fun table pair => table.insert pair.1 pair.2) (withBuckets buckets)

/-- The entries that insertions make: each has the number of those before it. -/
def numbered (pairs : List (Word × ν)) : List (Entry ν) :=
  pairs.zipIdx.map fun pair => ⟨pair.2, pair.1.1, pair.1.2⟩

section

variable (pairs : List (Word × ν))

include pairs

theorem numbered_append (pair : Word × ν) :
    numbered (pairs ++ [pair]) = numbered pairs ++ [⟨pairs.length, pair.1, pair.2⟩] := by
  simp [numbered, zipIdx_append]

theorem length_numbered : (numbered pairs).length = pairs.length := by
  simp [numbered]

theorem hashes_numbered : (numbered pairs).map Entry.hash = pairs.map Prod.fst := by
  simp only [numbered, List.map_map]
  conv_rhs => rw [← List.zipIdx_map_fst 0 pairs, List.map_map]
  rfl

theorem payloads_numbered (hash : Word) :
    ((numbered pairs).filter fun entry => entry.hash = hash).map payload =
      (pairs.filter fun pair => pair.1 = hash).map Prod.snd := by
  conv_rhs => rw [← List.zipIdx_map_fst 0 pairs]
  simp only [numbered, List.filter_map, List.map_map]
  rfl

theorem nodup_numbers : ((numbered pairs).map number).Nodup := by
  have numbers : (numbered pairs).map number = range' 0 pairs.length := by
    rw [← List.zipIdx_map_snd 0 pairs, numbered, List.map_map]
    rfl
  rw [numbers]
  exact nodup_range'

end

theorem Sound.inserted (buckets : Nat) (pairs : List (Word × ν)) : (inserted buckets pairs).Sound (numbered pairs) := by
  induction pairs using reverseRecOn with
  | nil => exact .withBuckets buckets
  | append_singleton pairs pair sound =>
    have next := sound.insert pair.1 pair.2
    rw [length_numbered] at next
    rw [numbered_append, ChainTable.inserted, foldl_append]
    exact next

theorem entriesAfter?_append (fresh : ∀ other ∈ before, other.number ≠ entry.number) :
    entriesAfter? entry.number (before ++ entry :: rest) = some rest := by
  induction before with
  | nil => simp [entriesAfter?]
  | cons other before ih =>
    have differs := fresh other mem_cons_self
    rw [cons_append, entriesAfter?, if_neg differs]
    exact ih fun later member => fresh later (mem_cons_of_mem _ member)

theorem fresh_of_nodup (nodup : ((before ++ entry :: rest).map number).Nodup) :
    ∀ other ∈ before, other.number ≠ entry.number := by
  intro other member same
  rw [map_append, map_cons, nodup_append] at nodup
  exact nodup.2.2 other.number (mem_map_of_mem member) entry.number mem_cons_self same

theorem nodup_chain {chain : List (Entry ν)} {bucket : Nat} (found : table.chains[bucket]? = some chain)
    (nodup : (table.entries.map number).Nodup) : (chain.map number).Nodup := by
  refine nodup.sublist (List.Sublist.map _ (sublist_flatten_of_mem ?_))
  exact mem_iff_getElem?.mpr ⟨bucket, by simpa using found⟩

/-- The first entry under a hash code and those that follow it are those of the walk. -/
theorem Holds.visits_walk (holds : table.Holds held) (nodup : (held.map Entry.number).Nodup) (hash : Word) :
    Visits (fun entry => table.nextSameHash? entry hash) (table.lookup? hash) (table.walk hash) := by
  have found := chainOf_eq holds.positive hash
  have numbers := nodup_chain found ((holds.same.map _).nodup_iff.mpr nodup)
  -- What is left of the chain is walked; the part before it only serves to find the place.
  have walks (after before : List (Entry ν)) (split : table.chainOf hash = before ++ after) :
      Visits (fun entry => table.nextSameHash? entry hash) (after.find? fun entry => entry.hash = hash)
        (after.filter fun entry => entry.hash = hash) := by
    induction after generalizing before with
    | nil => exact .stop
    | cons entry after ih =>
      have rest := ih (before ++ [entry]) (by rw [split, append_assoc, singleton_append])
      by_cases here : entry.hash = hash
      · rw [find?_cons_of_pos (by simpa using here), filter_cons_of_pos (by simpa using here)]
        refine .step ?_
        rw [split] at numbers
        rw [nextSameHash?, here, split, entriesAfter?_append (fresh_of_nodup numbers)]
        exact rest
      · rw [find?_cons_of_neg (by simpa using here), filter_cons_of_neg (by simpa using here)]
        exact rest
  exact walks (table.chainOf hash) [] rfl

theorem Holds.mem_walk (holds : table.Holds held) : entry ∈ table.walk hash ↔ entry ∈ held ∧ entry.hash = hash := by
  rw [walk, mem_filter, holds.mem_chainOf, decide_eq_true_eq]
  constructor
  · rintro ⟨⟨member, _⟩, same⟩
    exact ⟨member, same⟩
  · rintro ⟨member, same⟩
    exact ⟨⟨member, by rw [same]⟩, same⟩

theorem Holds.walk_perm (holds : table.Holds held) (nodup : (held.map Entry.number).Nodup) (hash : Word) :
    (table.walk hash).Perm (held.filter fun entry => entry.hash = hash) := by
  have found := chainOf_eq holds.positive hash
  have numbers := nodup_chain found ((holds.same.map _).nodup_iff.mpr nodup)
  refine (perm_ext_iff_of_nodup (numbers.of_map.filter _) (nodup.of_map.filter _)).mpr fun entry => ?_
  exact holds.mem_walk.trans (by rw [mem_filter, decide_eq_true_eq])

/-- An entry comes before those that were there, in its own chain and in no other. -/
theorem chain_link (table : ChainTable ν) (entry : Entry ν) (bucket : Nat) :
    (table.link entry).chains[bucket]? = table.chains[bucket]?.map
      (([entry].filter fun other => bucketOf table.chains other.hash = bucket) ++ ·) := by
  simp only [link, Array.getElem?_modify]
  split
  next here => simp [here]
  next elsewhere => simp [elsewhere]

theorem chain_foldl_link (entries : List (Entry ν)) (bucket : Nat) :
    (entries.foldl link table).chains[bucket]? = table.chains[bucket]?.map
      ((entries.reverse.filter fun entry => bucketOf table.chains entry.hash = bucket) ++ ·) := by
  induction entries generalizing table with
  | nil => simp
  | cons entry entries ih =>
    have same (hash : Word) : bucketOf (table.link entry).chains hash = bucketOf table.chains hash := by
      unfold bucketOf
      rw [link_size]
    rw [foldl_cons, ih, chain_link, map_map, reverse_cons, filter_append]
    simp only [same, Function.comp_def, append_assoc]

/-- The table that a list is built into, from its latest entry to its earliest. -/
def built (buckets : Nat) (held : List (Entry ν)) : ChainTable ν :=
  held.reverse.foldl link { chains := Array.replicate buckets [] }

theorem size_built (buckets : Nat) (held : List (Entry ν)) : (built buckets held).chains.size = buckets := by
  rw [built, foldl_link_size, Array.size_replicate]

/-- The two reversals cancel: a chain has its entries in the order of the list. -/
theorem chain_built (bound : bucket < buckets) (held : List (Entry ν)) :
    (built buckets held).chains[bucket]? = some (held.filter fun entry => entry.hash.toNat % buckets = bucket) := by
  rw [built, chain_foldl_link, reverse_reverse]
  simp [bucketOf, bound]

theorem Holds.built (positive : 0 < buckets) (held : List (Entry ν)) : (built buckets held).Holds held := by
  have empty : ({ chains := Array.replicate buckets [] } : ChainTable ν).Holds [] := .empty positive rfl rfl
  have linked := empty.foldl_link held.reverse
  rwa [reverse_reverse, append_nil] at linked

theorem walk_built (positive : 0 < buckets) (held : List (Entry ν)) (hash : Word) :
    (built buckets held).walk hash = held.filter fun entry => entry.hash = hash := by
  rw [walk, chainOf, bucketOf, size_built, chain_built (Nat.mod_lt _ positive), getD_some, List.filter_filter]
  refine List.filter_congr fun entry _ => ?_
  by_cases here : entry.hash = hash <;> simp [here]

theorem entries_built (buckets : Nat) (held : List (Entry ν)) : (built buckets held).entries =
    (range buckets).flatMap fun bucket => held.filter fun entry => entry.hash.toNat % buckets = bucket := by
  have chains : (built buckets held).chains.toList = (range buckets).map fun bucket =>
      held.filter fun entry => entry.hash.toNat % buckets = bucket := by
    refine ext_getElem? fun bucket => ?_
    rw [Array.getElem?_toList]
    by_cases bound : bucket < buckets
    · rw [chain_built bound]
      simp [bound]
    · have out : (built buckets held).chains.size ≤ bucket := by rw [size_built]; omega
      simp [out, Nat.not_lt.mp bound]
  rw [entries, chains, flatMap]

theorem firstFrom?_eq (bucket : Nat) : table.firstFrom? bucket = (table.chains.toList.drop bucket).flatten.head? := by
  fun_induction table.firstFrom? bucket with
  | case1 bucket bound entry rest isChain =>
    rw [drop_eq_getElem_cons (by simpa using bound), flatten_cons, Array.getElem_toList, isChain]
    rfl
  | case2 bucket bound isChain ih =>
    have here : table.chains.toList.drop bucket = [] :: table.chains.toList.drop (bucket + 1) := by
      rw [drop_eq_getElem_cons (by simpa using bound), Array.getElem_toList, isChain]
    rw [ih, here, flatten_cons, nil_append]
  | case3 bucket out =>
    rw [drop_eq_nil_of_le (by simpa using out)]
    rfl

/-- The next entry of a scan is the one after it, be it in its chain or in the first chain of the later buckets. -/
theorem Holds.next?_eq (holds : table.Holds held) (nodup : (held.map Entry.number).Nodup)
    {before after : List (Entry ν)} (split : table.entries = before ++ entry :: after) :
    table.next? entry = after.head? := by
  have numbers : (table.entries.map number).Nodup := (holds.same.map _).nodup_iff.mpr nodup
  have member : entry ∈ table.entries := by
    rw [split]
    exact mem_append_right _ mem_cons_self
  obtain ⟨bucket, chain, found, among⟩ := mem_entries.mp member
  have here := holds.placed bucket chain found entry among
  have isChain : table.chainOf entry.hash = chain := by
    rw [← here, chainOf_eq holds.positive, some.injEq] at found
    exact found
  obtain ⟨earlier, later, parts⟩ := append_of_mem among
  have bound := (Array.getElem?_eq_some_iff.mp found).1
  have whole : table.entries = ((table.chains.toList.take bucket).flatten ++ earlier) ++
      entry :: (later ++ (table.chains.toList.drop (bucket + 1)).flatten) := by
    have atBucket : table.chains[bucket] = chain := (Array.getElem?_eq_some_iff.mp found).2
    unfold entries
    conv_lhs => rw [← take_append_drop bucket table.chains.toList]
    rw [drop_eq_getElem_cons (by simpa using bound), Array.getElem_toList, atBucket, parts]
    simp
  have rest : after = later ++ (table.chains.toList.drop (bucket + 1)).flatten := by
    have first : entriesAfter? entry.number table.entries = some after := by
      rw [split] at numbers ⊢
      exact entriesAfter?_append (fresh_of_nodup numbers)
    rw [whole] at numbers first
    rw [entriesAfter?_append (fresh_of_nodup numbers), some.injEq] at first
    exact first.symm
  have chainNumbers := nodup_chain found numbers
  rw [parts] at chainNumbers
  unfold next?
  rw [isChain, parts, entriesAfter?_append (fresh_of_nodup chainNumbers), here, rest]
  cases later with
  | nil => exact firstFrom?_eq (bucket + 1)
  | cons next later => rfl

theorem Holds.visits_entries (holds : table.Holds held) (nodup : (held.map Entry.number).Nodup) :
    Visits table.next? table.first? table.entries := by
  have start : table.first? = table.entries.head? := firstFrom?_eq 0
  rw [start]
  exact .of_heads table.entries fun before entry after split => holds.next?_eq nodup split

theorem Sound.mask (sound : table.Sound held) (hash : Word) :
    bucketOf table.chains hash = hash.toNat &&& (table.bucketCount - 1) := by
  obtain ⟨k, power⟩ := sound.power
  rw [power, Nat.and_two_pow_sub_one_eq_mod, ← power]
  rfl

/-- After any insertions a table is the multimap of what has been inserted. Its buckets are a power of two and hold every
entry once, at its masked hash code; the different hash codes have been counted and fill at most three quarters of the
buckets; walking from the first entry under a hash code, or from the first entry of all, meets what was inserted under
it, or all that was inserted, once and ends. -/
theorem inserted_is_multimap (buckets : Nat) (pairs : List (Word × ν)) :
    (∃ k, (inserted buckets pairs).bucketCount = 2 ^ k) ∧
    (∀ (bucket : Nat) (chain : List (Entry ν)), (inserted buckets pairs).chains[bucket]? = some chain →
      chain.Nodup ∧ ∀ entry, entry ∈ chain ↔
        entry ∈ numbered pairs ∧ entry.hash.toNat &&& ((inserted buckets pairs).bucketCount - 1) = bucket) ∧
    (inserted buckets pairs).count = pairs.length ∧
    (inserted buckets pairs).distinct = (pairs.map Prod.fst).toFinset.card ∧
    4 * (inserted buckets pairs).distinct ≤ 3 * (inserted buckets pairs).bucketCount ∧
    (∀ hash, ∃ walked, Visits (fun entry => (inserted buckets pairs).nextSameHash? entry hash)
        ((inserted buckets pairs).lookup? hash) walked ∧ walked = (inserted buckets pairs).walk hash ∧ walked.Nodup ∧
        walked.Perm ((numbered pairs).filter fun entry => entry.hash = hash) ∧
        (walked.map Entry.payload).Perm ((pairs.filter fun pair => pair.1 = hash).map Prod.snd) ∧
        ((inserted buckets pairs).lookup? hash = none ↔ hash ∉ pairs.map Prod.fst)) ∧
    ∃ scanned, Visits (inserted buckets pairs).next? (inserted buckets pairs).first? scanned ∧
      scanned = (inserted buckets pairs).entries ∧ scanned.Nodup ∧ scanned.Perm (numbered pairs) := by
  have sound := Sound.inserted buckets pairs
  have holds := sound.toHolds
  have nodup := nodup_numbers pairs
  have count := sound.count
  have distinct := holds.distinct
  rw [length_numbered] at count
  rw [hashes_numbered] at distinct
  refine ⟨sound.power, ?_, count, distinct, sound.load, ?_, ?_⟩
  · intro bucket chain found
    refine ⟨(nodup_chain found ((holds.same.map _).nodup_iff.mpr nodup)).of_map, fun entry => ?_⟩
    rw [← sound.mask]
    constructor
    · intro among
      exact ⟨holds.same.mem_iff.mp (mem_entries.mpr ⟨bucket, chain, found, among⟩),
        holds.placed bucket chain found entry among⟩
    · rintro ⟨member, here⟩
      have among := holds.mem_chainOf.mpr ⟨member, rfl⟩
      rw [← here, chainOf_eq holds.positive, Option.some.injEq] at found
      rw [← found]
      exact among
  · intro hash
    have walked := holds.walk_perm nodup hash
    refine ⟨_, holds.visits_walk nodup hash, rfl, walked.nodup_iff.mpr (nodup.of_map.filter _), walked, ?_, ?_⟩
    · exact (walked.map _).trans (payloads_numbered pairs hash ▸ List.Perm.refl _)
    · rw [← hashes_numbered, ← holds.known_iff]
      simp [lookup?]
  · exact ⟨_, holds.visits_entries nodup, rfl, holds.same.nodup_iff.mpr nodup.of_map, holds.same⟩

end ChainTable

end QueryEngine
