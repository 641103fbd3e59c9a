import QueryEngine.Proofs.Memory.Pools
import QueryEngine.Proofs.Storage.Chaining

namespace QueryEngine

open Action List ChainTable

variable {m m1 : Machine} {entries held : List (Entry Nat)} {a : Word} {table : ChainTable Nat}
  {entry other : Entry Nat}

/-- Entries of a table in memory have the offsets of their nodes as payloads. -/
def Entry.address (entry : Entry Nat) : Word := Machine.scratchAddress entry.payload

/-- The address of a node, and the null address where there is none. -/
def nodeAddress : Option (Entry Nat) → Word
  | none => 0
  | some entry => entry.address

/-- The headers of two nodes have no byte in common. -/
def Entry.Away (entry other : Entry Nat) : Prop :=
  entry.payload + nodeHeader ≤ other.payload ∨ other.payload + nodeHeader ≤ entry.payload

theorem Entry.Away.symm (away : entry.Away other) : other.Away entry := Or.symm away

namespace Machine

/-- A node with its hash code filled in. -/
structure NodeAt (m : Machine) (entry : Entry Nat) : Prop where
  inside : entry.payload + nodeHeader ≤ scratchSpan
  hash : m.load 8 (entry.address + 8) = entry.hash

/-- The nodes of a chain, from an address on up to the null address. -/
def Chain (m : Machine) : List (Entry Nat) → Word → Prop
  | [], a => a = 0
  | entry :: rest, a => a = entry.address ∧ m.NodeAt entry ∧ m.Chain rest (m.load 8 entry.address)

/-- Nothing but links of these nodes has been written. -/
structure Relinks (m : Machine) (entries : List (Entry Nat)) (m' : Machine) : Prop extends m.SameButScratch m' where
  keeps : ∀ i, i < scratchSpan → (∀ entry ∈ entries, i < entry.payload ∨ entry.payload + 8 ≤ i) → m'.cell i = m.cell i

variable {m2 : Machine} {rest : List (Entry Nat)}

theorem NodeAt.ne_zero (node : m.NodeAt entry) : entry.address ≠ 0 := by
  have inside := node.inside
  unfold nodeHeader at inside
  exact scratchAddress_ne_zero (by omega)

theorem hash_address (entry : Entry Nat) : entry.address + 8 = scratchAddress (entry.payload + 8) :=
  scratchAddress_add entry.payload 8

theorem Relinks.refl (m : Machine) (entries : List (Entry Nat)) : m.Relinks entries m := ⟨.refl m, fun _ _ _ => rfl⟩

theorem Relinks.trans (first : m.Relinks entries m1) (second : m1.Relinks rest m2) : m.Relinks (entries ++ rest) m2 := by
  refine ⟨first.toSameButScratch.trans second.toSameButScratch, fun i inside away => ?_⟩
  rw [second.keeps i inside fun entry member => away entry (mem_append_right _ member),
    first.keeps i inside fun entry member => away entry (mem_append_left _ member)]

theorem Relinks.mono (relinks : m.Relinks entries m1) (subset : ∀ entry ∈ entries, entry ∈ rest) : m.Relinks rest m1 :=
  ⟨relinks.toSameButScratch, fun i inside away => relinks.keeps i inside fun entry member => away entry (subset entry member)⟩

/-- A link that is written. -/
theorem store_relinks (m : Machine) (w : Word) (inside : entry.payload + nodeHeader ≤ scratchSpan) :
    m.Relinks [entry] (m.store 8 entry.address w) := by
  unfold nodeHeader at inside
  have writes : m.Writes entry.payload (entry.payload + 8) (m.store 8 entry.address w) := store_writes m w (by omega)
  exact ⟨writes.toSameButScratch, fun i small away => writes.keeps i small (away entry mem_cons_self)⟩

/-- The hash code of a node is not a part of any link. -/
theorem Relinks.node (relinks : m.Relinks entries m1) (node : m.NodeAt entry)
    (away : ∀ other ∈ entries, other = entry ∨ entry.Away other) : m1.NodeAt entry := by
  have inside := node.inside
  unfold nodeHeader at inside
  refine ⟨node.inside, ?_⟩
  rw [← node.hash, hash_address]
  refine load_congr fun i lower upper => relinks.keeps i (by omega) fun other member => ?_
  rcases away other member with rfl | apart
  · omega
  · unfold Entry.Away nodeHeader at apart
    omega

/-- A chain is made of the headers of its nodes. -/
theorem Chain.congr (chain : m.Chain entries a)
    (same : ∀ entry ∈ entries, ∀ i, entry.payload ≤ i → i < entry.payload + nodeHeader → m1.cell i = m.cell i) :
    m1.Chain entries a := by
  induction entries generalizing a with
  | nil => exact chain
  | cons entry entries ih =>
    obtain ⟨here, node, tail⟩ := chain
    have header := same entry mem_cons_self
    unfold nodeHeader at header
    have link : m1.load 8 entry.address = m.load 8 entry.address :=
      load_congr fun i lower upper => header i lower (by omega)
    refine ⟨here, ⟨node.inside, ?_⟩, ?_⟩
    · rw [← node.hash, hash_address]
      exact load_congr fun i lower upper => header i (by omega) (by omega)
    · rw [link]
      exact ih tail fun later member => same later (mem_cons_of_mem _ member)

/-- The part of a chain after a node. -/
theorem Chain.after (chain : m.Chain (before ++ entry :: rest) a) :
    m.NodeAt entry ∧ m.Chain rest (m.load 8 entry.address) := by
  induction before generalizing a with
  | nil => exact chain.2
  | cons other before ih => exact ih chain.2.2

/-- A chain of which no link has been written is the same chain. -/
theorem Chain.relinked (chain : m.Chain entries a) (relinks : m.Relinks rest m1)
    (away : ∀ entry ∈ entries, ∀ other ∈ rest, entry.Away other) : m1.Chain entries a := by
  refine chain.congr fun entry member i lower upper => ?_
  have inside : entry.payload + nodeHeader ≤ scratchSpan := by
    obtain ⟨before, later, rfl⟩ := append_of_mem member
    exact chain.after.1.inside
  refine relinks.keeps i (by omega) fun other among => ?_
  have apart := away entry member other among
  unfold Entry.Away nodeHeader at apart
  unfold nodeHeader at upper
  omega

theorem Chain.findInChain (chain : m.Chain entries a) (hash : Word) (short : entries.length < limit) :
    findInChain hash limit a m = .ok (nodeAddress (entries.find? fun entry => entry.hash = hash)) m := by
  induction entries generalizing a limit with
  | nil =>
    obtain ⟨limit, rfl⟩ := Nat.exists_eq_add_of_le' (Nat.zero_lt_of_lt short)
    have zero : a = 0 := chain
    rw [findInChain, if_pos zero]
    rfl
  | cons entry entries ih =>
    obtain ⟨limit, rfl⟩ := Nat.exists_eq_add_of_le' (Nat.zero_lt_of_lt short)
    obtain ⟨rfl, node, tail⟩ := chain
    rw [findInChain, if_neg node.ne_zero]
    rw [bind_of_ok (show nodeHash entry.address m = .ok entry.hash m by rw [← node.hash]; rfl)]
    by_cases found : entry.hash = hash
    · rw [if_pos found, find?_cons_of_pos (by simpa using found)]
      rfl
    · rw [if_neg found, find?_cons_of_neg (by simpa using found),
        bind_of_ok (show nodeNext entry.address m = .ok (m.load 8 entry.address) m from rfl)]
      exact ih tail (by simpa using short)

end Machine

/-- The chain of every bucket, from the address in the bucket on. -/
structure Machine.Linked (m : Machine) (buckets : Array Word) (table : ChainTable Nat) : Prop where
  size : buckets.size = table.chains.size
  chain : ∀ (bucket : Nat) (chain : List (Entry Nat)), table.chains[bucket]? = some chain →
    m.Chain chain (buckets.getD bucket 0)

namespace Machine.Linked

variable {buckets : Array Word}

theorem empty (m : Machine) {size : Nat} (chains : table.chains = Array.replicate size []) :
    m.Linked (Array.replicate size 0) table := by
  refine ⟨by simp [chains], fun bucket chain found => ?_⟩
  rw [chains, Array.getElem?_replicate] at found
  split at found
  next bound =>
    cases found
    simp [Chain, bound]
  · cases found

variable (linked : m.Linked buckets table)

include linked

theorem bucketOf (hash : Word) :
    bucketOf buckets hash = bucketOf table.chains hash := by
  unfold Action.bucketOf ChainTable.bucketOf
  rw [linked.size]

theorem headOf (positive : 0 < table.chains.size) (hash : Word) :
    m.Chain (table.chainOf hash) (headOf buckets hash) := by
  unfold Action.headOf
  rw [linked.bucketOf]
  exact linked.chain _ _ (chainOf_eq positive hash)

theorem relinked (relinks : m.Relinks entries m1) (away : ∀ entry ∈ table.entries, ∀ other ∈ entries, entry.Away other) :
    m1.Linked buckets table where
  size := linked.size
  chain := fun bucket chain found => (linked.chain bucket chain found).relinked relinks fun entry member =>
    away entry (mem_entries.mpr ⟨bucket, chain, found, member⟩)

theorem congr
    (same : ∀ entry ∈ table.entries, ∀ i, entry.payload ≤ i → i < entry.payload + nodeHeader → m1.cell i = m.cell i) :
    m1.Linked buckets table where
  size := linked.size
  chain := fun bucket chain found => (linked.chain bucket chain found).congr fun entry member =>
    same entry (mem_entries.mpr ⟨bucket, chain, found, member⟩)

/-- Every entry is a node. -/
theorem node (member : entry ∈ table.entries) : m.NodeAt entry := by
  obtain ⟨bucket, chain, found, among⟩ := mem_entries.mp member
  obtain ⟨_, after, rfl⟩ := append_of_mem among
  exact (linked.chain bucket _ found).after.1

omit linked in
theorem length_chainOf (positive : 0 < table.chains.size) (hash : Word) :
    (table.chainOf hash).length ≤ table.entries.length := by
  refine (sublist_flatten_of_mem ?_).length_le
  exact mem_iff_getElem?.mpr ⟨_, by simpa using chainOf_eq positive hash⟩

theorem lookup (positive : 0 < table.chains.size) (hash : Word) (short : table.entries.length < chainLimit) :
    lookup buckets hash m = .ok (nodeAddress (table.lookup? hash)) m :=
  (linked.headOf positive hash).findInChain hash (Nat.lt_of_le_of_lt (length_chainOf positive hash) short)

/-- What follows a node in its chain. -/
theorem after (holds : table.Holds held) (nodup : (held.map Entry.number).Nodup) (member : entry ∈ held) :
    ∃ rest, entriesAfter? entry.number (table.chainOf entry.hash) = some rest ∧
      m.NodeAt entry ∧ m.Chain rest (m.load 8 entry.address) ∧ rest.length < table.entries.length := by
  have among := holds.mem_chainOf.mpr ⟨member, rfl⟩
  have numbers := nodup_chain (chainOf_eq holds.positive entry.hash)
    ((holds.same.map _).nodup_iff.mpr nodup)
  have chain := linked.headOf holds.positive entry.hash
  have short := length_chainOf holds.positive entry.hash
  obtain ⟨before, rest, split⟩ := append_of_mem among
  rw [split] at numbers chain short
  refine ⟨rest, ?_, chain.after.1, chain.after.2, ?_⟩
  · rw [split]
    exact entriesAfter?_append (fresh_of_nodup numbers)
  · rw [length_append, length_cons] at short
    omega

theorem nextSameHash (holds : table.Holds held) (nodup : (held.map Entry.number).Nodup) (member : entry ∈ held)
    (hash : Word) (short : table.entries.length < chainLimit) :
    nextSameHash entry.address hash m = .ok (nodeAddress (table.nextSameHash? entry hash)) m := by
  obtain ⟨_, found, _, chain, fewer⟩ := linked.after holds nodup member
  unfold Action.nextSameHash
  rw [bind_of_ok (show nodeNext entry.address m = .ok (m.load 8 entry.address) m from rfl),
    chain.findInChain hash (Nat.lt_trans fewer short), nextSameHash?, found]
  rfl

/-- A node goes to the front of its chain. -/
theorem pushFront (positive : 0 < table.chains.size) (node : m.NodeAt entry)
    (away : ∀ other ∈ table.entries, entry.Away other) :
    ∃ buckets' m', pushFront buckets entry.address m = .ok buckets' m' ∧ m'.Linked buckets' (table.link entry) ∧
      m.Relinks [entry] m' := by
  set bucket := ChainTable.bucketOf table.chains entry.hash with isBucket
  have bound : bucket < table.chains.size := ChainTable.bucketOf_lt positive entry.hash
  have relinks := store_relinks m (Action.headOf buckets entry.hash) node.inside
  have kept := linked.relinked relinks fun other member same isEntry => by
    rw [mem_singleton.mp isEntry]
    exact (away other member).symm
  refine ⟨buckets.setIfInBounds bucket entry.address, m.store 8 entry.address (Action.headOf buckets entry.hash),
    ?_, ⟨?_, fun other chain found => ?_⟩, relinks⟩
  · unfold Action.pushFront
    rw [bind_of_ok (show nodeHash entry.address m = .ok entry.hash m by rw [← node.hash]; rfl), isBucket,
      ← linked.bucketOf]
    rfl
  · simp [ChainTable.link, linked.size]
  · simp only [ChainTable.link, ← isBucket, Array.getElem?_modify] at found
    split at found
    next here =>
      subst here
      rw [ChainTable.chainOf_eq positive, Option.map_some, Option.some.injEq] at found
      subst found
      have link : (m.store 8 entry.address (Action.headOf buckets entry.hash)).load 8 entry.address =
          Action.headOf buckets entry.hash := by
        have inside := node.inside
        unfold nodeHeader at inside
        exact (load_store m _ (by omega)).trans (Word.ofBytes_bytes _)
      have inBuckets : bucket < buckets.size := by rw [linked.size]; exact bound
      refine ⟨by simp [inBuckets], relinks.node node fun other member => .inl (mem_singleton.mp member), ?_⟩
      rw [link]
      exact kept.headOf positive entry.hash
    next elsewhere =>
      have same : (buckets.setIfInBounds bucket entry.address).getD other 0 = buckets.getD other 0 := by
        simp [elsewhere]
      rw [same]
      exact kept.chain other chain found

/-- The heads of all chains. -/
theorem forall₂ : Forall₂ m.Chain table.chains.toList buckets.toList := by
  refine forall₂_iff_get.mpr ⟨by simpa using linked.size.symm, fun i first second => ?_⟩
  have bound : i < table.chains.size := by simpa using first
  have chain := linked.chain i table.chains[i] (Array.getElem?_eq_getElem bound)
  have inside : i < buckets.size := by rwa [linked.size]
  simpa [inside] using chain

end Machine.Linked

section

variable {σ : Type} {step : σ → Word → Action σ} (Follows : Machine → σ → ChainTable Nat → Prop) {state : σ}

variable (links : ∀ {m state table held entry}, Follows m state table → table.Holds held → held.length < chainLimit → m.NodeAt entry → (∀ other ∈ held, entry.Away other) → ∃ state' m', step state entry.address m = .ok state' m' ∧ Follows m' state' (table.link entry) ∧ m.Relinks [entry] m')

include links

/-- The nodes of a chain are linked into a table one after the other. The rest of the chain is not touched on the way. -/
theorem Machine.Chain.eachNode (chain : m.Chain entries a) (follows : Follows m state table) (holds : table.Holds held)
    (apart : (entries ++ held).Pairwise Entry.Away) (few : entries.length + held.length ≤ chainLimit) (limit : Nat)
    (short : entries.length < limit) :
    ∃ state' m', eachNode step limit state a m = .ok state' m' ∧ Follows m' state' (entries.foldl link table) ∧
      m.Relinks entries m' := by
  induction entries generalizing m state table held a limit with
  | nil =>
    obtain ⟨limit, rfl⟩ := Nat.exists_eq_add_of_le' (Nat.zero_lt_of_lt short)
    have zero : a = 0 := chain
    refine ⟨state, m, ?_, follows, .refl m []⟩
    rw [eachNode, if_pos zero]
    rfl
  | cons entry entries ih =>
    obtain ⟨limit, rfl⟩ := Nat.exists_eq_add_of_le' (Nat.zero_lt_of_lt short)
    obtain ⟨rfl, node, tail⟩ := chain
    rw [length_cons] at few short
    obtain ⟨away, apart⟩ := pairwise_cons.mp apart
    obtain ⟨state1, m1, first, follows1, relinks⟩ := links follows holds (by omega) node fun other member =>
      away other (mem_append_right _ member)
    have tail1 := tail.relinked relinks fun later member other isEntry => by
      rw [mem_singleton.mp isEntry]
      exact (away later (mem_append_left _ member)).symm
    have apart1 : (entries ++ entry :: held).Pairwise Entry.Away := by
      refine (perm_middle.pairwise_iff fun away => away.symm).mpr ?_
      exact pairwise_cons.mpr ⟨away, apart⟩
    obtain ⟨state2, m2, rest, follows2, relinks2⟩ := ih tail1 follows1 (holds.link entry) apart1
      (by rw [length_cons]; omega) limit (by omega)
    refine ⟨state2, m2, ?_, follows2, relinks.trans relinks2⟩
    rw [eachNode, if_neg node.ne_zero,
      bind_of_ok (show nodeNext entry.address m = .ok (m.load 8 entry.address) m from rfl), bind_of_ok first]
    exact rest

/-- The nodes of all chains, chain by chain. -/
theorem Machine.eachChain {chains : List (List (Entry Nat))} {heads : List Word} (linked : Forall₂ m.Chain chains heads)
    (follows : Follows m state table) (holds : table.Holds held) (apart : (chains.flatten ++ held).Pairwise Entry.Away)
    (few : chains.flatten.length + held.length < chainLimit) :
    ∃ state' m', heads.foldlM (fun state head => eachNode step chainLimit state head) state m = .ok state' m' ∧
      Follows m' state' (chains.flatten.foldl link table) ∧ m.Relinks chains.flatten m' := by
  induction chains generalizing m state table held heads with
  | nil =>
    cases linked
    exact ⟨state, m, rfl, follows, .refl m []⟩
  | cons chain chains ih =>
    obtain ⟨head, heads, first, others, rfl⟩ := forall₂_cons_left_iff.mp linked
    rw [flatten_cons] at apart few ⊢
    rw [length_append] at few
    rw [append_assoc] at apart
    obtain ⟨own, later, between⟩ := pairwise_append.mp apart
    have apart1 : (chain ++ held).Pairwise Entry.Away :=
      apart.sublist (List.Sublist.append_left (sublist_append_right _ _) _)
    obtain ⟨state1, m1, runs, follows1, relinks⟩ := first.eachNode Follows links follows holds apart1 (by omega)
      chainLimit (by omega)
    have others1 : Forall₂ m1.Chain chains heads := by
      refine forall₂_iff_zip.mpr ⟨others.length_eq, fun {chain' head'} pair => ?_⟩
      refine ((forall₂_iff_zip.mp others).2 pair).relinked relinks fun entry member other among => ?_
      refine (between other among entry ?_).symm
      exact mem_append_left _ (mem_flatten.mpr ⟨chain', (of_mem_zip pair).1, member⟩)
    have apart2 : (chains.flatten ++ (chain.reverse ++ held)).Pairwise Entry.Away := by
      refine (List.Perm.pairwise_iff (fun away => Entry.Away.symm away) ?_).mpr apart
      rw [← append_assoc, ← append_assoc]
      exact (perm_append_comm.trans ((reverse_perm chain).append_right _)).append_right held
    obtain ⟨state2, m2, rest, follows2, relinks2⟩ := ih others1 follows1 (holds.foldl_link chain) apart2 (by
      rw [length_append, length_reverse]
      omega)
    refine ⟨state2, m2, ?_, ?_, relinks.trans relinks2⟩
    · rw [foldlM_cons, bind_of_ok runs]
      exact rest
    · rw [foldl_append]
      exact follows2

end

/-- A table of nodes does what a table of lists does. -/
structure NodeTable.Follows (memory : PoolMemory) (m : Machine) (nodes : NodeTable) (table : ChainTable Nat) : Prop where
  linked : m.Linked nodes.buckets table
  distinct : nodes.distinct = table.distinct
  memory : nodes.memory = memory

namespace NodeTable.Follows

variable {memory : PoolMemory} {nodes : NodeTable}

variable (follows : nodes.Follows memory m table)

include follows

theorem link (holds : table.Holds held) (few : held.length < chainLimit) (node : m.NodeAt entry)
    (away : ∀ other ∈ held, entry.Away other) :
    ∃ nodes' m', nodes.link entry.address m = .ok nodes' m' ∧ nodes'.Follows memory m' (table.link entry) ∧
      m.Relinks [entry] m' := by
  have short : table.entries.length < chainLimit := by rwa [holds.same.length_eq]
  obtain ⟨buckets, m', pushes, linked, relinks⟩ := follows.linked.pushFront holds.positive node fun other member =>
    away other (holds.same.mem_iff.mp member)
  let found := nodeAddress (table.lookup? entry.hash)
  refine ⟨{ nodes with buckets, distinct := if found = 0 then nodes.distinct + 1 else nodes.distinct }, m', ?_,
    ⟨linked, ?_, follows.memory⟩, relinks⟩
  · unfold NodeTable.link
    rw [bind_of_ok (show nodeHash entry.address m = .ok entry.hash m by rw [← node.hash]; rfl),
      bind_of_ok (follows.linked.lookup holds.positive entry.hash short), bind_of_ok pushes]
    rfl
  · -- An address is null just where no entry has been found.
    have isNull : nodeAddress (table.lookup? entry.hash) = 0 ↔ ¬ (table.chainOf entry.hash).any fun other =>
        other.hash = entry.hash := by
      cases same : table.lookup? entry.hash with
      | none => simpa [nodeAddress, ChainTable.lookup?] using same
      | some other =>
        have isOther := find?_some same
        have among := mem_of_find?_eq_some same
        have member : other ∈ table.entries := holds.same.mem_iff.mpr (holds.mem_chainOf.mp among).1
        have known : (table.chainOf entry.hash).any (fun other => other.hash = entry.hash) = true :=
          any_eq_true.mpr ⟨other, among, isOther⟩
        simp only [nodeAddress, (follows.linked.node member).ne_zero, known, not_true_eq_false]
    simp only [ChainTable.link, follows.distinct, found, isNull]
    split <;> simp_all

theorem rehash (holds : table.Holds held) (few : held.length < chainLimit) (apart : held.Pairwise Entry.Away) :
    ∃ nodes' m', nodes.rehash m = .ok nodes' m' ∧ nodes'.Follows memory m' table.rehash ∧ m.Relinks held m' := by
  have start : ({ nodes with buckets := Array.replicate (nodes.buckets.size * 2) 0, distinct := 0 } :
      NodeTable).Follows memory m table.doubled := by
    refine ⟨?_, rfl, follows.memory⟩
    rw [follows.linked.size]
    exact .empty m rfl
  have apart' : (table.chains.toList.flatten ++ []).Pairwise Entry.Away := by
    rw [append_nil]
    exact (holds.same.pairwise_iff fun away => away.symm).mpr apart
  have length : table.chains.toList.flatten.length = held.length := holds.same.length_eq
  obtain ⟨nodes', m', runs, follows', relinks⟩ := Machine.eachChain (NodeTable.Follows memory)
    (fun follows holds few node away => follows.link holds few node away)
    follows.linked.forall₂ start holds.doubled apart' (by rw [length_nil]; omega)
  refine ⟨nodes', m', ?_, ⟨⟨follows'.linked.size, follows'.linked.chain⟩, follows'.distinct, follows'.memory⟩,
    relinks.mono fun entry member => holds.same.mem_iff.mp member⟩
  unfold NodeTable.rehash
  rw [← Array.foldlM_toList]
  exact runs

/-- A table with too many hash codes is rehashed, just as the table of lists is. -/
theorem settle (holds : table.Holds held) (few : held.length < chainLimit) (apart : held.Pairwise Entry.Away) :
    ∃ nodes' m', (if nodes.overloaded then nodes.rehash else pure nodes : Action NodeTable) m = .ok nodes' m' ∧
      nodes'.Follows memory m' (if table.overloaded then table.rehash else table) ∧ m.Relinks held m' := by
  have same : nodes.overloaded = table.overloaded := by
    unfold overloaded ChainTable.overloaded ChainTable.bucketCount
    rw [follows.linked.size, follows.distinct]
  rw [same]
  split
  · exact follows.rehash holds few apart
  · exact ⟨nodes, m, rfl, follows, .refl m held⟩

theorem firstFrom (bucket : Nat) :
    nodes.firstFrom bucket = nodeAddress (table.firstFrom? bucket) := by
  have heads := forall₂_drop bucket follows.linked.forall₂
  rw [firstFrom?_eq]
  unfold NodeTable.firstFrom
  generalize table.chains.toList.drop bucket = chains at heads
  generalize nodes.buckets.toList.drop bucket = buckets at heads
  induction heads with
  | nil => rfl
  | @cons chain head chains buckets first _ ih =>
    cases chain with
    | nil =>
      have zero : head = 0 := first
      rw [find?_cons_of_neg (by simp [zero]), flatten_cons, nil_append]
      exact ih
    | cons entry rest =>
      obtain ⟨rfl, node, _⟩ := first
      rw [find?_cons_of_pos (by simpa using node.ne_zero)]
      rfl

theorem next (holds : table.Holds held) (nodup : (held.map Entry.number).Nodup) (member : entry ∈ held) :
    nodes.next entry.address m = .ok (nodeAddress (table.next? entry)) m := by
  obtain ⟨rest, found, node, chain, _⟩ := follows.linked.after holds nodup member
  unfold NodeTable.next ChainTable.next?
  rw [bind_of_ok (show nodeNext entry.address m = .ok (m.load 8 entry.address) m from rfl), found]
  cases rest with
  | nil =>
    have zero : m.load 8 entry.address = 0 := chain
    rw [if_neg (by simpa using zero),
      bind_of_ok (show nodeHash entry.address m = .ok entry.hash m by rw [← node.hash]; rfl), follows.linked.bucketOf,
      follows.firstFrom]
    rfl
  | cons other rest =>
    obtain ⟨here, node, _⟩ := chain
    rw [here, if_pos node.ne_zero]
    rfl

end NodeTable.Follows

end QueryEngine
