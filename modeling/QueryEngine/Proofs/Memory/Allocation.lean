import QueryEngine.Proofs.Memory.Nodes

namespace QueryEngine

open List Entry

open Machine (scratchAddress scratchSpan)

open Action

variable {memory : PoolMemory} {m : Machine} {size hash next : Word}

namespace Machine

/-- Nothing but headers of nodes at these places has been written, and memory may have been taken. -/
structure Arranges (m : Machine) (places : List Nat) (m' : Machine) : Prop where
  same : ({ m with taken := m'.taken } : Machine).SameButScratch m'
  taken : m.taken ≤ m'.taken
  keeps : ∀ i, i < scratchSpan → (∀ place ∈ places, i < place ∨ place + nodeHeader ≤ i) → m'.cell i = m.cell i

theorem Arranges.trans (first : m.Arranges places m1) (second : m1.Arranges more m2) : m.Arranges (places ++ more) m2 where
  same := by
    have one := first.same
    have two := second.same
    exact ⟨two.program.trans one.program, two.database.trans one.database, two.settings.trans one.settings, rfl,
      two.objects.trans one.objects, two.pending.trans one.pending, two.outcome.trans one.outcome⟩
  taken := Nat.le_trans first.taken second.taken
  keeps := fun i inside away => by
    rw [second.keeps i inside fun place member => away place (mem_append_right _ member),
      first.keeps i inside fun place member => away place (mem_append_left _ member)]

theorem Arranges.mono (arranges : m.Arranges places m1) (subset : ∀ place ∈ places, place ∈ more) :
    m.Arranges more m1 :=
  ⟨arranges.same, arranges.taken, fun i inside away =>
    arranges.keeps i inside fun place member => away place (subset place member)⟩

theorem Relinks.arranges (relinks : m.Relinks entries m1) : m.Arranges (entries.map payload) m1 := by
  have same := relinks.toSameButScratch
  refine ⟨⟨same.program, same.database, same.settings, rfl, same.objects, same.pending, same.outcome⟩,
    Nat.le_of_eq same.taken.symm, fun i inside away => relinks.keeps i inside fun entry member => ?_⟩
  have := away entry.payload (mem_map_of_mem member)
  unfold nodeHeader at this
  omega

theorem Arranges.touches (arranges : m.Arranges places m1) (limit : m.taken ≤ scratchSpan)
    (own : ∀ place ∈ places, Part.range place (place + nodeHeader) ⊆ parts ∪ m.fresh) : m.Touches parts m1 := by
  have same := arranges.same
  refine ⟨⟨same.program, same.database, same.settings, same.pending, arranges.taken, fun reported => ?_⟩,
    fun part has away => ?_⟩
  · rw [same.outcome]
    exact reported
  · cases part with
    | memory offset =>
      refine ⟨arranges.keeps offset (Nat.lt_of_lt_of_le has limit) fun place member => ?_, by rw [same.objects]⟩
      by_contra inside
      have among : Part.memory offset ∈ Part.range place (place + nodeHeader) := Part.mem_range.mpr (by omega)
      rcases own place member among with isOwn | fresh
      · exact away isOwn
      · exact fresh has
    | rows => exact congrArg Outcome.rows same.outcome

end Machine

theorem Pool.le_of_roundUp (rounded : Pool.roundUp? n = some unit) : n ≤ unit := by
  unfold roundUp? at rounded
  split at rounded
  · cases rounded
    omega
  · cases rounded

/-- A node is filled in where the pool has room for it. -/
theorem PoolMemory.Serves.newNode {unit block most left : Nat} {places : List Nat}
    {parts : Set Part} (serves : memory.Serves unit block most places left parts m.taken)
    (rounded : Pool.roundUp? (nodeHeader + size.toNat) = some unit) (few : places.length < most)
    (room : m.taken + left ≤ scratchSpan) :
    ∃ place memory' left' parts' m', newNode memory hash size next m = .ok (scratchAddress place, memory') m' ∧
      memory'.Serves unit block most (places ++ [place]) left' parts' m'.taken ∧ m'.taken + left' = m.taken + left ∧
      m'.taken ≤ scratchSpan ∧ parts' ⊆ parts ∪ m.fresh ∧ m.Arranges [place] m' ∧ m'.load 8 (scratchAddress place) = next ∧
      m'.load 8 (scratchAddress (place + 8)) = hash := by
  have header := Pool.le_of_roundUp rounded
  have positive : 0 < unit := by
    unfold nodeHeader at header
    omega
  obtain ⟨place, memory', left', parts', taken', takes, serves', budget, more, limit, own⟩ :=
    serves.take (m := m) rounded positive few room
  have inside := serves'.inside place (mem_append_right _ mem_cons_self)
  unfold nodeHeader at header
  set m1 : Machine := { m with taken := taken' } with isTaken
  set m2 := m1.store 8 (scratchAddress place) next with isLinked
  have first : m1.Writes place (place + 8) m2 := m1.store_writes next (by omega)
  set m3 := m2.store 8 (scratchAddress (place + 8)) hash with isHashed
  have second : m2.Writes (place + 8) (place + 8 + 8) m3 := m2.store_writes hash (by omega)
  have third : m3.Writes (place + 16) (place + 16 + 8) (m3.store 8 (scratchAddress (place + 16)) size) :=
    m3.store_writes size (by omega)
  have all := ((first.mono (Nat.le_refl _) (by omega : place + 8 ≤ place + 24)).trans
    (second.mono (by omega) (by omega))).trans (third.mono (by omega) (by omega))
  refine ⟨place, memory', left', parts', m3.store 8 (scratchAddress (place + 16)) size, ?_, ?_, ?_, ?_, own,
    ⟨?_, ?_, fun i small away => ?_⟩, ?_, ?_⟩
  · have taken : takeFrom memory (nodeHeader + size.toNat) m = .ok (scratchAddress place, memory') m1 := by
      change (orTrap (m.takeFrom? memory _) >>= fun taken => _) m = _
      rw [takes]
      rfl
    have hashAt : scratchAddress place + 8 = scratchAddress (place + 8) := Machine.scratchAddress_add place 8
    have sizeAt : scratchAddress place + 16 = scratchAddress (place + 16) := Machine.scratchAddress_add place 16
    unfold Action.newNode
    rw [bind_of_ok taken]
    dsimp only
    rw [bind_of_ok (show (modify _ : Action Unit) _ = .ok () _ from rfl), hashAt, sizeAt]
    rfl
  · rw [all.taken]
    exact serves'
  · rw [all.taken]
    exact budget
  · rw [all.taken]
    exact limit
  · exact ⟨all.program, all.database, all.settings, rfl, all.objects, all.pending, all.outcome⟩
  · rw [all.taken]
    exact more
  · exact all.keeps i small (by simpa [nodeHeader] using away)
  · rw [third.load (by omega) (by omega), second.load (by omega) (by omega), isLinked, Machine.load_store _ _ (by omega),
      Word.ofBytes_bytes]
  · rw [third.load (by omega) (by omega), isHashed, Machine.load_store _ _ (by omega), Word.ofBytes_bytes]

/-- The entries after one more has been made, for a node at `place`. -/
def Entry.appended (held : List (Entry Nat)) (hash : Word) (place : Nat) : List (Entry Nat) :=
  held ++ [⟨held.length, hash, place⟩]

theorem Entry.payloads_appended (held : List (Entry Nat)) (hash : Word) (place : Nat) :
    (appended held hash place).map payload = held.map payload ++ [place] := by
  simp [appended]

section

variable {m' : Machine} {held : List (Entry Nat)}

theorem PoolMemory.Serves.away (serves : memory.Serves unit block most (held.map payload) left parts m.taken)
    (header : nodeHeader ≤ unit) : held.Pairwise Entry.Away := by
  refine (pairwise_map.mp serves.apart).imp fun {first second} apart => ?_
  unfold Entry.Away
  omega

/-- The bytes behind the headers stay when headers are written. -/
theorem PoolMemory.Serves.payload_kept (serves : memory.Serves unit block most (held.map payload) left parts m'.taken)
    (limit : m'.taken ≤ scratchSpan) (arranges : m.Arranges (held.map payload) m')
    (member : entry ∈ held) (i : Nat) (lower : entry.payload + nodeHeader ≤ i) (upper : i < entry.payload + unit) :
    m'.cell i = m.cell i := by
  have among : entry.payload ∈ held.map payload := mem_map_of_mem member
  have inside := serves.inside entry.payload among
  refine arranges.keeps i (by omega) fun place isPlace => ?_
  by_cases same : place = entry.payload
  · omega
  · have := serves.apart_of_ne among isPlace (Ne.symm same)
    omega

/-- A node for one more entry has been arranged at `place`, with memory of the pool. -/
structure Entry.Arranged (memory : PoolMemory) (unit block most : Nat) (held : List (Entry Nat)) (hash : Word)
    (place left left' : Nat) (parts parts' : Set Part) (m m' : Machine) : Prop where
  serves : memory.Serves unit block most ((appended held hash place).map Entry.payload) left' parts' m'.taken
  budget : m'.taken + left' = m.taken + left
  limit : m'.taken ≤ scratchSpan
  inside : parts' ⊆ parts ∪ m.fresh
  arranges : m.Arranges ((appended held hash place).map Entry.payload) m'

section

variable (serves : memory.Serves unit block most (held.map Entry.payload) left parts m.taken)
  (rounded : Pool.roundUp? (nodeHeader + size.toNat) = some unit) (few : held.length < most)
  (room : m.taken + left ≤ scratchSpan)

include serves rounded few room

/-- The headers of the nodes that are there stay when one more is filled in. -/
theorem PoolMemory.Serves.newEntry (hash next : Word) :
    ∃ place memory' left' parts' m', Action.newNode memory hash size next m = .ok (scratchAddress place, memory') m' ∧
      Entry.Arranged memory' unit block most held hash place left left' parts parts' m m' ∧
      m'.NodeAt ⟨held.length, hash, place⟩ ∧ m'.load 8 (scratchAddress place) = next ∧
      ∀ entry ∈ held, ∀ i, entry.payload ≤ i → i < entry.payload + nodeHeader → m'.cell i = m.cell i := by
  have header := Nat.le_trans (Nat.le_add_right _ _) (Pool.le_of_roundUp rounded)
  obtain ⟨place, memory', left', parts', m', makes, serves', budget, limit, own, arranges, linked, hashed⟩ :=
    serves.newNode rounded (by rwa [length_map]) room
  have inside := serves'.inside place (mem_append_right _ mem_cons_self)
  refine ⟨place, memory', left', parts', m', makes, ⟨?_, budget, limit, own, ?_⟩, ⟨?_, ?_⟩, linked,
    fun entry member i lower upper => ?_⟩
  · rwa [payloads_appended]
  · rw [payloads_appended]
    exact arranges.mono fun other member => mem_append_right _ member
  · dsimp only
    omega
  · rw [Machine.hash_address]
    exact hashed
  · have among : entry.payload ∈ held.map payload := mem_map_of_mem member
    have bound := serves'.inside entry.payload (mem_append_left _ among)
    refine arranges.keeps i (by omega) fun other isNew => ?_
    rw [mem_singleton.mp isNew]
    have := (pairwise_append.mp serves'.apart).2.2 entry.payload among place mem_cons_self
    omega

/-- A new node is linked into the table, and all nodes again where the table is rehashed. -/
theorem NodeTable.Follows.insert {nodes : NodeTable} {table : ChainTable Nat} (follows : nodes.Follows memory m table)
    (sound : table.Sound held) (short : most < chainLimit) (hash : Word) :
    ∃ place memory' nodes' left' parts' m', nodes.insert hash size m = .ok (scratchAddress place, nodes') m' ∧
      nodes'.Follows memory' m' (table.insert hash place) ∧
      Entry.Arranged memory' unit block most held hash place left left' parts parts' m m' := by
  have header := Nat.le_trans (Nat.le_add_right _ _) (Pool.le_of_roundUp rounded)
  obtain ⟨place, memory', left', parts', m1, makes, arranged, node, _, kept⟩ :=
    serves.newEntry rounded few room hash 0
  set entry : Entry Nat := ⟨held.length, hash, place⟩ with isEntry
  -- The nodes that are there already are still linked.
  have follows1 : ({ nodes with memory := memory' } : NodeTable).Follows memory' m1 table :=
    ⟨follows.linked.congr fun old member => kept old (sound.same.mem_iff.mp member), follows.distinct, rfl⟩
  have apart := arranged.serves.away header
  have away (other : Entry Nat) (member : other ∈ held) : entry.Away other :=
    ((pairwise_append.mp apart).2.2 other member entry mem_cons_self).symm
  obtain ⟨nodes2, m2, links, follows2, relinks⟩ := follows1.link sound.toHolds (by omega) node away
  let grown : ChainTable Nat := { table.link entry with count := held.length + 1 }
  have linked : grown.Holds (held ++ [entry]) := by
    have moved := (sound.toHolds.link entry).perm (perm_append_singleton _ _).symm
    exact ⟨moved.positive, moved.placed, moved.same, moved.distinct⟩
  have follows3 : nodes2.Follows memory' m2 grown :=
    ⟨⟨follows2.linked.size, follows2.linked.chain⟩, follows2.distinct, follows2.memory⟩
  obtain ⟨nodes3, m3, settles, follows4, relinks3⟩ := follows3.settle linked (by simp; omega) apart
  have taken : m3.taken = m1.taken := relinks3.taken.trans relinks.taken
  refine ⟨place, memory', nodes3, left', parts', m3, ?_, ?_, ?_⟩
  · have links' : NodeTable.link { nodes with memory := memory' } (scratchAddress place) m1 = .ok nodes2 m2 := links
    unfold NodeTable.insert
    rw [follows.memory, bind_of_ok makes]
    dsimp only
    rw [bind_of_ok links']
    by_cases heavy : nodes2.overloaded = true
    · rw [if_pos heavy] at settles ⊢
      rw [bind_of_ok settles]
      rfl
    · rw [if_neg heavy] at settles ⊢
      cases settles
      rfl
  · unfold ChainTable.insert
    rw [sound.count]
    exact follows4
  · refine ⟨taken ▸ arranged.serves, taken ▸ arranged.budget, taken ▸ arranged.limit, arranged.inside,
      ((arranged.arranges.trans relinks.arranges).trans relinks3.arranges).mono fun other member => ?_⟩
    rcases mem_append.mp member with early | late
    · rcases mem_append.mp early with old | new
      · exact old
      · exact map_subset _ (cons_subset.mpr ⟨mem_append_right _ mem_cons_self, nil_subset _⟩) new
    · exact late

/-- A new node goes before those that were appended earlier. -/
theorem NodeList.append_run {last : Word} {count : Nat} (chain : m.Chain held.reverse last) (hash : Word) :
    ∃ place memory' left' parts' m', NodeList.append ⟨last, count, memory⟩ hash size m =
        .ok (scratchAddress place, ⟨scratchAddress place, count + 1, memory'⟩) m' ∧
      m'.Chain (appended held hash place).reverse (scratchAddress place) ∧
      Entry.Arranged memory' unit block most held hash place left left' parts parts' m m' := by
  obtain ⟨place, memory', left', parts', m', makes, arranged, node, linked, kept⟩ :=
    serves.newEntry rounded few room hash last
  refine ⟨place, memory', left', parts', m', ?_, ?_, arranged⟩
  · unfold NodeList.append
    rw [bind_of_ok makes]
    rfl
  · rw [appended, reverse_append]
    refine ⟨rfl, node, ?_⟩
    have link : m'.load 8 (address ⟨held.length, hash, place⟩) = last := linked
    rw [link]
    exact chain.congr fun old member => kept old (mem_reverse.mp member)

end

/-- All nodes of a list are linked into a table, whose chains have them in the order in which they were appended. -/
theorem NodeList.build_run (list : NodeList) (chain : m.Chain held.reverse list.last) (apart : held.Pairwise Entry.Away)
    (short : held.length < chainLimit) :
    ∃ buckets m', list.build m = .ok buckets m' ∧ m'.Linked buckets (.built (bucketsFor list.count) held) ∧
      m.Relinks held m' := by
  let start : ChainTable Nat := { chains := Array.replicate (bucketsFor list.count) [] }
  have empty : start.Holds [] := .empty (bucketsFor_pos _) rfl rfl
  have apart' : (held.reverse ++ []).Pairwise Entry.Away := by
    rw [append_nil]
    exact ((reverse_perm held).pairwise_iff fun away => away.symm).mpr apart
  obtain ⟨buckets, m', runs, linked, relinks⟩ := chain.eachNode (fun m buckets table => m.Linked buckets table)
    (fun linked holds _ node away => linked.pushFront holds.positive node fun other member =>
      away other (holds.same.mem_iff.mp member))
    (Machine.Linked.empty m rfl : m.Linked _ start) empty apart' (by simp; omega) chainLimit (by simpa using short)
  exact ⟨buckets, m', runs, linked, relinks.mono fun entry member => mem_reverse.mp member⟩

end

end QueryEngine
