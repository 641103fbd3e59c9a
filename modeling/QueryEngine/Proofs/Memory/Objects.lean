import QueryEngine.Proofs.Memory.Allocation

namespace QueryEngine

open List Machine Routine Entry

open Machine (scratchAddress scratchSpan)

open Action

variable {m m' : Machine} {home place : Nat} {store : NodeStore} {hash : Word}

namespace Machine

/-- Objects under other addresses are the same. -/
theorem lookup_filter_ne (objects : List (Word × MachineObject)) (different : b ≠ a) :
    (objects.filter fun entry => entry.1 ≠ a).lookup b = objects.lookup b := by
  induction objects with
  | nil => rfl
  | cons entry objects ih =>
    obtain ⟨c, _⟩ := entry
    by_cases gone : c = a
    · have other : (b == c) = false := by simpa [gone] using different
      rw [filter_cons_of_neg (by simpa using gone), ih, lookup_cons, other]
    · rw [filter_cons_of_pos (by simpa using gone), lookup_cons, lookup_cons, ih]

theorem lookup_cons_ne (objects : List (Word × MachineObject)) (object : MachineObject) (different : b ≠ a) :
    ((a, object) :: objects).lookup b = objects.lookup b := by
  have other : (b == a) = false := by simpa using different
  rw [lookup_cons, other]

/-- The machine without the object under an address. -/
def without (m : Machine) (a : Word) : Machine := { m with objects := m.objects.filter fun entry => entry.1 ≠ a }

/-- The machine with one more object. -/
def adding (m : Machine) (a : Word) (object : MachineObject) : Machine := { m with objects := (a, object) :: m.objects }

/-- The object under one address is exchanged. -/
theorem Touches.objects {objects : List (Word × MachineObject)} (inside : home < scratchSpan)
    (limit : m.taken ≤ scratchSpan) (others : ∀ b, b ≠ scratchAddress home → objects.lookup b = m.objects.lookup b) :
    m.Touches {.memory home} { m with objects } := by
  refine ⟨⟨rfl, rfl, rfl, rfl, Nat.le_refl _, id⟩, fun part has away => ?_⟩
  cases part with
  | memory offset =>
    refine ⟨rfl, others _ fun same => away ?_⟩
    have here : offset = home := scratchAddress_inj (Nat.lt_of_lt_of_le has limit) inside same
    rw [here]
    rfl
  | rows => rfl

end Machine

/-- How an object keeps nodes. Only the headers of the nodes matter to it. -/
structure NodeForm where
  Fits : Machine → PoolMemory → MachineObject → List (Entry Nat) → Prop
  congr : ∀ {m m' memory object held}, Fits m memory object held →
    (∀ entry ∈ held, ∀ i, entry.payload ≤ i → i < entry.payload + nodeHeader → m'.cell i = m.cell i) →
    Fits m' memory object held

/-- A list, in which the latest node comes first. -/
def NodeForm.list : NodeForm where
  Fits := fun m memory object held => ∃ last count, object = .joinList ⟨last, count, memory⟩ ∧ m.Chain held.reverse last
  congr := by
    rintro m m' memory object held ⟨last, count, rfl, chain⟩ same
    exact ⟨last, count, rfl, chain.congr fun entry member => same entry (mem_reverse.mp member)⟩

/-- A table that has been built from a list. -/
def NodeForm.built (buckets : Array Word) (table : ChainTable Nat) : NodeForm where
  Fits := fun m _ object held => object = .joinTable buckets ∧ m.Linked buckets table ∧ table.Holds held
  congr := by
    rintro m m' memory object held ⟨rfl, linked, holds⟩ same
    exact ⟨rfl, linked.congr fun entry member => same entry (holds.same.mem_iff.mp member), holds⟩

/-- A table that nodes are inserted into. -/
def NodeForm.chained (nodes : NodeTable) (table : ChainTable Nat) : NodeForm where
  Fits := fun m memory object held => object = .chainTable nodes ∧ nodes.Follows memory m table ∧ table.Sound held
  congr := by
    rintro m m' memory object held ⟨rfl, follows, sound⟩ same
    exact ⟨rfl, ⟨follows.linked.congr fun entry member => same entry (sound.same.mem_iff.mp member), follows.distinct,
      follows.memory⟩, sound⟩

/-- Where nodes are kept: the offset that is the address of their object, and the sizes of its pool. -/
structure NodeStore where
  form : NodeForm
  home : Nat
  unit : Nat
  block : Nat
  /-- As many nodes can be kept. -/
  most : Nat

/-- The object keeps these nodes in parts of its own, and takes no more than `left` bytes for those to come. -/
structure NodeStore.Holds (store : NodeStore) (held : List (Entry Nat)) (left : Nat) (parts : Set Part) (m : Machine) :
    Prop where
  header : nodeHeader ≤ store.unit
  short : store.most < chainLimit
  home : store.home < m.taken
  numbers : held.map Entry.number = List.range held.length
  few : held.length ≤ store.most
  object : ∃ object memory own, m.objects.lookup (scratchAddress store.home) = some object ∧
    store.form.Fits m memory object held ∧ parts = insert (.memory store.home) own ∧
    memory.Serves store.unit store.block store.most (held.map Entry.payload) left own m.taken

/-- The bytes behind the headers of these nodes are the same. -/
def NodeStore.KeepsPayloads (store : NodeStore) (held : List (Entry Nat)) (m m' : Machine) : Prop :=
  ∀ entry ∈ held, ∀ i, entry.payload + nodeHeader ≤ i → i < entry.payload + store.unit → m'.cell i = m.cell i

/-- A node for one more entry has been made at `place`. -/
structure NodeStore.Gains (store : NodeStore) (held : List (Entry Nat)) (hash : Word) (place left left' : Nat)
    (parts parts' : Set Part) (m m' : Machine) : Prop where
  budget : m'.taken + left' = m.taken + left
  holds : store.Holds (Entry.appended held hash place) left' parts' m'
  touches : m.Touches parts m'
  inside : parts' ⊆ parts ∪ m.fresh
  kept : store.KeepsPayloads held m m'

namespace NodeStore.Holds

variable (holds : store.Holds held left parts m)

include holds

theorem nodup : (held.map number).Nodup := by
  rw [holds.numbers]
  exact nodup_range

theorem has (member : part ∈ parts) : m.Has part := by
  obtain ⟨_, _, _, _, _, rfl, serves⟩ := holds.object
  rcases member with rfl | inside
  · exact holds.home
  · exact serves.has inside

/-- Where the bytes of a node are. -/
theorem node (member : entry ∈ held) :
    Part.range entry.payload (entry.payload + store.unit) ⊆ parts ∧ entry.payload + store.unit ≤ m.taken := by
  obtain ⟨_, _, _, _, _, rfl, serves⟩ := holds.object
  have among : entry.payload ∈ held.map payload := mem_map_of_mem member
  exact ⟨fun part inside => .inr (serves.range_subset among inside), serves.inside _ among⟩

/-- Only the parts of its own matter to an object. -/
theorem kept (taken : m.taken ≤ m'.taken) (agrees : ∀ part ∈ parts, m.Agrees m' part) :
    store.Holds held left parts m' := by
  have nodes (entry : Entry Nat) (member : entry ∈ held) := (holds.node member).1
  obtain ⟨object, memory, own, found, fits, rfl, serves⟩ := holds.object
  have header := holds.header
  refine ⟨holds.header, holds.short, Nat.lt_of_lt_of_le holds.home taken, holds.numbers, holds.few,
    object, memory, own, ?_, ?_, rfl, serves.mono taken⟩
  · exact (agrees (.memory store.home) (.inl rfl)).2.trans found
  · refine store.form.congr fits fun entry member i lower upper => ?_
    exact (agrees (.memory i) (nodes entry member (Part.mem_range.mpr ⟨lower, by omega⟩))).1

/-- What is written behind the header of a node does not matter to the object. -/
theorem written (limit : m.taken ≤ scratchSpan) (member : entry ∈ held)
    (writes : m.Writes (entry.payload + nodeHeader) (entry.payload + store.unit) m') :
    store.Holds held left parts m' := by
  have taken := writes.taken
  obtain ⟨object, memory, own, found, fits, rfl, serves⟩ := holds.object
  refine ⟨holds.header, holds.short, taken ▸ holds.home, holds.numbers, holds.few,
    object, memory, own, ?_, ?_, rfl, taken.symm ▸ serves⟩
  · rw [writes.objects]
    exact found
  · refine store.form.congr fits fun other isOther i lower upper => ?_
    have header := holds.header
    have inside := serves.inside other.payload (mem_map_of_mem isOther)
    refine writes.keeps i (by omega) ?_
    by_cases same : other.payload = entry.payload
    · omega
    · have := serves.apart_of_ne (mem_map_of_mem isOther) (mem_map_of_mem member) same
      omega

/-- Objects change hands by an address and the object that is under it. -/
theorem found : ∃ object memory own,
    Action.object (scratchAddress store.home) m = .ok object m ∧ store.form.Fits m memory object held ∧
      parts = insert (.memory store.home) own ∧
      memory.Serves store.unit store.block store.most (held.map payload) left own m.taken := by
  obtain ⟨object, memory, own, found, fits, same, serves⟩ := holds.object
  refine ⟨object, memory, own, ?_, fits, same, serves⟩
  change orFail _ (m.objects.lookup _) m = _
  rw [found]
  rfl

/-- What is freed is gone, and nothing else. -/
theorem freed (limit : m.taken ≤ scratchSpan) :
    m.Touches parts (m.without (scratchAddress store.home)) := by
  obtain ⟨_, _, _, _, _, same, _⟩ := holds.object
  refine (Machine.Touches.objects (Nat.lt_of_lt_of_le holds.home limit) limit
    fun b different => lookup_filter_ne _ different).mono fun part member => ?_
  rw [Set.mem_singleton_iff.mp member, same]
  exact .inl (.inl rfl)

/-- The object is put back with one more node, after nodes have been arranged for it. -/
theorem added (form : NodeForm) {memory : PoolMemory} {object : MachineObject}
    (few : held.length < store.most) (same : parts = insert (.memory store.home) own)
    (arranged : Entry.Arranged memory store.unit store.block store.most held hash place left left' own own'
      (m.without (scratchAddress store.home)) m1) (fits : form.Fits m1 memory object (appended held hash place)) :
    ({ store with form } : NodeStore).Gains held hash place left left' parts (insert (.memory store.home) own') m
      (m1.adding (scratchAddress store.home) object) := by
  obtain ⟨serves, budget, limit1, inside, arranges⟩ := arranged
  have taken : m.taken ≤ m1.taken := arranges.taken
  have limit := Nat.le_trans taken limit1
  have header := holds.header
  have numbers : (appended held hash place).map number = List.range (appended held hash place).length := by
    simp [appended, holds.numbers, range_succ]
  refine ⟨budget, ⟨holds.header, holds.short, Nat.lt_of_lt_of_le holds.home taken, numbers,
    by simpa [appended, Nat.succ_le_iff] using few, object, memory, own', by simp [adding],
    form.congr fits fun _ _ _ _ _ => rfl, rfl, serves⟩, ?_, ?_,
    fun entry member i lower upper => serves.payload_kept limit1 arranges (mem_append_left _ member) i lower upper⟩
  · -- The object is taken out, nodes are arranged, and the object is put back.
    have arranged := @Machine.Arranges.touches _ _ _ parts arranges limit fun place member part among => by
      rcases inside (serves.range_subset member (Part.range_subset (Nat.le_refl _) (by omega) among)) with old | fresh
      · rw [same]
        exact .inl (.inr old)
      · exact .inr fresh
    have placed : m1.Touches {.memory store.home} (m1.adding (scratchAddress store.home) object) :=
      .objects (Nat.lt_of_lt_of_le holds.home limit) limit1 fun b different => lookup_cons_ne _ _ different
    refine ((holds.freed limit).trans arranged fun part member => .inl member).trans placed fun part member => ?_
    rw [Set.mem_singleton_iff.mp member, same]
    exact .inl (.inl rfl)
  · rintro part (rfl | member)
    · rw [same]
      exact .inl (.inl rfl)
    · rcases inside member with old | fresh
      · rw [same]
        exact .inl (.inr old)
      · exact .inr fresh

end NodeStore.Holds

namespace NodeStore.Gains

variable (gains : store.Gains held hash place left left' parts parts' m m')

include gains

theorem payload_inside : place + store.unit ≤ m'.taken :=
  (gains.holds.node (mem_append_right _ mem_cons_self : (⟨held.length, hash, place⟩ : Entry Nat) ∈ _)).2

theorem limit (room : m.taken + left ≤ scratchSpan) : m'.taken ≤ scratchSpan := by
  have budget := gains.budget
  omega

end NodeStore.Gains

section

variable {unit block most left : Nat} {held : List (Entry Nat)} {parts : Set Part} {size : Word}
  {buckets : Array Word} {nodes : NodeTable} {table : ChainTable Nat}

theorem Action.newPool_run (blockSize : Nat) (small : blockSize + 16 < Pool.sizeLimit) (m : Machine) :
    ∃ memory, newPool blockSize m = .ok memory m ∧ newPool? blockSize = some memory := by
  have fits : max blockSize 8 + 8 < Pool.sizeLimit := by
    omega
  have made : newPool? blockSize =
      some ⟨{ nextSize := (max blockSize 8 + 7) / 8 * 8 }, #[emptyBlockAddress]⟩ := by
    unfold newPool? Pool.make? Pool.roundUp?
    rw [if_pos fits]
    rfl
  refine ⟨_, ?_, made⟩
  unfold Action.newPool
  rw [made]
  rfl

/-- The machine with one more object, under an address that nothing has had. -/
def Machine.adopted (m : Machine) (object : MachineObject) : Machine :=
  ({ m with taken := m.taken + regionSize 0 } : Machine).adding (scratchAddress m.taken) object

theorem Machine.adopt_run (room : m.taken + 8 ≤ scratchSpan) (object : MachineObject) :
    adopt object 0 m = .ok (scratchAddress m.taken) (m.adopted object) ∧ m.Touches ∅ (m.adopted object) := by
  have region : m.newRegion? 0 = some (scratchAddress m.taken, { m with taken := m.taken + regionSize 0 }) :=
    m.newRegion?_eq room
  obtain ⟨_, _, _, touches⟩ := newRegion?_touches region
  have placed : ({ m with taken := m.taken + regionSize 0 } : Machine).Touches {.memory m.taken} (m.adopted object) :=
    .objects (by omega) room fun b different => lookup_cons_ne _ _ different
  refine ⟨?_, touches.trans placed fun part member => ?_⟩
  · have regions : newRegion 0 m = .ok (scratchAddress m.taken) { m with taken := m.taken + regionSize 0 } := by
      change (orTrap (m.newRegion? 0) >>= fun taken => _) m = _
      rw [region]
      rfl
    exact bind_of_ok regions
  · rw [Set.mem_singleton_iff.mp member]
    exact .inr fun has => Nat.lt_irrefl _ has

/-- An object without nodes. -/
theorem NodeStore.adopt_run (form : NodeForm) (object : MachineObject) (made : newPool? blockSize = some memory)
    (fits : ∀ m, form.Fits m memory object []) (header : nodeHeader ≤ unit) (short : most < chainLimit)
    (room : m.taken + 8 ≤ scratchSpan) :
    ∃ m', adopt object 0 m = .ok (scratchAddress m.taken) m' ∧
      NodeStore.Holds ⟨form, m.taken, unit, max blockSize 8 + 8, most⟩ [] (Pool.cost unit (max blockSize 8 + 8) most)
        {.memory m.taken} m' ∧ m'.taken = m.taken + 8 ∧ m.Touches ∅ m' := by
  obtain ⟨adopts, touches⟩ := Machine.adopt_run room object
  have more : m.taken < (m.adopted object).taken := Nat.lt_add_of_pos_right (by decide : 0 < 8)
  exact ⟨m.adopted object, adopts, ⟨header, short, more, rfl, Nat.zero_le _, object, memory, ∅,
    by simp [adopted, adding], fits _, by simp, .new made _ _ _⟩, rfl, touches⟩

theorem Routine.run_listCreate (header : nodeHeader ≤ unit) (short : most < chainLimit)
    (small : m.settings.poolBlock + 16 < Pool.sizeLimit) (room : m.taken + 8 ≤ scratchSpan) :
    ∃ m', run .listCreate [] m = .ok (scratchAddress m.taken) m' ∧
      NodeStore.Holds ⟨.list, m.taken, unit, max m.settings.poolBlock 8 + 8, most⟩ []
        (Pool.cost unit (max m.settings.poolBlock 8 + 8) most) {.memory m.taken} m' ∧
      m'.taken = m.taken + 8 ∧ m.Touches ∅ m' := by
  obtain ⟨memory, makes, made⟩ := newPool_run m.settings.poolBlock small m
  have opens : run .listCreate [] m = adopt (.joinList { memory }) 0 m := bind_of_ok makes
  rw [opens]
  exact NodeStore.adopt_run .list (.joinList { memory }) made (fun m => ⟨0, 0, rfl, rfl⟩) header short room

theorem Routine.run_chainCreate (header : nodeHeader ≤ unit) (short : most < chainLimit)
    (few : powerOfTwoAbove (max 1 m.settings.buckets) ≤ largestBucketCount) (room : m.taken + 8 ≤ scratchSpan) :
    ∃ nodes m', run .chainCreate [] m = .ok (scratchAddress m.taken) m' ∧
      NodeStore.Holds ⟨.chained nodes (.withBuckets m.settings.buckets), m.taken, unit, Pool.defaultBlock + 8, most⟩ []
        (Pool.cost unit (Pool.defaultBlock + 8) most) {.memory m.taken} m' ∧
      m'.taken = m.taken + 8 ∧ m.Touches ∅ m' := by
  obtain ⟨memory, makes, made⟩ := newPool_run Pool.defaultBlock (by decide) m
  let nodes : NodeTable := { buckets := Array.replicate (powerOfTwoAbove (max 1 m.settings.buckets)) 0, memory }
  have opens : run .chainCreate [] m = adopt (.chainTable nodes) 0 m := by
    change (if _ < _ then _ else _ : Action Word) m = _
    rw [if_neg (Nat.not_lt.mpr few)]
    exact bind_of_ok makes
  rw [opens]
  exact ⟨nodes, NodeStore.adopt_run (.chained nodes (.withBuckets m.settings.buckets)) (.chainTable nodes) made
    (fun m => ⟨rfl, ⟨.empty m rfl, rfl, rfl⟩, .withBuckets _⟩) header short room⟩

/-- A routine first takes the object under the address that it is given. -/
theorem Action.given {α β : Type} {take : Word → Action α} {next : Word → α → Action β} {a : Word} {x : α}
    (rest : List Word) (takes : take a m = .ok x m) : (do
      let a ← argument (a :: rest) 0
      next a (← take a)) m = next a x m :=
  bind_of_ok takes

section

variable (rounded : Pool.roundUp? (nodeHeader + size.toNat) = some unit) (few : held.length < most) (hash : Word)
  (room : m.taken + left ≤ scratchSpan)

include rounded few room

theorem NodeStore.Holds.append (holds : NodeStore.Holds ⟨.list, home, unit, block, most⟩ held left parts m) :
    ∃ place left' parts' m', run .listAppend [scratchAddress home, hash, size] m =
        .ok (scratchAddress (place + nodeHeader)) m' ∧
      NodeStore.Gains ⟨.list, home, unit, block, most⟩ held hash place left left' parts parts' m m' := by
  obtain ⟨_, memory, _, found, ⟨last, count, rfl, chain⟩, same, serves⟩ := holds.found
  have lists : joinList (scratchAddress home) m = .ok ⟨last, count, memory⟩ m := bind_of_ok found
  have opens : run .listAppend [scratchAddress home, hash, size] m = (do
      let added ← NodeList.append ⟨last, count, memory⟩ hash size
      place (scratchAddress home) (.joinList added.2)
      return added.1 + UInt64.ofNat nodeHeader) (m.without (scratchAddress home)) := given _ lists
  obtain ⟨place, memory', left', _, m1, appends, chain1, arranged⟩ :=
    NodeList.append_run (m := m.without (scratchAddress home)) serves rounded few room
      (chain.congr fun _ _ _ _ _ => rfl) hash
  refine ⟨place, left', _, m1.adding _ (.joinList ⟨scratchAddress place, count + 1, memory'⟩), ?_,
    holds.added .list few same arranged ⟨_, _, rfl, chain1⟩⟩
  rw [opens, bind_of_ok appends, ← scratchAddress_add]
  rfl

theorem NodeStore.Holds.add (holds : NodeStore.Holds ⟨.chained nodes table, home, unit, block, most⟩ held left parts m) :
    ∃ nodes' place left' parts' m', run .chainInsert [scratchAddress home, hash, size] m =
        .ok (scratchAddress (place + nodeHeader)) m' ∧
      NodeStore.Gains ⟨.chained nodes' (table.insert hash place), home, unit, block, most⟩ held hash place left left'
        parts parts' m m' := by
  obtain ⟨_, memory, _, found, ⟨rfl, follows, sound⟩, same, serves⟩ := holds.found
  have follows0 : nodes.Follows memory (m.without (scratchAddress home)) table :=
    ⟨follows.linked.congr fun _ _ _ _ _ => rfl, follows.distinct, follows.memory⟩
  have tables : chainTable (scratchAddress home) m = .ok nodes m := bind_of_ok found
  have opens : run .chainInsert [scratchAddress home, hash, size] m = (do
      let added ← nodes.insert hash size
      place (scratchAddress home) (.chainTable added.2)
      return added.1 + UInt64.ofNat nodeHeader) (m.without (scratchAddress home)) := given _ tables
  obtain ⟨place, _, nodes', left', _, m1, inserts, follows1, arranged⟩ :=
    follows0.insert (m := m.without (scratchAddress home)) serves rounded few room sound holds.short hash
  refine ⟨nodes', place, left', _, m1.adding _ (.chainTable nodes'), ?_,
    holds.added (.chained nodes' (table.insert hash place)) few same arranged ⟨rfl, follows1, sound.insert hash place⟩⟩
  rw [opens, bind_of_ok inserts, ← scratchAddress_add]
  rfl

end

/-- The list becomes a table under a new address. Its nodes stay where they are. -/
theorem NodeStore.Holds.build (holds : NodeStore.Holds ⟨.list, home, unit, block, most⟩ held left parts m)
    (room : m.taken + 8 ≤ scratchSpan) :
    ∃ buckets table parts' m', run .joinBuild [scratchAddress home] m =
        .ok (scratchAddress m.taken) m' ∧
      NodeStore.Holds ⟨.built buckets table, m.taken, unit, block, most⟩ held left parts' m' ∧
      (∀ hash, table.walk hash = held.filter fun entry => entry.hash = hash) ∧
      m.Touches parts m' ∧ m'.taken = m.taken + 8 ∧ parts' ⊆ parts ∪ m.fresh ∧
      NodeStore.KeepsPayloads ⟨.list, home, unit, block, most⟩ held m m' := by
  obtain ⟨object, memory, own, found, ⟨last, count, rfl, chain⟩, same, serves⟩ := holds.found
  have header := holds.header
  have limit : m.taken ≤ scratchSpan := by omega
  obtain ⟨buckets, m1, builds, linked, relinks⟩ :=
    NodeList.build_run (m := m.without (scratchAddress home)) ⟨last, count, memory⟩
      (chain.congr fun _ _ _ _ _ => rfl) (serves.away header) (Nat.lt_of_le_of_lt holds.few holds.short)
  have taken1 : m1.taken = m.taken := relinks.taken
  have lists : joinList (scratchAddress home) m = .ok ⟨last, count, memory⟩ m := bind_of_ok found
  have opens : run .joinBuild [scratchAddress home] m = (do
      adopt (.joinTable (← NodeList.build ⟨last, count, memory⟩))) (m.without (scratchAddress home)) := given _ lists
  obtain ⟨adopts, fresh⟩ := Machine.adopt_run (taken1 ▸ room) (.joinTable buckets)
  have arranged := @Machine.Arranges.touches _ _ _ parts relinks.arranges limit fun place member part among => by
    rw [same]
    exact .inl (.inr (serves.range_subset member (Part.range_subset (Nat.le_refl _) (by omega) among)))
  have more : (m1.adopted (.joinTable buckets)).taken = m.taken + 8 := congrArg (· + 8) taken1
  refine ⟨buckets, .built (bucketsFor count) held, insert (.memory m.taken) own, m1.adopted (.joinTable buckets), ?_, ?_,
    ChainTable.walk_built (bucketsFor_pos _) held, ?_, more, ?_, fun entry member i lower upper => ?_⟩
  · rw [opens, bind_of_ok builds, adopts, taken1]
  · refine ⟨header, holds.short, ?_, holds.numbers, holds.few, .joinTable buckets, memory, own, ?_, ?_, rfl, ?_⟩
    · dsimp only
      omega
    · simp [adopted, adding, taken1]
    · exact ⟨rfl, linked.congr fun _ _ _ _ _ => rfl, .built (bucketsFor_pos _) held⟩
    · exact serves.mono (by omega)
  · exact ((holds.freed limit).trans arranged fun part member => .inl member).trans_quiet fresh
  · rintro part (rfl | member)
    · exact .inr fun has => Nat.lt_irrefl _ has
    · rw [same]
      exact .inl (.inr member)
  · have serves1 : memory.Serves unit block most (held.map payload) left own m1.taken := taken1.symm ▸ serves
    exact serves1.payload_kept (by omega) relinks.arranges member i lower upper

/-- What comes after a node. -/
theorem Machine.NodeAt.afterNode (node : m.NodeAt entry) (following : Action Word) :
    afterNode entry.address following m = following m := by
  rw [Action.afterNode, if_neg node.ne_zero]

section

variable (holds : NodeStore.Holds ⟨.built buckets table, home, unit, block, most⟩ held left parts m)

include holds

/-- Table and buckets of a table that has been built. -/
theorem NodeStore.Holds.built_table : joinTable (scratchAddress home) m = .ok buckets m ∧
    m.Linked buckets table ∧ table.Holds held ∧ table.entries.length < chainLimit := by
  obtain ⟨_, _, _, found, ⟨rfl, linked, tableHolds⟩, same, _⟩ := holds.found
  refine ⟨bind_of_ok found, linked, tableHolds, ?_⟩
  rw [tableHolds.same.length_eq]
  exact Nat.lt_of_le_of_lt holds.few holds.short

theorem NodeStore.Holds.run_joinLookup (hash : Word) :
    run .joinLookup [scratchAddress home, hash] m = .ok (nodeAddress (table.lookup? hash)) m := by
  obtain ⟨tables, linked, tableHolds, short⟩ := holds.built_table
  exact (given _ tables).trans (linked.lookup tableHolds.positive hash short)

theorem NodeStore.Holds.run_joinNextSameHash (member : entry ∈ held) (hash : Word) :
    run .joinNextSameHash [scratchAddress home, entry.address, hash] m =
      .ok (nodeAddress (table.nextSameHash? entry hash)) m := by
  obtain ⟨tables, linked, tableHolds, short⟩ := holds.built_table
  have node := linked.node (tableHolds.same.mem_iff.mpr member)
  exact (given _ tables).trans ((node.afterNode _).trans (linked.nextSameHash tableHolds holds.nodup member hash short))

theorem NodeStore.Holds.run_joinFree :
    run .joinFree [scratchAddress home] m = .ok 0 (m.without (scratchAddress home)) :=
  given _ holds.built_table.1

end

variable (holds : NodeStore.Holds ⟨.chained nodes table, home, unit, block, most⟩ held left parts m)

include holds

theorem NodeStore.Holds.chained_table : chainTable (scratchAddress home) m = .ok nodes m ∧
    (∃ memory, nodes.Follows memory m table) ∧ table.Holds held ∧ table.entries.length < chainLimit := by
  obtain ⟨_, memory, _, found, ⟨rfl, follows, sound⟩, same, _⟩ := holds.found
  refine ⟨bind_of_ok found, ⟨memory, follows⟩, sound.toHolds, ?_⟩
  rw [sound.same.length_eq]
  exact Nat.lt_of_le_of_lt holds.few holds.short

theorem NodeStore.Holds.run_chainLookup (hash : Word) :
    run .chainLookup [scratchAddress home, hash] m = .ok (nodeAddress (table.lookup? hash)) m := by
  obtain ⟨tables, ⟨_, follows⟩, tableHolds, short⟩ := holds.chained_table
  exact (given _ tables).trans (follows.linked.lookup tableHolds.positive hash short)

theorem NodeStore.Holds.run_chainNextSameHash (member : entry ∈ held) (hash : Word) :
    run .chainNextSameHash [scratchAddress home, entry.address, hash] m =
      .ok (nodeAddress (table.nextSameHash? entry hash)) m := by
  obtain ⟨tables, ⟨_, follows⟩, tableHolds, short⟩ := holds.chained_table
  have node := follows.linked.node (tableHolds.same.mem_iff.mpr member)
  exact (given _ tables).trans
    ((node.afterNode _).trans (follows.linked.nextSameHash tableHolds holds.nodup member hash short))

theorem NodeStore.Holds.run_chainFirst :
    run .chainFirst [scratchAddress home] m = .ok (nodeAddress table.first?) m := by
  obtain ⟨tables, ⟨_, follows⟩, _⟩ := holds.chained_table
  exact (given _ tables).trans (congrArg (EStateM.Result.ok · m) (follows.firstFrom 0))

theorem NodeStore.Holds.run_chainNext (member : entry ∈ held) :
    run .chainNext [scratchAddress home, entry.address] m = .ok (nodeAddress (table.next? entry)) m := by
  obtain ⟨tables, ⟨_, follows⟩, tableHolds, _⟩ := holds.chained_table
  have node := follows.linked.node (tableHolds.same.mem_iff.mpr member)
  exact (given _ tables).trans ((node.afterNode _).trans (follows.next tableHolds holds.nodup member))

theorem NodeStore.Holds.run_chainFree :
    run .chainFree [scratchAddress home] m = .ok 0 (m.without (scratchAddress home)) :=
  given _ holds.chained_table.1

end

end QueryEngine
