import QueryEngine.Proofs.Pipeline.Aggregates
import QueryEngine.Proofs.Pipeline.Joins

set_option synthInstance.maxSize 1024

namespace QueryEngine

open Aggregate

open Machine (scratchAddress scratchSpan)

open Emit Host.Attains

variable {rows : List ValueRow} {row : ValueRow} {key : List Datum}

namespace ValueRow

/-- The rows with these values for the keys, in their order. -/
def group (attributes : List Attribute) (rows : List ValueRow) (key : List Datum) : List ValueRow :=
  rows.filter fun row => row.selected? attributes = some key

/-- The rows fall into the groups of these keys. No group is missing, none is empty, and none occurs twice. -/
structure Partition (attributes : List Attribute) (rows : List ValueRow) (keys : List (List Datum)) : Prop where
  nodup : keys.Nodup
  known : ∀ row ∈ rows, ∃ key ∈ keys, row.selected? attributes = some key
  nonempty : ∀ key ∈ keys, group attributes rows key ≠ []

variable {attributes : List Attribute} {keys : List (List Datum)}

theorem mem_group : row ∈ group attributes rows key ↔ row ∈ rows ∧ row.selected? attributes = some key := by
  rw [group, List.mem_filter, decide_eq_true_eq]

theorem group_concat_same (same : row.selected? attributes = some key) :
    group attributes (rows ++ [row]) key = group attributes rows key ++ [row] := by
  rw [group, List.filter_append, List.filter_cons_of_pos (by simpa using same)]
  rfl

theorem group_concat_ne (different : row.selected? attributes ≠ some key) :
    group attributes (rows ++ [row]) key = group attributes rows key := by
  rw [group, List.filter_append, List.filter_cons_of_neg (by simpa using different)]
  exact List.append_nil _

theorem Partition.group_eq_nil (partition : Partition attributes rows keys) (new : key ∉ keys) :
    group attributes rows key = [] := by
  by_contra nonempty
  obtain ⟨row, _, isGroup⟩ := List.exists_cons_of_ne_nil nonempty
  have member : row ∈ group attributes rows key := isGroup ▸ List.mem_cons_self
  obtain ⟨inside, selected⟩ := mem_group.mp member
  obtain ⟨_, known, same⟩ := partition.known row inside
  rw [selected] at same
  cases same
  exact new known

theorem value?_eq_of_selected? {other : ValueRow} (same : row.selected? attributes = some key)
    (same' : other.selected? attributes = some key) : ∀ a ∈ attributes, row.value? a = other.value? a := by
  have given := mapM_eq_some_iff.mp same
  have given' := mapM_eq_some_iff.mp same'
  intro a member
  obtain ⟨i, bound, rfl⟩ := List.getElem_of_mem member
  have here := (List.forall₂_iff_get.mp given).2 i bound (given.length_eq ▸ bound)
  have there := (List.forall₂_iff_get.mp given').2 i bound (given.length_eq ▸ bound)
  exact here.trans there.symm

theorem Partition.nil (attributes : List Attribute) : Partition attributes [] [] := ⟨List.nodup_nil, nofun, nofun⟩

theorem group_concat_ne_nil (nonempty : group attributes rows key ≠ []) : group attributes (rows ++ [row]) key ≠ [] := by
  rw [group, List.filter_append]
  exact fun none => nonempty (List.append_eq_nil_iff.mp none).1

variable (partition : Partition attributes rows keys)

include partition

/-- One more row of a group that is there. -/
theorem Partition.old (selected : row.selected? attributes = some key) (known : key ∈ keys) :
    Partition attributes (rows ++ [row]) keys where
  nodup := partition.nodup
  known := by
    intro other member
    rcases List.mem_append.mp member with before | last
    · exact partition.known other before
    · rw [List.mem_singleton.mp last]
      exact ⟨key, known, selected⟩
  nonempty := fun key member => group_concat_ne_nil (partition.nonempty key member)

/-- The first row of a group. -/
theorem Partition.new (selected : row.selected? attributes = some key) (new : key ∉ keys) :
    Partition attributes (rows ++ [row]) (keys ++ [key]) where
  nodup := by
    rw [List.nodup_append]
    refine ⟨partition.nodup, List.nodup_singleton key, fun other member last isLast same => new ?_⟩
    rwa [← List.mem_singleton.mp isLast, ← same]
  known := by
    intro other member
    rcases List.mem_append.mp member with before | last
    · obtain ⟨otherKey, known, same⟩ := partition.known other before
      exact ⟨otherKey, List.mem_append_left _ known, same⟩
    · rw [List.mem_singleton.mp last]
      exact ⟨key, List.mem_append_right _ (List.mem_singleton_self key), selected⟩
  nonempty := by
    intro other member
    rcases List.mem_append.mp member with before | last
    · exact group_concat_ne_nil (partition.nonempty other before)
    · rw [List.mem_singleton.mp last, group_concat_same selected]
      exact List.append_ne_nil_of_right_ne_nil _ (List.cons_ne_nil _ _)

/-- There are no more groups than rows. -/
theorem Partition.length_le : keys.length ≤ rows.length := by
  have inside : keys.map some ⊆ rows.map (selected? attributes) := by
    intro key? member
    obtain ⟨key, isKey, rfl⟩ := List.mem_map.mp member
    obtain ⟨row, _, isGroup⟩ := List.exists_cons_of_ne_nil (partition.nonempty key isKey)
    have among : row ∈ group attributes rows key := isGroup ▸ List.mem_cons_self
    obtain ⟨isRow, selected⟩ := mem_group.mp among
    exact List.mem_map.mpr ⟨row, isRow, selected⟩
  have distinct : (keys.map some).Nodup := partition.nodup.map (Option.some_injective _)
  have short := (distinct.subperm inside).length_le
  simpa using short

end ValueRow

/-- How the state of a group is stored. -/
abbrev Aggregate.layout (aggregates : List Aggregate) : TupleLayout := .make .indicator (stateTypes aggregates)

/-- A group in a hash table: its node, the values of its keys, and its state. -/
structure GroupSlot where
  entry : Entry Nat
  key : List Datum
  state : List Datum

/-- A hash table has a node for every group of the rows. -/
structure Grouping (aggregates : List Aggregate) (rows : List ValueRow) (store : NodeStore) (slots : List GroupSlot)
    (left : Nat) (parts : Set Part) (m : Machine) : Prop where
  stores : store.Stores (Aggregate.stateTypes aggregates) (slots.map GroupSlot.entry) (slots.map GroupSlot.state) left parts m
  partition : ValueRow.Partition (Aggregate.keys aggregates) rows (slots.map GroupSlot.key)
  hashes : ∀ slot ∈ slots, slot.entry.hash = hashCode slot.key
  folded : ∀ slot ∈ slots, Aggregate.Folded m.outcome.overflow
    (ValueRow.group (Aggregate.keys aggregates) rows slot.key) aggregates slot.state

/-- The groups of some nodes, in the order of the nodes. -/
theorem GroupSlot.exists_of_entries (slots : List GroupSlot) (entries : List (Entry Nat))
    (inside : ∀ entry ∈ entries, entry ∈ slots.map GroupSlot.entry) :
    ∃ items : List GroupSlot, items.map GroupSlot.entry = entries ∧ ∀ item ∈ items, item ∈ slots := by
  induction entries with
  | nil => exact ⟨[], rfl, nofun⟩
  | cons entry entries ih =>
    obtain ⟨items, same, among⟩ := ih fun other member => inside other (List.mem_cons_of_mem _ member)
    obtain ⟨slot, isSlot, isEntry⟩ := List.mem_map.mp (inside entry List.mem_cons_self)
    exact ⟨slot :: items, by rw [List.map_cons, isEntry, same], List.forall_mem_cons.mpr ⟨isSlot, among⟩⟩

variable {slot : GroupSlot} {store : NodeStore} {m : Machine} {host : Host} {s : Point} {types : Nat → Shape}
  {aggregates : List Aggregate} {held : HeldRow} {nodes : NodeTable} {table : ChainTable Nat}
  {home unit block most left : Nat} {parts : Set Part} {slots : List GroupSlot} {keyRegs : List Held}
  {tableReg hash : Reg}

/-- Where groups are kept. -/
abbrev groupStore (nodes : NodeTable) (table : ChainTable Nat) (home unit block most : Nat) : NodeStore :=
  ⟨.chained nodes table, home, unit, block, most⟩

section

variable (grouping : Grouping aggregates rows store slots left parts m)

include grouping

/-- The keys of a group, out of its state. -/
theorem Grouping.keyFields (member : slot ∈ slots) (are : Held.All s hs slot.state) :
    Held.All s (keyFields aggregates hs) slot.key := by
  obtain ⟨key, keyIs, selected⟩ := (grouping.folded slot member).keyFields are
  obtain ⟨first, _, isGroup⟩ :=
    List.exists_cons_of_ne_nil (grouping.partition.nonempty slot.key (List.mem_map_of_mem member))
  have inside : first ∈ ValueRow.group (keys aggregates) rows slot.key := isGroup ▸ List.mem_cons_self
  have same : some slot.key = some key := (ValueRow.mem_group.mp inside).2.symm.trans (selected first inside)
  cases same
  exact keyIs

omit grouping in
theorem GroupSlot.mem_zip (member : slot ∈ slots) :
    (slot.entry, slot.state) ∈ (slots.map GroupSlot.entry).zip (slots.map GroupSlot.state) := by
  rw [List.zip_map']
  exact List.mem_map_of_mem member

theorem Grouping.size :
    nodeHeader + (layout aggregates).size ≤ store.unit := grouping.stores.size

/-- A node belongs to one group. -/
theorem Grouping.eq_of_entry (member : slot ∈ slots) (isOther : other ∈ slots) (same : slot.entry = other.entry) :
    slot = other :=
  List.inj_on_of_nodup_map grouping.stores.holds.nodup.of_map member isOther same

end

theorem Grouping.address_ne_zero
    (grouping : Grouping aggregates rows (groupStore nodes table home unit block most) slots left parts m)
    (limit : m.taken ≤ scratchSpan) (member : slot ∈ slots) : slot.entry.address ≠ 0 := by
  have inside := (grouping.stores.holds.node (List.mem_map_of_mem member)).2
  have header := grouping.stores.holds.header
  refine Machine.scratchAddress_ne_zero ?_
  unfold nodeHeader at header
  omega

/-- The values of the grouping keys in registers. -/
theorem HeldRow.Is.attains_keys (is : HeldRow.Is s held row) (attributes : List Attribute) :
    host.Attains (attributes.mapM fun a => do
      let value ← held.value a
      value.withNullability a.ty) s fun hs s' => ∃ key, s'.machine = s.machine ∧ row.selected? attributes = some key ∧
        Held.All s' hs key := by
  unfold ValueRow.selected?
  induction attributes generalizing s with
  | nil => exact .pure ⟨[], rfl, rfl, .nil⟩
  | cons a attributes ih =>
    rw [List.mapM_cons, bind_assoc]
    refine (is.value a).bind fun h s1 before1 ⟨d, point, found, hIs⟩ => ?_
    subst point
    refine (hIs.withNullability a.ty).bind fun h' s2 before2 ⟨machine2, hIs'⟩ => ?_
    refine (ih (is.mono before2)).bind fun hs s3 before3 ⟨key, machine3, others, are⟩ => ?_
    refine .pure ⟨d :: key, machine3.trans machine2, ?_, .cons (hIs'.mono before3) are⟩
    rw [List.mapM_cons, found, others]
    rfl

/-- The code for the first row of a group. -/
def Emit.startGroup (aggregates : List Aggregate) (layout : TupleLayout) (table hash : Reg) (row : HeldRow) :
    Emit (List Reg) := do
  let size ← Emit.const .i64 layout.size
  let payload ← Emit.callValue .chainInsert [table, hash, size]
  let state ← Aggregate.initialState row aggregates
  Held.storeTuple layout payload state
  return []

/-- The code for any other row of a group. -/
def Emit.foldGroup (aggregates : List Aggregate) (layout : TupleLayout) (row : HeldRow) (node : Reg) : Emit (List Reg) := do
  let payload ← nodePayload node
  updateGroup aggregates layout row payload
  return []

variable {state : List Datum} {node : Reg} (indicator : host.program.encoding = .indicator)

include indicator

section

variable (span : s.machine.taken ≤ scratchSpan)
  (grouping : Grouping aggregates rows (groupStore nodes table home unit block most) slots left parts s.machine)
  (keyIs : Held.All s keyRegs key)

include span grouping keyIs

/-- Whether the keys of a group are others. -/
theorem attains_groupDiffers (member : slot ∈ slots) (nodeIs : s.Reads node .ptr slot.entry.address) :
    host.Attains (groupDiffers aggregates (layout aggregates) keyRegs node) s
      fun regs s' => ∃ cells, s'.ReadsAll regs cells ∧ s'.machine = s.machine ∧
        cells = [(.i1, Word.ofBool (decide (slot.key ≠ key)))] := by
  refine (Entry.attains_nodePayload nodeIs).bind fun payload s1 before1 ⟨machine1, payloadIs⟩ => ?_
  refine ((machine1 ▸ grouping.stores : (groupStore nodes table home unit block most).Stores _ _ _ _ _ s1.machine).attains_load
    indicator (by rw [machine1]; exact span) (GroupSlot.mem_zip member) payloadIs).bind
    fun stored s2 before2 ⟨machine2, storedAre, _⟩ => ?_
  have keyAre := grouping.keyFields member storedAre
  refine (Held.attains_equalsTuple keyAre (keyIs.imp fun _ _ is => is.mono (before1.trans before2))).bind
    fun same s3 before3 ⟨machine3, sameIs⟩ => ?_
  refine (bitNot sameIs).bind fun r s4 _ ⟨machine4, rIs⟩ => ?_
  rw [← decide_not] at rIs
  exact .pure ⟨[_], .cons rIs .nil, by rw [machine4, machine3, machine2, machine1], rfl⟩

/-- The loop goes on where there is a node and its keys are others. -/
theorem attains_groupGoesOn {here : Option GroupSlot} (member : ∀ slot ∈ here, slot ∈ slots)
    (nodeIs : s.Reads node .ptr (nodeAddress (here.map GroupSlot.entry))) :
    host.Yields (groupGoesOn aggregates (layout aggregates) keyRegs [node]) s
      fun bit s' => s'.Bit bit (here.any fun slot => decide (slot.key ≠ key)) := by
  have present : Predicate.ne.apply .ptr (nodeAddress (here.map GroupSlot.entry)) 0 = here.isSome := by
    cases here with
    | none => rfl
    | some slot => exact decide_eq_true (grouping.address_ne_zero span (member slot rfl))
  rw [groupGoesOn_eq]
  refine nullPtr.bind fun null s1 before1 ⟨machine1, nullIs⟩ => ?_
  refine (Host.Attains.compare .ne (nodeIs.mono before1) nullIs).bind fun bit s2 before2 ⟨machine2, bitIs⟩ => ?_
  rw [present] at bitIs
  have machine : s2.machine = s.machine := machine2.trans machine1
  have upto := before1.trans before2
  refine (ifThenElse (fun cells m => m = s.machine ∧
      cells = [(.i1, Word.ofBool (here.any fun slot => decide (slot.key ≠ key)))]) bitIs (fun isSome s3 before3 machine3 => ?_)
    fun isNone s3 before3 machine3 => ?_).bind fun found s3 _ ⟨cells, reads, machine3, isResult⟩ => ?_
  · obtain ⟨slot, rfl⟩ := Option.isSome_iff_exists.mp isSome
    have machine' : s3.machine = s.machine := machine3.trans machine
    refine (attains_groupDiffers indicator (by rw [machine']; exact span) (machine' ▸ grouping)
      (keyIs.imp fun _ _ is => is.mono (upto.trans before3)) (member slot rfl) (nodeIs.mono (upto.trans before3))).mono
      fun regs s4 _ ⟨cells, reads, machine4, isCells⟩ => ⟨cells, reads, machine4.trans machine', isCells⟩
  · have none : here = none := Option.isNone_iff_eq_none.mp (by rw [← Option.not_isSome, isNone]; rfl)
    subst none
    refine (Host.Attains.constBool false).bind fun r s4 _ ⟨machine4, rIs⟩ => .pure ⟨[_], .cons rIs .nil, ?_, rfl⟩
    rw [machine4, machine3, machine]
  · subst isResult
    obtain ⟨r, rfl, rIs⟩ := exists_of_forall₂_single reads
    exact .pure ⟨machine3, rIs⟩

/-- The loop that looks for a group stops at the node that has its keys, and goes on to the end where there is none. -/
theorem attains_findGroup (tableIs : s.Reads tableReg .ptr (scratchAddress home))
    (hashIs : s.Reads hash .i64 (hashCode key)) :
    host.Yields (findGroup aggregates (layout aggregates) tableReg hash keyRegs) s
      fun r s' => ∃ w, s'.Reads r .ptr w ∧ ((∃ slot ∈ slots, slot.key = key ∧ w = slot.entry.address) ∨
          key ∉ slots.map GroupSlot.key ∧ w = 0) := by
  have holds := grouping.stores.holds
  obtain ⟨_, _, tableHolds, _⟩ := holds.chained_table
  have walked := tableHolds.visits_walk holds.nodup (hashCode key)
  obtain ⟨items, sameEntries, among⟩ := GroupSlot.exists_of_entries slots (table.walk (hashCode key))
    fun entry member => (tableHolds.mem_walk.mp member).1
  rw [← sameEntries] at walked
  -- The group with these keys is one of those that the loop comes to.
  have complete (slot : GroupSlot) (member : slot ∈ slots) (same : slot.key = key) : slot ∈ items := by
    have code : slot.entry.hash = hashCode key := by rw [grouping.hashes slot member, same]
    have isWalked := tableHolds.mem_walk.mpr ⟨List.mem_map_of_mem member, code⟩
    rw [← sameEntries] at isWalked
    obtain ⟨item, isItem, sameEntry⟩ := List.mem_map.mp isWalked
    rwa [grouping.eq_of_entry member (among item isItem) sameEntry.symm]
  let differs (item : GroupSlot) : Bool := decide (item.key ≠ key)
  -- As many runs remain as there are nodes up to the one that has the keys.
  let carries (remaining : Nat) (cells : List (CodeType × Word)) (m : Machine) : Prop :=
    m = s.machine ∧ ∃ rest : List GroupSlot, cells = [(.ptr, nodeAddress (rest.head?.map GroupSlot.entry))] ∧
      Visits (fun entry => table.nextSameHash? entry (hashCode key)) (rest.head?.map GroupSlot.entry)
        (rest.map GroupSlot.entry) ∧
      (∀ item ∈ rest, item ∈ slots) ∧ (∀ item ∈ items, item.key = key → item ∈ rest) ∧
      (rest.takeWhile differs).length = remaining
  rw [findGroup_eq]
  have args : s.ReadsAll [tableReg, hash] [(.ptr, scratchAddress home), (.i64, hashCode key)] :=
    .cons tableIs (.cons hashIs .nil)
  refine (callValue args (holds.run_chainLookup (hashCode key)) rfl rfl (.refl _)).bind
    fun first s1 before1 ⟨machine1, firstIs⟩ => ?_
  have isFirst : table.lookup? (hashCode key) = items.head?.map GroupSlot.entry := by
    rw [walked.start_eq, List.head?_map]
  rw [isFirst] at firstIs walked
  have start : carries (items.takeWhile differs).length [(.ptr, nodeAddress (items.head?.map GroupSlot.entry))] s1.machine :=
    ⟨machine1, items, rfl, walked, among, fun _ member _ => member, rfl⟩
  refine (whileLoop carries (.cons firstIs .nil) _ start ?_ ?_).bind fun found s2 _ ⟨cells, reads, finished⟩ => ?_
  · rintro remaining regs _ s' before reads ⟨machine, rest, rfl, visits, inside, kept, count⟩
    obtain ⟨node, rfl, nodeIs⟩ := exists_of_forall₂_single reads
    have early := before1.trans before
    refine (attains_groupGoesOn indicator (by rw [machine]; exact span) (machine ▸ grouping)
      (keyIs.imp fun _ _ is => is.mono early) (fun slot isHead => inside slot (List.mem_of_mem_head? isHead)) nodeIs).mono
      fun bit s'' _ ⟨machine', bitIs⟩ => ⟨?_, machine'.trans machine, rest, rfl, visits, inside, kept, count⟩
    have same : (rest.head?.any fun slot => decide (slot.key ≠ key)) = decide (remaining ≠ 0) := by
      rw [← count]
      cases rest with
      | nil => rfl
      | cons item rest =>
        by_cases different : item.key = key
        · simp [differs, different]
        · simp [differs, different]
    rwa [same] at bitIs
  · rintro remaining regs _ s' before reads ⟨machine, rest, rfl, visits, inside, kept, count⟩
    obtain ⟨node, rfl, nodeIs⟩ := exists_of_forall₂_single reads
    cases rest with
    | nil => cases count
    | cons item rest =>
      have later : Visits (fun entry => table.nextSameHash? entry (hashCode key))
          (table.nextSameHash? item.entry (hashCode key)) (rest.map GroupSlot.entry) := by
        cases visits with
        | step later => exact later
      have different : differs item = true := by
        by_contra same
        rw [List.takeWhile_cons_of_neg same] at count
        cases count
      rw [List.takeWhile_cons_of_pos different, List.length_cons] at count
      have follows : s'.ReadsAll [tableReg, node, hash] [(.ptr, scratchAddress home), (.ptr, item.entry.address),
          (.i64, hashCode key)] := by
        have early := before1.trans before
        exact .cons (tableIs.mono early) (.cons nodeIs (.cons (hashIs.mono early) .nil))
      have isMember : item.entry ∈ slots.map GroupSlot.entry := List.mem_map_of_mem (inside item List.mem_cons_self)
      have holds' : (groupStore nodes table home unit block most).Holds _ left parts s'.machine := machine ▸ holds
      refine (callValue follows (holds'.run_chainNextSameHash isMember (hashCode key)) rfl rfl (.refl _)).bind
        fun following s'' _ ⟨machine', followingIs⟩ => ?_
      have isNext : table.nextSameHash? item.entry (hashCode key) = rest.head?.map GroupSlot.entry := by
        rw [later.start_eq, List.head?_map]
      rw [isNext] at followingIs later
      refine .pure ⟨[_], .cons followingIs .nil, machine'.trans machine, rest, rfl, later,
        fun other member => inside other (List.mem_cons_of_mem _ member), fun other member same => ?_, Nat.succ.inj count⟩
      rcases List.mem_cons.mp (kept other member same) with rfl | behind
      · exact absurd same (of_decide_eq_true different)
      · exact behind
  · obtain ⟨machine, rest, rfl, visits, inside, kept, count⟩ := finished
    obtain ⟨node, rfl, nodeIs⟩ := exists_of_forall₂_single reads
    refine .pure ⟨machine, _, nodeIs, ?_⟩
    cases rest with
    | nil =>
      refine .inr ⟨fun member => ?_, rfl⟩
      obtain ⟨slot, isSlot, same⟩ := List.mem_map.mp member
      exact absurd (kept slot (complete slot isSlot same) same) List.not_mem_nil
    | cons item rest =>
      have isSame : item.key = key := by
        by_contra different
        have goesOn : differs item = true := decide_eq_true different
        rw [List.takeWhile_cons_of_pos goesOn, List.length_cons] at count
        cases count
      exact .inl ⟨item, inside item List.mem_cons_self, isSame, rfl⟩

end

omit indicator in
theorem Grouping.kept (grouping : Grouping aggregates rows store slots left parts m) (later : m.Later m')
    (agrees : ∀ part ∈ parts, m.Agrees m' part) :
    Grouping aggregates rows store slots left parts m' where
  stores := grouping.stores.kept later agrees
  partition := grouping.partition
  hashes := grouping.hashes
  folded := fun slot member => (grouping.folded slot member).mono later.unreported

/-- Receives rows into the groups of a hash table. -/
def Receiver.grouping (aggregates : List Aggregate) (home unit block most : Nat) : Receiver where
  most := most
  Holds := fun rows left parts m => ∃ nodes table slots,
    Grouping aggregates rows (groupStore nodes table home unit block most) slots left parts m
  keeps := by
    rintro rows left parts m m' ⟨nodes, table, slots, grouping⟩ later agrees
    exact ⟨nodes, table, slots, grouping.kept later agrees⟩

/-- The state of a group stands at `offset`. -/
structure StateAt (aggregates : List Aggregate) (rows : List ValueRow) (offset : Nat) (state : List Datum) (m : Machine) :
    Prop where
  lies : m.TupleAt offset (Aggregate.layout aggregates).fields state
  folded : Aggregate.Folded m.outcome.overflow rows aggregates state

/-- A state has been written, and nothing else has been changed. -/
def StateWritten (aggregates : List Aggregate) (rows : List ValueRow) (offset : Nat) (m m' : Machine) : Prop :=
  ∃ between state, m.Quiet between ∧
    between.Writes offset (offset + (Aggregate.layout aggregates).size) m' ∧
    StateAt aggregates rows offset state m'

section

variable (typed : ∀ aggregate ∈ aggregates, aggregate.Typed types) (is : HeldRow.Is s held row)
  (rowTyped : HeldRow.Typed types held) (addressIs : s.Reads address .ptr (scratchAddress offset))
  (inside : offset + (Aggregate.layout aggregates).size ≤ scratchSpan)

include typed is rowTyped addressIs inside

theorem attains_startState {post : List Reg → Point → Prop} {rest : Emit (List Reg)} [Growing rest]
    (goesOn : ∀ s', s.Before s' → StateWritten aggregates [row] offset s.machine s'.machine → host.Attains rest s' post) :
    host.Attains (do
      let state ← initialState held aggregates
      Held.storeTuple (layout aggregates) address state
      rest) s post := by
  refine (attains_initialState typed is rowTyped).bind
    fun hs s1 before1 ⟨state, quiet, folded, are, shapes⟩ => ?_
  refine (Held.attains_storeTuple indicator (addressIs.mono before1) are shapes inside).bind
    fun _ s2 before2 ⟨writes, lies⟩ => goesOn s2 (before1.trans before2) ⟨s1.machine, state, quiet, writes, lies, ?_⟩
  rw [writes.outcome]
  exact folded

/-- One more row of a group. -/
theorem attains_updateGroup (current : StateAt aggregates group offset state s.machine) (some : group ≠ [])
    (same : ∀ other ∈ group, Aggregate.SameKeys aggregates row other) :
    host.Attains (updateGroup aggregates (layout aggregates) held address) s fun _ s' =>
      StateWritten aggregates (group ++ [row]) offset s.machine s'.machine := by
  refine (Held.attains_loadTuple indicator addressIs current.lies inside).bind
    fun stored s1 before1 ⟨machine1, storedAre, storedShapes⟩ => ?_
  refine (attains_updateState typed (machine1 ▸ current.folded) some same storedAre storedShapes (is.mono before1)
    rowTyped).bind fun hs s2 before2 ⟨state', quiet, folded, are, shapes⟩ => ?_
  rw [machine1] at quiet
  refine (Held.attains_storeTuple indicator (addressIs.mono (before1.trans before2)) are shapes inside).mono
    fun _ s3 _ ⟨writes, lies⟩ => ⟨s2.machine, state', quiet, writes, lies, ?_⟩
  rw [writes.outcome]
  exact folded

end

omit indicator in
/-- A group more, with its first row. -/
theorem Grouping.started (grouping : Grouping aggregates rows store slots left parts m)
    (selected : row.selected? (keys aggregates) = some key) (new : key ∉ slots.map GroupSlot.key)
    (later : m.Later m')
    (stored : store'.Stores (stateTypes aggregates)
      (Entry.appended (slots.map GroupSlot.entry) (hashCode key) place) (slots.map GroupSlot.state ++ [state]) left' parts' m')
    (folded : Aggregate.Folded m'.outcome.overflow [row] aggregates state) :
    Grouping aggregates (rows ++ [row]) store'
      (slots ++ [⟨⟨(slots.map GroupSlot.entry).length, hashCode key, place⟩, key, state⟩]) left' parts' m' where
  stores := by
    rw [List.map_append, List.map_append]
    exact stored
  partition := by
    rw [List.map_append]
    exact grouping.partition.new selected new
  hashes := by
    intro slot member
    rcases List.mem_append.mp member with old | last
    · exact grouping.hashes slot old
    · rw [List.mem_singleton.mp last]
  folded := by
    intro slot member
    rcases List.mem_append.mp member with old | last
    · rw [ValueRow.group_concat_ne fun same => new (Option.some.inj (selected.symm.trans same) ▸ List.mem_map_of_mem old)]
      exact (grouping.folded slot old).mono later.unreported
    · rw [List.mem_singleton.mp last, ValueRow.group_concat_same selected, grouping.partition.group_eq_nil new]
      exact folded

omit indicator in
/-- One more row for the group of `slot`. -/
theorem Grouping.continued (grouping : Grouping aggregates rows store (before ++ slot :: after) left parts m)
    (selected : row.selected? (keys aggregates) = some slot.key) (quiet : m.Quiet m1)
    (limit : m.taken ≤ scratchSpan)
    (writes : m1.Writes (slot.entry.payload + nodeHeader) (slot.entry.payload + nodeHeader + (layout aggregates).size) m')
    (current : StateAt aggregates (ValueRow.group (keys aggregates) rows slot.key ++ [row])
      (slot.entry.payload + nodeHeader) state m') :
    Grouping aggregates (rows ++ [row]) store (before ++ { slot with state } :: after) left parts m' where
  stores := by
    have stored := grouping.stores.quiet quiet
    simp only [List.map_append, List.map_cons] at stored ⊢
    exact stored.rewritten (by simp) (by rw [quiet.same]; exact limit) writes current.lies
  partition := by
    have partition := grouping.partition
    simp only [List.map_append, List.map_cons] at partition ⊢
    exact partition.old selected (List.mem_append_right _ List.mem_cons_self)
  hashes := by
    have hashes := grouping.hashes
    simp only [List.forall_mem_append, List.forall_mem_cons] at hashes ⊢
    exact hashes
  folded := by
    have distinct := grouping.partition.nodup
    rw [List.map_append, List.map_cons, List.nodup_middle, List.nodup_cons, ← List.map_append] at distinct
    have later : m.Later m' := quiet.toLater.trans (writes.touches (by rw [quiet.same]; exact limit)).toLater
    -- The row belongs to no other group.
    have others (other : GroupSlot) (member : other ∈ before ++ after) (inside : other ∈ before ++ slot :: after) :
        Aggregate.Folded m'.outcome.overflow (ValueRow.group (keys aggregates) (rows ++ [row]) other.key) aggregates
          other.state := by
      rw [ValueRow.group_concat_ne fun same =>
        distinct.1 (Option.some.inj (selected.symm.trans same) ▸ List.mem_map_of_mem member)]
      exact (grouping.folded other inside).mono later.unreported
    intro other member
    rcases List.mem_append.mp member with early | rest
    · exact others other (List.mem_append_left _ early) (List.mem_append_left _ early)
    · rcases List.mem_cons.mp rest with rfl | late
      · rw [ValueRow.group_concat_same selected]
        exact current.folded
      · exact others other (List.mem_append_right _ late) (List.mem_append_right _ (List.mem_cons_of_mem _ late))

variable (typed : ∀ aggregate ∈ aggregates, aggregate.Typed types)

include typed

section

variable (is : HeldRow.Is s held row) (rowTyped : HeldRow.Typed types held)
  (grouping : Grouping aggregates rows (groupStore nodes table home unit block most) slots left parts s.machine)
  (stands : (Receiver.grouping aggregates home unit block most).Stands host s.size rows left parts s.machine)

include is rowTyped grouping stands

/-- The first row of a group gets a node of its own. -/
theorem attains_startGroup (rounded : Pool.roundUp? (nodeHeader + (layout aggregates).size) = some unit)
    (small : (layout aggregates).size ≤ TupleLayout.largestSize) (few : rows.length < most)
    (tableIs : s.Reads tableReg .ptr (scratchAddress home)) (hashIs : s.Reads hash .i64 (hashCode key))
    (selected : row.selected? (keys aggregates) = some key) (new : key ∉ slots.map GroupSlot.key) :
    host.Attains (startGroup aggregates (layout aggregates) tableReg hash held) s
      fun regs s' => ∃ cells, s'.ReadsAll regs cells ∧
        (Receiver.grouping aggregates home unit block most).Moves host s.size rows [row] left parts s.machine s'.machine := by
  obtain ⟨fits, size⟩ := TupleLayout.size_word small
  refine (constNumber fits).bind fun sizeReg s1 before1 ⟨machine1, sizeIs⟩ => ?_
  have count : (slots.map GroupSlot.entry).length < most := by
    have fewer := grouping.partition.length_le
    rw [List.length_map] at fewer ⊢
    omega
  obtain ⟨nodes', place, left', parts', m, runs, gains⟩ :=
    grouping.stores.holds.add (by rw [size]; exact rounded) count (hashCode key) stands.room
  have args : s1.ReadsAll [tableReg, hash, sizeReg] [(.ptr, scratchAddress home), (.i64, hashCode key),
      (.i64, Word.ofInt (layout aggregates).size)] :=
    .cons (tableIs.mono before1) (.cons (hashIs.mono before1) (.cons sizeIs.reads .nil))
  refine (callValue args (machine1 ▸ runs) rfl (machine1 ▸ gains.touches.program)
    (machine1 ▸ gains.touches.toLater.keepsTexts)).bind fun payload s2 before2 ⟨machine2, payloadIs⟩ => ?_
  have payloadIs : s2.Reads payload .ptr (scratchAddress (place + nodeHeader)) := payloadIs
  have inside := gains.payload_inside
  have bytes := Pool.le_of_roundUp rounded
  have limit : m.taken ≤ scratchSpan := gains.limit stands.room
  dsimp only at inside
  refine attains_startState indicator typed (is.mono (before1.trans before2)) rowTyped payloadIs (by omega)
    fun s3 _ ⟨between, state, quiet, writes, lies, folded⟩ => .pure ⟨[], .nil, ?_⟩
  rw [machine2] at quiet
  obtain ⟨stored, touched, budget⟩ := grouping.stores.gained gains limit quiet writes lies
  exact stands.advance ⟨nodes', _, _, grouping.started selected new touched.toLater stored folded⟩ touched gains.inside
    (fun part member => stored.holds.has member) (Nat.le_of_eq budget)

/-- A row of a group that is there is folded into the state of its node. -/
theorem attains_foldGroup (member : slot ∈ slots) (selected : row.selected? (keys aggregates) = some slot.key)
    (nodeIs : s.Reads node .ptr slot.entry.address) :
    host.Attains (foldGroup aggregates (layout aggregates) held node) s
      fun regs s' => ∃ cells, s'.ReadsAll regs cells ∧
        (Receiver.grouping aggregates home unit block most).Moves host s.size rows [row] left parts s.machine s'.machine := by
  refine (Entry.attains_nodePayload nodeIs).bind fun payload s1 before1 ⟨machine1, payloadIs⟩ => ?_
  have limit := stands.laid.span
  obtain ⟨range, bound⟩ := grouping.stores.holds.node (List.mem_map_of_mem member)
  have size := grouping.size
  have current : StateAt aggregates (ValueRow.group (keys aggregates) rows slot.key)
      (slot.entry.payload + nodeHeader) slot.state s1.machine := by
    rw [machine1]
    exact ⟨grouping.stores.tupleAt (GroupSlot.mem_zip member), grouping.folded slot member⟩
  have same (other : ValueRow) (inside : other ∈ ValueRow.group (keys aggregates) rows slot.key) :
      Aggregate.SameKeys aggregates row other :=
    ValueRow.value?_eq_of_selected? selected (ValueRow.mem_group.mp inside).2
  refine (attains_updateGroup indicator typed (is.mono before1) rowTyped payloadIs (by omega) current
    (grouping.partition.nonempty slot.key (List.mem_map_of_mem member)) same).bind
    fun _ s2 _ ⟨between, state, quiet, writes, after⟩ => .pure ⟨[], .nil, ?_⟩
  rw [machine1] at quiet
  obtain ⟨early, late, rfl⟩ := List.append_of_mem member
  have continued := grouping.continued selected quiet limit writes after
  have written := quiet.toTouches.quiet_trans (writes.touches (by rw [quiet.same]; exact limit))
  refine stands.advance ⟨nodes, table, _, continued⟩ (written.mono fun part isPart => .inl ?_) (fun _ isPart => .inl isPart)
    (fun part isPart => continued.stores.holds.has isPart) ?_
  · exact range (Part.range_subset (by omega) (by omega) isPart)
  · rw [writes.taken, quiet.same]

end

/-- Every row gets into the group of its keys. -/
theorem Receiver.grouping_receives (rounded : Pool.roundUp? (nodeHeader + (layout aggregates).size) = some unit)
    (small : (layout aggregates).size ≤ TupleLayout.largestSize)
    (tableIs : s0.Reads tableReg .ptr (scratchAddress home)) :
    (Receiver.grouping aggregates home unit block most).Receives host types s0
      (keyedRow aggregates (layout aggregates) tableReg) := by
  intro held row rows left parts s before later is rowTyped few stands
  obtain ⟨nodes, table, slots, grouping⟩ := stands.holds
  refine (is.attains_keys _).bind fun keyRegs s1 before1 ⟨key, machine1, selected, keyIs⟩ => ?_
  refine (Held.attains_hashTuple keyIs).bind fun hash s2 before2 ⟨machine2, hashIs⟩ => ?_
  have machine : s2.machine = s.machine := machine2.trans machine1
  have early := before.trans (before1.trans before2)
  refine (attains_findGroup indicator (by rw [machine]; exact stands.laid.span) (machine ▸ grouping)
    (keyIs.imp fun _ _ is => is.mono before2) (tableIs.mono early) hashIs).bind
    fun node s3 before3 ⟨machine3, w, nodeIs, found⟩ => ?_
  refine nullPtr.bind fun null s4 before4 ⟨machine4, nullIs⟩ => ?_
  have upto := before1.trans (before2.trans (before3.trans before4))
  -- Both branches start where nothing has been changed yet.
  have standing (s' : Point) (after : s4.Before s') (same : s'.machine = s4.machine) : s.Before s' ∧ s.machine.Quiet s'.machine ∧
      Grouping aggregates rows (groupStore nodes table home unit block most) slots left parts s'.machine ∧
      (Receiver.grouping aggregates home unit block most).Stands host s'.size rows left parts s'.machine := by
    have whole : s'.machine = s.machine := by rw [same, machine4, machine3, machine]
    have quiet : s.machine.Quiet s'.machine := .of_eq whole
    exact ⟨upto.trans after, quiet, whole ▸ grouping, stands.quiet quiet (upto.trans after).types_size⟩
  let post (_ : List (CodeType × Word)) (m : Machine) : Prop :=
    (Receiver.grouping aggregates home unit block most).Moves host s.size rows [row] left parts s.machine m
  refine (Host.Attains.compare .eq (nodeIs.mono before4) nullIs).bind fun missing s5 before5 ⟨machine5, missingIs⟩ => ?_
  refine .map ((ifThenElse post missingIs (fun isNull s' before' same => ?_) fun notNull s' before' same => ?_).mono
    fun _ _ _ ⟨_, _, moves⟩ => moves)
  all_goals obtain ⟨far, quiet, grouping', stands'⟩ := standing s' (before5.trans before') (same.trans machine5)
  · have new : key ∉ slots.map GroupSlot.key := by
      rcases found with ⟨slot, member, _, atNode⟩ | ⟨new, _⟩
      · exact absurd (atNode.symm.trans (of_decide_eq_true isNull)) (grouping.address_ne_zero stands.laid.span member)
      · exact new
    refine (attains_startGroup indicator typed (is.mono far) rowTyped grouping' stands' rounded small few
      (tableIs.mono (before.trans far)) (hashIs.mono (before3.trans (before4.trans (before5.trans before')))) selected new).mono
      fun regs s'' _ ⟨cells, reads, moves⟩ => ⟨cells, reads, moves.after stands quiet far.types_size⟩
  · rcases found with ⟨slot, member, rfl, rfl⟩ | ⟨_, atNull⟩
    · refine (attains_foldGroup indicator typed (is.mono far) rowTyped grouping' stands' member selected
        (nodeIs.mono (before4.trans (before5.trans before')))).mono
        fun regs s'' _ ⟨cells, reads, moves⟩ => ⟨cells, reads, moves.after stands quiet far.types_size⟩
    · exact absurd atNull (of_decide_eq_false notNull)

end QueryEngine
