import QueryEngine.Proofs.Pipeline.Groups

set_option synthInstance.maxSize 512

namespace QueryEngine

open List Part GroupSlot
open Receiver hiding grouping most

open Machine (scratchAddress scratchSpan)

open Emit Host.Attains

variable {rows : List ValueRow} {aggregates : List Aggregate} {m m' : Machine} {left most : Nat} {host : Host}
  {s : Point} {types : Nat → Shape} {next : Sink} {reported reported' : Bool} {slots : List GroupSlot}

/-- One row for every group, with the values of the aggregates for the rows of the group. -/
def Grouped (reported : Bool) (aggregates : List Aggregate) (rows out : List ValueRow) : Prop :=
  ∃ keys, ValueRow.Partition (Aggregate.keys aggregates) rows keys ∧
    Forall₂ (fun key row => Aggregate.Describes reported aggregates
      (ValueRow.group (Aggregate.keys aggregates) rows key) row.reverse) keys out

theorem Grouped.length_le (grouped : Grouped reported aggregates rows out) : out.length ≤ rows.length := by
  obtain ⟨_, partition, each⟩ := grouped
  rw [← each.length_eq]
  exact partition.length_le

theorem ValueRow.Partition.perm (partition : Partition attributes rows groups) (same : groups.Perm groups') :
    Partition attributes rows groups' where
  nodup := same.nodup_iff.mp partition.nodup
  known := fun row member => by
    obtain ⟨key, known, selected⟩ := partition.known row member
    exact ⟨key, same.mem_iff.mp known, selected⟩
  nonempty := fun key member => partition.nonempty key (same.mem_iff.mpr member)

theorem Aggregate.Yields.mono {aggregate : Aggregate} {d : Datum}
    (yields : aggregate.Yields reported rows d) (less : reported' = false → reported = false) :
    aggregate.Yields reported' rows d := by
  cases aggregate with
  | keep | countAll | min => exact yields
  | sum =>
    obtain ⟨xs, values, total, null, exact⟩ := yields
    exact ⟨xs, values, total, null, exact.mono less⟩
  | avg =>
    obtain ⟨xs, values, null, present⟩ := yields
    refine ⟨xs, values, null, fun nowhere => ?_⟩
    obtain ⟨total, precision, ⟨isSum, isNull, exact⟩, quotient⟩ := present nowhere
    exact ⟨total, precision, ⟨isSum, isNull, exact.mono less⟩, quotient⟩

theorem Aggregate.Describes.mono {items : ValueRow}
    (describes : Aggregate.Describes reported aggregates rows items) (less : reported' = false → reported = false) :
    Aggregate.Describes reported' aggregates rows items :=
  describes.imp fun _ _ ⟨isResult, yields⟩ => ⟨isResult, yields.mono less⟩

variable {offset : Nat} {state : List Datum}

variable {R : Receiver} {more : List ValueRow}

/-- The groups in the order of the hash table. -/
theorem Grouping.in_order
    (grouping : Grouping aggregates rows (groupStore nodes table home unit block most) slots left parts m) :
    ∃ items : List GroupSlot, items.Perm slots ∧ Visits table.next? table.first? (items.map entry) := by
  obtain ⟨_, _, tableHolds, _⟩ := grouping.stores.holds.chained_table
  have numbers := grouping.stores.holds.nodup
  obtain ⟨items, sameEntries, among⟩ := exists_of_entries slots table.entries
    fun entry member => tableHolds.same.mem_iff.mp member
  refine ⟨items, ?_, sameEntries ▸ tableHolds.visits_entries numbers⟩
  have slotsNodup : slots.Nodup := numbers.of_map.of_map
  have itemsNodup : items.Nodup := by
    have entriesNodup := tableHolds.same.nodup_iff.mpr numbers.of_map
    rw [← sameEntries] at entriesNodup
    exact entriesNodup.of_map
  refine (perm_ext_iff_of_nodup itemsNodup slotsNodup).mpr fun slot => ⟨among slot, fun member => ?_⟩
  have visited := tableHolds.same.mem_iff.mpr (mem_map_of_mem member)
  rw [← sameEntries] at visited
  obtain ⟨item, isItem, sameEntry⟩ := mem_map.mp visited
  rwa [grouping.eq_of_entry member (among item isItem) sameEntry.symm]

section

variable {ins : List ValueRow} {nodes : NodeTable} {table : ChainTable Nat} {home unit block left0 : Nat}
  {parts0 : Set Part} {tableReg : Reg}

instance [∀ held, Growing (next held)] : Growing (finishGroup aggregates layout next address) := by
  unfold finishGroup
  infer_instance

/-- Hands on the row of the group of a node. -/
abbrev groupNode (aggregates : List Aggregate) (layout : TupleLayout) (table : Reg) (next : Sink) (node : Reg) : Emit Reg := do
  let payload ← nodePayload node
  finishGroup aggregates layout next payload
  Emit.callValue .chainNext [table, node]

variable (indicator : host.program.encoding = .indicator) (typed : ∀ aggregate ∈ aggregates, aggregate.Typed types)
  (R : Receiver) (rows : List ValueRow) (left : Nat) (own : Set Part) (grows : ∀ held, Growing (next held))
  (receives : R.Receives host types s next) (stands : R.Stands host s.size rows left own s.machine)

include indicator typed grows receives stands

/-- The row of a group is handed on. -/
theorem attains_finishGroup (addressIs : s.Reads address .ptr (scratchAddress offset))
    (current : StateAt aggregates group offset state s.machine) (some : group ≠ [])
    (inside : offset + (Aggregate.layout aggregates).size ≤ scratchSpan) (enough : rows.length < R.most) :
    host.Attains (finishGroup aggregates (Aggregate.layout aggregates) next address) s fun _ s' =>
      ∃ row, Aggregate.Describes s'.machine.outcome.overflow aggregates group row.reverse ∧
        R.Moves host s.size rows [row] left own s.machine s'.machine := by
  refine (Held.attains_loadTuple indicator addressIs current.lies inside).bind
    fun stored s1 before1 ⟨machine1, storedAre, storedShapes⟩ => ?_
  refine (Aggregate.attains_outputRow typed current.folded some storedAre storedShapes .nil nofun).bind
    fun held s2 before2 ⟨items, quiet2, describes, is, rowTyped⟩ => ?_
  have quiet : s.machine.Quiet s2.machine := machine1 ▸ quiet2
  have early := before1.trans before2
  rw [append_nil] at is
  refine (receives held items.reverse rows left own s2 early quiet.toLater is rowTyped enough
    (stands.quiet quiet early.types_size)).mono fun _ s3 _ moves => ⟨items.reverse, ?_, moves.after stands quiet early.types_size⟩
  rw [reverse_reverse]
  exact describes.mono (quiet.toLater.trans moves.1.toLater).unreported

variable (grouping : Grouping aggregates ins (groupStore nodes table home unit block most) slots left0 parts0 s.machine)
  (owns : host.Owns s.size s.machine parts0) (tableIs : s.Reads tableReg .ptr (scratchAddress home))
  (apart : ∀ part ∈ own, part ∉ parts0)

include grouping owns tableIs apart

/-- The row of one group of the hash table is handed on. -/
theorem groupNode_step (member : slot ∈ slots) (nodeIs : s.Reads node .ptr slot.entry.address)
    (enough : rows.length < R.most) :
    host.Attains (groupNode aggregates (Aggregate.layout aggregates) tableReg next node) s fun following s' =>
      s'.Reads following .ptr (nodeAddress (table.next? slot.entry)) ∧
      ∃ row, Aggregate.Describes s'.machine.outcome.overflow aggregates
        (ValueRow.group (Aggregate.keys aggregates) ins slot.key) row.reverse ∧
        R.Moves host s.size rows [row] left own s.machine s'.machine := by
  refine (Entry.attains_nodePayload nodeIs).bind fun payload s1 before1 ⟨machine1, payloadIs⟩ => ?_
  obtain ⟨_, bound⟩ := grouping.stores.holds.node (mem_map_of_mem member)
  have size := grouping.size
  have span := stands.laid.span
  have quiet1 : s.machine.Quiet s1.machine := .of_eq machine1
  have current : StateAt aggregates (ValueRow.group (Aggregate.keys aggregates) ins slot.key)
      (slot.entry.payload + nodeHeader) slot.state s1.machine := by
    rw [machine1]
    exact ⟨grouping.stores.tupleAt (mem_zip member), grouping.folded slot member⟩
  refine (attains_finishGroup indicator typed R rows left own grows (receives.mono before1 quiet1.toLater)
    (stands.quiet quiet1 before1.types_size) payloadIs current
    (grouping.partition.nonempty slot.key (mem_map_of_mem member)) (by omega) enough).bind
    fun _ s2 before2 ⟨row, describes, moved⟩ => ?_
  have moves := moved.after stands quiet1 before1.types_size
  have grouping2 := grouping.kept moves.1.toLater (moves.agrees owns apart)
  have args : s2.ReadsAll [tableReg, node] [(.ptr, scratchAddress home), (.ptr, slot.entry.address)] :=
    .cons (tableIs.mono (before1.trans before2)) (.cons (nodeIs.mono (before1.trans before2)) .nil)
  refine (callValue args (grouping2.stores.holds.run_chainNext (mem_map_of_mem member)) rfl rfl (.refl _)).mono
    fun following s3 _ ⟨machine3, followingIs⟩ => ⟨followingIs, row, ?_⟩
  rw [machine3]
  exact ⟨describes, moves⟩

/-- The rows of all groups are handed on, in the order of the hash table. -/
theorem attains_groupNodes (firstIs : s.Reads first .ptr (nodeAddress table.first?))
    (enough : rows.length + slots.length ≤ R.most) :
    host.Attains (forNodes first (groupNode aggregates (Aggregate.layout aggregates) tableReg next)) s fun _ s' =>
      ∃ out, Grouped s'.machine.outcome.overflow aggregates ins out ∧
        R.Moves host s.size rows out left own s.machine s'.machine := by
  obtain ⟨items, same, visits⟩ := grouping.in_order
  have inside (item : GroupSlot) (member : item ∈ items) : item ∈ slots := same.mem_iff.mp member
  let describes (reported : Bool) (slot : GroupSlot) (row : ValueRow) : Prop :=
    Aggregate.Describes reported aggregates (ValueRow.group (Aggregate.keys aggregates) ins slot.key) row.reverse
  -- The groups up to here have been handed on, one row for each.
  let inv (rest : List GroupSlot) (m : Machine) : Prop := ∃ done out, items = done ++ rest ∧
    Forall₂ (describes m.outcome.overflow) done out ∧ R.Moves host s.size rows out left own s.machine m
  refine (Host.Attains.forNodes entry inv visits
    (fun item member => grouping.address_ne_zero stands.laid.span (inside item member)) firstIs
    ⟨[], [], rfl, .nil, stands.moves⟩ ?_).mono fun _ s' _ ⟨done, out, whole, each, moves⟩ => ⟨out, ?_, moves⟩
  · rintro item rest node s' before member nodeIs ⟨done, out, split, each, moved⟩
    have later := moved.1.toLater
    have grouping' := grouping.kept later (moved.agrees owns apart)
    obtain ⟨touches, left', own', stands', fresh, taken⟩ := moved
    have wide := before.types_size
    have apart' := apart_of_inside fresh apart owns
    have room : (rows ++ out).length < R.most := by
      have total := same.length_eq
      rw [split, length_append, length_cons] at total
      rw [length_append, ← each.length_eq]
      omega
    refine (groupNode_step indicator typed R _ left' own' grows (receives.mono before later) (stands'.quiet (.refl _) wide)
      grouping' (owns.mono later wide) (tableIs.mono before) apart' (inside item member) nodeIs room).mono
      fun following s'' _ ⟨followingIs, row, isRow, moves⟩ => ⟨followingIs, done ++ [item], out ++ [row], ?_, ?_, ?_⟩
    · rw [split, append_assoc, singleton_append]
    · exact rel_append (each.imp fun _ _ is => is.mono moves.1.toLater.unreported) (.cons isRow .nil)
    · exact .extend touches fresh taken stands' wide moves
  · rw [append_nil] at whole
    subst whole
    exact ⟨items.map key, grouping.partition.perm (same.symm.map _), forall₂_map_left_iff.mpr each⟩

end

/-- What a grouping may take for its hash table. -/
def groupNeed (most : Nat) : Nat := Pool.cost largestNode (Pool.defaultBlock + 8) most + 8

variable {db : Database} {settings : Settings} {child : Sink → Emit Unit} {outputs : List ValueRow → Prop}
  {need : Nat}

/-- Where the only group has its state, and where it is noted that there has been a row. -/
structure SinglePlace (aggregates : List Aggregate) where
  state : Nat
  seen : Nat
  stateInside : state + (Aggregate.layout aggregates).size ≤ scratchSpan
  seenInside : seen + 8 ≤ scratchSpan
  apart : state + (Aggregate.layout aggregates).size ≤ seen ∨ seen + 8 ≤ state

namespace SinglePlace

variable {place : SinglePlace aggregates}

def stateParts (place : SinglePlace aggregates) : Set Part :=
  Part.range place.state (place.state + (Aggregate.layout aggregates).size)

def parts (place : SinglePlace aggregates) : Set Part := place.stateParts ∪ Part.range place.seen (place.seen + 8)

/-- The rows have been folded into the only group. -/
structure Holds (place : SinglePlace aggregates) (rows : List ValueRow) (m : Machine) : Prop where
  flag : m.load 8 (scratchAddress place.seen) = if rows = [] then 0 else 1
  state : rows ≠ [] → ∃ state, StateAt aggregates rows place.state state m

theorem flag_kept (agrees : ∀ part ∈ range place.seen (place.seen + 8), m.Agrees m' part) :
    m'.load 8 (scratchAddress place.seen) = m.load 8 (scratchAddress place.seen) :=
  Machine.load_congr fun _ lower upper => (agrees _ (mem_range.mpr ⟨lower, upper⟩)).1

theorem state_kept (current : StateAt aggregates rows place.state state m) (later : m.Later m')
    (agrees : ∀ part ∈ place.stateParts, m.Agrees m' part) : StateAt aggregates rows place.state state m' where
  lies := current.lies.congr (TupleLayout.make_placed .indicator _) later.keepsTexts fun _ lower upper =>
    (agrees _ (mem_range.mpr ⟨lower, upper⟩)).1
  folded := current.folded.mono later.unreported

theorem Holds.kept (holds : place.Holds rows m) (later : m.Later m') (agrees : ∀ part ∈ place.parts, m.Agrees m' part) :
    place.Holds rows m' where
  flag := by
    rw [flag_kept fun part member => agrees part (.inr member)]
    exact holds.flag
  state := fun some => by
    obtain ⟨state, current⟩ := holds.state some
    exact ⟨state, state_kept current later fun part member => agrees part (.inl member)⟩

theorem seen_apart (member : part ∈ range place.seen (place.seen + 8)) : part ∉ place.stateParts := by
  rintro ⟨i, lower, upper, rfl⟩
  have range := mem_range.mp member
  have apart := place.apart
  omega

end SinglePlace

theorem StateWritten.touches (written : StateWritten aggregates rows offset m m') (limit : m.taken ≤ scratchSpan) :
    m.Touches (range offset (offset + (Aggregate.layout aggregates).size)) m' ∧
      m'.taken = m.taken := by
  obtain ⟨_, _, quiet, writes, _⟩ := written
  exact ⟨quiet.toTouches.quiet_trans (writes.touches (by rw [quiet.same]; exact limit)), by rw [writes.taken, quiet.same]⟩

/-- Receives rows into the only group. -/
def Receiver.single {aggregates : List Aggregate} (place : SinglePlace aggregates) (most : Nat) : Receiver where
  most := most
  Holds := fun rows _ parts m => parts = place.parts ∧ place.Holds rows m
  keeps := by
    rintro rows left _ m m' ⟨rfl, holds⟩ later agrees
    exact ⟨rfl, holds.kept later agrees⟩

/-- The code for the first row of the only group. -/
def Emit.startSingle (aggregates : List Aggregate) (layout : TupleLayout) (slot seen : Reg) (row : HeldRow) :
    Emit (List Reg) := do
  let state ← Aggregate.initialState row aggregates
  Held.storeTuple layout slot state
  let flag ← Emit.const .i64 1
  Emit.store flag seen
  return []

/-- The code for any other row of the only group. -/
def Emit.foldSingle (aggregates : List Aggregate) (layout : TupleLayout) (slot : Reg) (row : HeldRow) : Emit (List Reg) := do
  updateGroup aggregates layout row slot
  return []

section

variable {place : SinglePlace aggregates} {row : ValueRow} {held : HeldRow} {slot seen : Reg} {parts : Set Part}

theorem Receiver.Stands.single_moves (stands : (single place most).Stands host low rows left place.parts m)
    (after : place.Holds (rows ++ more) m') (touched : m.Touches place.parts m') (taken : m'.taken = m.taken) :
    (single place most).Moves host low rows more left place.parts m m' := by
  have holds : (single place most).Holds (rows ++ more) left place.parts m' := ⟨rfl, after⟩
  refine stands.advance holds touched (fun part member => .inl member)
    (fun part member => touched.toLater.has (stands.owns.has part member)) (Nat.le_of_eq ?_)
  rw [taken]

variable (indicator : host.program.encoding = .indicator)

include indicator

variable (typed : ∀ aggregate ∈ aggregates, aggregate.Typed types)
  (slotIs : s.Reads slot .ptr (scratchAddress place.state))

include typed slotIs

section

variable (is : HeldRow.Is s held row) (rowTyped : HeldRow.Typed types held)

include is rowTyped

theorem attains_startSingle (seenIs : s.Reads seen .ptr (scratchAddress place.seen))
    (stands : (single place most).Stands host s.size [] left parts s.machine) :
    host.Attains (startSingle aggregates (Aggregate.layout aggregates) slot seen held) s
      fun regs s' => ∃ cells, s'.ReadsAll regs cells ∧
        (single place most).Moves host s.size [] [row] left parts s.machine s'.machine := by
  obtain ⟨rfl, holds⟩ := stands.holds
  have limit := stands.laid.span
  refine attains_startState indicator typed is rowTyped slotIs place.stateInside fun s1 before1 written => ?_
  obtain ⟨touches1, taken1⟩ := written.touches limit
  obtain ⟨_, state, _, _, current⟩ := written
  refine (Host.Attains.const .i64 1).bind fun flag s2 before2 ⟨machine2, flagIs⟩ => ?_
  refine (Present.attains_storePart flagIs (seenIs.mono (before1.trans before2)) place.seenInside).bind
    fun _ s3 _ ⟨writes, loaded⟩ => .pure ⟨[], .nil, ?_⟩
  rw [machine2] at writes
  have limit1 : s1.machine.taken ≤ scratchSpan := by rw [taken1]; exact limit
  have touches3 := writes.touches limit1
  have after : place.Holds ([] ++ [row]) s3.machine := by
    refine ⟨?_, fun _ => ⟨state, SinglePlace.state_kept current touches3.toLater fun part member => ?_⟩⟩
    · rw [show (8 : Nat) = CodeType.i64.storeSize from rfl, loaded]
      rfl
    · refine touches3.keeps part ?_ fun isSeen => SinglePlace.seen_apart isSeen member
      exact touches1.toLater.has (stands.owns.has part (.inl member))
  have touched : s.machine.Touches place.parts s3.machine :=
    (touches1.mono fun part member => .inl (.inl member)).trans touches3 fun part member => .inl (.inr member)
  exact stands.single_moves after touched (writes.taken.trans taken1)

theorem attains_foldSingle (keyless : Aggregate.keys aggregates = []) (some : rows ≠ [])
    (stands : (single place most).Stands host s.size rows left parts s.machine) :
    host.Attains (foldSingle aggregates (Aggregate.layout aggregates) slot held) s
      fun regs s' => ∃ cells, s'.ReadsAll regs cells ∧
        (single place most).Moves host s.size rows [row] left parts s.machine s'.machine := by
  obtain ⟨rfl, holds⟩ := stands.holds
  obtain ⟨state, current⟩ := holds.state some
  have same (other : ValueRow) (_ : other ∈ rows) : Aggregate.SameKeys aggregates row other := by
    unfold Aggregate.SameKeys
    rw [keyless]
    nofun
  refine (attains_updateGroup indicator typed is rowTyped slotIs place.stateInside current some same).bind
    fun _ s1 _ written => .pure ⟨[], .nil, ?_⟩
  obtain ⟨touches, taken⟩ := written.touches stands.laid.span
  obtain ⟨_, state', _, _, current'⟩ := written
  have after : place.Holds (rows ++ [row]) s1.machine := by
    refine ⟨?_, fun _ => ⟨state', current'⟩⟩
    rw [SinglePlace.flag_kept fun part member => touches.keeps part (stands.owns.has part (.inr member))
      (SinglePlace.seen_apart member), holds.flag, if_neg some, if_neg (by simp)]
  exact stands.single_moves after (touches.mono fun part member => .inl (.inl member)) taken

end

/-- The first row starts the group, and all others are folded into it. -/
theorem Receiver.single_receives (keyless : Aggregate.keys aggregates = [])
    (seenIs : s.Reads seen .ptr (scratchAddress place.seen)) (most : Nat) :
    (single place most).Receives host types s
      (singleRow aggregates (Aggregate.layout aggregates) slot seen) := by
  intro held row rows left parts s' before later is rowTyped few stands
  have seenInside := place.seenInside
  refine (Host.Attains.load .i64 (seenIs.mono before) (Machine.scratchAddress_ne_zero (by omega))).bind
    fun n s1 before1 ⟨machine1, nIs⟩ => ?_
  refine (Host.Attains.const .i64 0).bind fun zero s2 before2 ⟨machine2, zeroIs⟩ => ?_
  refine (Host.Attains.compare .eq (nIs.mono before2) zeroIs).bind fun first s3 before3 ⟨machine3, firstIs⟩ => ?_
  have flag : s'.machine.load 8 (scratchAddress place.seen) = if rows = [] then 0 else 1 := stands.holds.2.flag
  have upto := before1.trans (before2.trans before3)
  have machine : s3.machine = s'.machine := machine3.trans (machine2.trans machine1)
  let post (_ : List (CodeType × Word)) (m : Machine) : Prop :=
    (single place most).Moves host s'.size rows [row] left parts s'.machine m
  refine .map ((ifThenElse post firstIs (fun set s4 before4 machine4 => ?_) fun unset s4 before4 machine4 => ?_).mono
    fun _ _ _ ⟨_, _, moves⟩ => moves)
  all_goals
    have quiet : s'.machine.Quiet s4.machine := .of_eq (machine4.trans machine)
    have far := upto.trans before4
  · have none : rows = [] := by
      have zero : s'.machine.load 8 (scratchAddress place.seen) = 0 := of_decide_eq_true set
      by_contra some
      rw [flag, if_neg some] at zero
      exact absurd zero (by decide)
    subst none
    refine (attains_startSingle indicator typed (slotIs.mono (before.trans far)) (is.mono far) rowTyped
      (seenIs.mono (before.trans far)) (stands.quiet quiet far.types_size)).mono
      fun regs s5 _ ⟨cells, reads, moves⟩ => ⟨cells, reads, moves.after stands quiet far.types_size⟩
  · have some : rows ≠ [] := by
      intro none
      rw [if_pos none] at flag
      exact of_decide_eq_false unset flag
    refine (attains_foldSingle indicator typed (slotIs.mono (before.trans far)) (is.mono far) rowTyped keyless some
      (stands.quiet quiet far.types_size)).mono
      fun regs s5 _ ⟨cells, reads, moves⟩ => ⟨cells, reads, moves.after stands quiet far.types_size⟩

end

theorem Machine.load_unwritten (zero : ∀ i, offset ≤ i → i < offset + 8 → m.cell i = 0) :
    m.load 8 (scratchAddress offset) = 0 := by
  have all : (List.range 8).map (fun i => m.cell (offset + i)) = List.replicate 8 0 := by
    refine eq_replicate_iff.mpr ⟨by simp, fun b member => ?_⟩
    obtain ⟨i, bound, rfl⟩ := mem_map.mp member
    have bound := mem_range.mp bound
    exact zero _ (by omega) (by omega)
  rw [Machine.load, readBytes_scratch, all]
  rfl

theorem Point.Reads.index_lt (reads : s.Reads r ty w) : r.index < s.size :=
  (Array.getElem?_eq_some_iff.mp reads.typed).1

section

theorem ValueRow.group_keyless (rows : List ValueRow) : ValueRow.group [] rows [] = rows :=
  filter_eq_self.mpr fun _ _ => decide_eq_true rfl

/-- Without keys all rows are in one group. -/
theorem Grouped.single (keyless : Aggregate.keys aggregates = []) (some : rows ≠ [])
    (describes : Aggregate.Describes reported aggregates rows row.reverse) : Grouped reported aggregates rows [row] := by
  unfold Grouped
  rw [keyless]
  refine ⟨[[]], ⟨nodup_singleton _, fun row _ => ⟨[], mem_cons_self, rfl⟩, fun key member => ?_⟩, .cons ?_ .nil⟩
  · rw [mem_singleton.mp member, ValueRow.group_keyless]
    exact some
  · rwa [ValueRow.group_keyless]

end

/-- Two slots are the place of the only group. -/
theorem SinglePlace.exists_of_slots {s1 s2 : Point} {slot seen : Reg} (laid : host.Laid s.machine)
    (before1 : s.Before s1) (before2 : s1.Before s2) (slotIs : s1.Reads slot .ptr (host.slots slot))
    (seenIs : s2.Reads seen .ptr (host.slots seen))
    (slotMember : ⟨slot, max (Aggregate.layout aggregates).size 1⟩ ∈ host.function.slots.toList)
    (seenMember : ⟨seen, 8⟩ ∈ host.function.slots.toList) (slotLate : s.size ≤ slot.index)
    (seenLate : s1.size ≤ seen.index) :
    ∃ place : SinglePlace aggregates, s1.Reads slot .ptr (scratchAddress place.state) ∧
      s2.Reads seen .ptr (scratchAddress place.seen) ∧ host.Owns s2.size s.machine place.parts ∧
      place.parts ⊆ host.laterSlots s.size := by
  have slotEarly := slotIs.index_lt
  have seenEarly := seenIs.index_lt
  have wide1 := before1.types_size
  rw [laid.address _ slotMember (by dsimp only; omega)] at slotIs
  rw [laid.address _ seenMember (by dsimp only; omega)] at seenIs
  obtain ⟨slotRange, slotInside⟩ := laid.slot_range (s := s) slotMember slotLate (Nat.le_max_left _ _)
  obtain ⟨seenRange, seenInside⟩ := laid.slot_range (s := s) seenMember (Nat.le_trans wide1 seenLate) (Nat.le_refl _)
  have apart := laid.apart _ slotMember _ seenMember (by dsimp only; omega)
  dsimp only at apart slotRange slotInside seenRange seenInside
  refine ⟨⟨host.places slot, host.places seen, slotInside, seenInside, by omega⟩, slotIs, seenIs, ⟨?_, ?_⟩, ?_⟩
  · exact fun part member => member.elim (fun isState => laid.has (slotRange isState)) fun isSeen => laid.has (seenRange isSeen)
  · rintro part (isState | isSeen)
    · refine (laid.owns slotMember (by dsimp only; omega)).away part (range_subset (Nat.le_refl _) ?_ isState)
      dsimp only
      omega
    · exact (laid.owns seenMember (by dsimp only; omega)).away part isSeen
  · exact fun part member => member.elim (fun isState => slotRange isState) fun isSeen => seenRange isSeen

/-- The code of a grouping with keys. -/
abbrev keyedGroups (child : Sink → Emit Unit) (aggregates : List Aggregate) (layout : TupleLayout) (next : Sink) :
    Emit Unit := do
  let table ← Emit.callValue .chainCreate []
  child (keyedRow aggregates layout table)
  let first ← Emit.callValue .chainFirst [table]
  forNodes first (groupNode aggregates layout table next)
  Emit.callEffect .chainFree [table]

/-- The code of a grouping without keys. -/
abbrev singleGroup (child : Sink → Emit Unit) (aggregates : List Aggregate) (layout : TupleLayout) (next : Sink) :
    Emit Unit := do
  let slot ← tupleSlot layout
  let seen ← newCounter
  child (singleRow aggregates layout slot seen)
  let n ← Emit.load .i64 seen
  let zero ← Emit.const .i64 0
  let any ← Emit.compare .ne n zero
  Emit.ifThen any (finishGroup aggregates layout next slot)

variable (produces : host.Produces types db settings child outputs most need)
  (growsChild : ∀ next : Sink, (∀ held, Growing (next held)) → Growing (child next))
  (indicator : host.program.encoding = .indicator) (typed : ∀ aggregate ∈ aggregates, aggregate.Typed types)

include produces growsChild indicator typed

section

variable (grows : ∀ held, Growing (next held)) (database : s.machine.database = db)
  (set : s.machine.settings = settings) (stands : R.Stands host s.size rows left parts s.machine)
  (fits : rows.length + most ≤ R.most) (receives : R.Receives host types s next)

include grows database set stands fits receives

/-- With keys: the groups are gathered in a hash table of their own, handed on, and given up. -/
theorem Host.Produces.group_keyed (short : most < Action.chainLimit) (buckets : powerOfTwoAbove (max 1 settings.buckets) ≤ largestBucketCount)
    (small : (Aggregate.layout aggregates).size ≤ TupleLayout.largestSize)
    (room : s.machine.taken + left + (groupNeed most + need) ≤ scratchSpan) :
    host.Attains (keyedGroups child aggregates (Aggregate.layout aggregates) next) s fun _ s' =>
      ∃ out ins, outputs ins ∧ ins.length ≤ most ∧ Grouped s'.machine.outcome.overflow aggregates ins out ∧
        R.Moves host s.size rows out (left + (groupNeed most + need)) parts s.machine s'.machine := by
  have childGrows (code : Sink) [∀ held, Growing (code held)] : Growing (child code) := growsChild _ inferInstance
  obtain ⟨unit, rounded, bytes, unitSmall⟩ := roundUp_node small
  have cost := Pool.cost_wider unitSmall (Pool.defaultBlock + 8) most
  unfold groupNeed at room ⊢
  obtain ⟨nodes, m1, creates, holds1, taken1, touches1⟩ := @Routine.run_chainCreate s.machine unit most
    (by omega) short (by rw [set]; exact buckets) (by omega)
  refine (callValue .nil creates rfl touches1.program touches1.toLater.keepsTexts).bind ?_
  rintro tableReg s1 before1 ⟨machine1, tableIs⟩
  have tableIs : s1.Reads tableReg .ptr (scratchAddress s.machine.taken) := tableIs
  have homeFresh := s.machine.taken_fresh
  let gathering := Receiver.grouping aggregates s.machine.taken unit (Pool.defaultBlock + 8) most
  have empty : Grouping aggregates [] (groupStore nodes _ s.machine.taken unit (Pool.defaultBlock + 8) most) []
      (Pool.cost unit (Pool.defaultBlock + 8) most) {.memory s.machine.taken} s1.machine :=
    ⟨⟨machine1 ▸ holds1, bytes, .nil⟩, .nil _, nofun, nofun⟩
  have standing : gathering.Stands host s1.size [] (Pool.cost unit (Pool.defaultBlock + 8) most) {.memory s.machine.taken}
      s1.machine := by
    refine ⟨⟨nodes, _, [], empty⟩, ?_, ?_, ?_⟩
    · rw [machine1]
      exact stands.laid.mono touches1.toLater (by omega)
    · exact owns_fresh stands.laid _ homeFresh fun part member => empty.stores.holds.has member
    · rw [machine1]
      omega
  have gathers : gathering.Receives host types s1
      (keyedRow aggregates (Aggregate.layout aggregates) tableReg) :=
    grouping_receives indicator typed rounded small tableIs
  refine (produces gathering _ s1 [] _ _ (fun _ => inferInstance) (by rw [machine1, touches1.database, database])
    (by rw [machine1, touches1.settings, set]) standing (by rw [machine1]; omega) (by simp [gathering, Receiver.grouping])
    gathers).bind ?_
  rintro _ s2 before2 ⟨ins, given, few, touches2, left2, parts2, stands2, inside2, taken2⟩
  obtain ⟨nodes2, table2, slots, grouping⟩ := stands2.holds
  rw [nil_append] at grouping
  rw [machine1] at taken2
  have early2 := before1.trans before2
  obtain ⟨fresh2, filled⟩ := Receiver.Moves.filled (machine1 ▸ touches1) before1.types_size homeFresh touches2 inside2
  have args2 : s2.ReadsAll [tableReg] [(.ptr, scratchAddress s.machine.taken)] := .cons (tableIs.mono before2) .nil
  refine (callValue args2 grouping.stores.holds.run_chainFirst rfl rfl (.refl _)).bind ?_
  rintro first s3 before3 ⟨machine3, firstIs⟩
  have early3 := early2.trans before3
  have touches3 : s.machine.Touches (host.laterSlots s.size) s3.machine := machine3 ▸ filled
  have grouping3 : Grouping aggregates ins _ slots left2 parts2 s3.machine := machine3 ▸ grouping
  have owns3 : host.Owns s3.size s3.machine parts2 :=
    owns_fresh stands.laid _ fresh2 fun part member => grouping3.stores.holds.has member
  have stands3 : R.Stands host s3.size rows left parts s3.machine :=
    stands.frame touches3 stands.owns.away (by rw [machine3]; omega) early3.types_size
  have apart (part : Part) (member : part ∈ parts) : part ∉ parts2 :=
    fun isKept => fresh2 isKept (stands.owns.has part member)
  have fewSlots : slots.length ≤ most := by
    have fewer := grouping.partition.length_le
    rw [length_map] at fewer
    omega
  refine (attains_groupNodes indicator typed R rows left parts grows (receives.mono early3 touches3.toLater) stands3 grouping3
    owns3 (tableIs.mono (before2.trans before3)) apart firstIs (by omega)).bind ?_
  rintro _ s4 before4 ⟨out, grouped, moves⟩
  have grouping4 := grouping3.kept moves.1.toLater (moves.agrees owns3 apart)
  obtain ⟨touches4, left4, own4, stands4, inside4, taken4⟩ := moves
  have args4 : s4.ReadsAll [tableReg] [(.ptr, scratchAddress s.machine.taken)] :=
    .cons (tableIs.mono (before2.trans (before3.trans before4))) .nil
  have freed := grouping4.stores.holds.freed stands4.laid.span
  refine (callEffect args4 grouping4.stores.holds.run_chainFree rfl freed.toLater.keepsTexts).mono
    fun _ s5 _ machine5 => ⟨out, ins, given, few, ?_, ?_⟩
  · rw [machine5]
    exact grouped
  rw [← machine5] at freed
  rw [machine3] at taken4
  have apart4 := apart_of_inside inside4 apart owns3
  have handed : s3.machine.Touches (host.laterSlots s3.size ∪ (parts ∪ parts2)) s4.machine :=
    touches4.mono fun part member => .inl (Set.union_subset_union_right _ Set.subset_union_left member)
  exact .around stands touches3 early3.types_size fresh2 handed stands4 inside4 apart4 freed (by rw [machine5]; rfl) (by omega)

/-- Without keys: the state of the only group stands in a stack slot, and it is handed on if there has been a row. -/
theorem Host.Produces.group_single (keyless : Aggregate.keys aggregates = []) (unused : host.Unused s)
    (room : s.machine.taken + left + need ≤ scratchSpan) :
    host.Attains (singleGroup child aggregates (Aggregate.layout aggregates) next) s fun _ s' =>
      ∃ out ins, outputs ins ∧ ins.length ≤ most ∧ Grouped s'.machine.outcome.overflow aggregates ins out ∧
        R.Moves host s.size rows out (left + need) parts s.machine s'.machine := by
  have childGrows (code : Sink) [∀ held, Growing (code held)] : Growing (child code) := growsChild _ inferInstance
  refine (Host.Attains.stackSlot _).bind ?_
  rintro slot s1 before1 ⟨machine1, slotIs, slotMember, slotLate⟩
  refine (Host.Attains.stackSlot 8).bind ?_
  rintro seen s2 before2 ⟨machine2, seenIs, seenMember, seenLate⟩
  obtain ⟨place, slotIs, seenIs, owns, inSlots⟩ := SinglePlace.exists_of_slots stands.laid before1 before2 slotIs seenIs
    slotMember seenMember slotLate seenLate
  have machine : s2.machine = s.machine := machine2.trans machine1
  have early := before1.trans before2
  have empty : place.Holds [] s2.machine := by
    refine ⟨?_, fun some => absurd rfl some⟩
    rw [machine]
    exact Machine.load_unwritten fun i lower upper => unused i (inSlots (.inr (mem_range.mpr ⟨lower, upper⟩)))
  have standing : (single place most).Stands host s2.size [] 0 place.parts s2.machine := by
    refine ⟨⟨rfl, empty⟩, machine ▸ stands.laid, machine ▸ owns, ?_⟩
    rw [machine]
    exact stands.laid.span
  refine (produces (single place most) _ s2 [] 0 _ (fun _ => inferInstance) (by rw [machine, database])
    (by rw [machine, set]) standing (by rw [machine]; omega) (by simp [Receiver.single])
    (single_receives indicator typed (slotIs.mono before2) keyless seenIs most)).bind ?_
  rintro _ s3 before3 ⟨ins, given, few, touches3, left3, parts3, stands3, _, taken3⟩
  obtain ⟨rfl, holds⟩ := stands3.holds
  rw [nil_append] at holds
  rw [machine] at touches3 taken3
  have touched : s.machine.Touches (host.laterSlots s.size) s3.machine := by
    refine touches3.mono ?_
    rintro part (slot | own)
    · exact .inl (laterSlots_anti early.types_size slot)
    · exact .inl (inSlots own)
  have seenInside := place.seenInside
  refine (Host.Attains.load .i64 (seenIs.mono before3) (Machine.scratchAddress_ne_zero (by omega))).bind ?_
  rintro n s4 before4 ⟨machine4, nIs⟩
  refine (Host.Attains.const .i64 0).bind ?_
  rintro zero s5 before5 ⟨machine5, zeroIs⟩
  refine (Host.Attains.compare .ne (nIs.mono before5) zeroIs).bind ?_
  rintro any s6 before6 ⟨machine6, anyIs⟩
  have later3 := before4.trans (before5.trans before6)
  have machine' : s6.machine = s3.machine := machine6.trans (machine5.trans machine4)
  let post (m : Machine) : Prop := ∃ out ins, outputs ins ∧ ins.length ≤ most ∧ Grouped m.outcome.overflow aggregates ins out ∧
    R.Moves host s.size rows out (left + need) parts s.machine m
  have standing3 : R.Stands host s.size rows left parts s3.machine :=
    stands.frame touched stands.owns.away (by omega) (Nat.le_refl _)
  have wide : s.machine.Touches (host.laterSlots s.size ∪ parts) s3.machine := touched.mono fun part slot => .inl (.inl slot)
  refine Host.Attains.ifThen post anyIs (fun isSet s7 before7 machine7 => ?_) fun isUnset => ?_
  · have some : ins ≠ [] := by
      intro none
      have flag := holds.flag
      rw [if_pos none] at flag
      exact of_decide_eq_true isSet flag
    obtain ⟨state, current⟩ := holds.state some
    have quiet : s3.machine.Quiet s7.machine := .of_eq (machine7.trans machine')
    have far := later3.trans before7
    have whole := early.trans (before3.trans far)
    have positive := length_pos_iff.mpr some
    have sizes : s.size ≤ s7.size := whole.types_size
    have stands7 : R.Stands host s7.size rows left parts s7.machine := standing3.quiet quiet sizes
    have current7 : StateAt aggregates ins place.state state s7.machine := by
      rw [machine7, machine']
      exact current
    refine (attains_finishGroup indicator typed R rows left parts grows
      (receives.mono whole (touched.toLater.trans quiet.toLater)) stands7
      (slotIs.mono (before2.trans (before3.trans far))) current7 some place.stateInside (by omega)).mono ?_
    rintro _ s8 _ ⟨row, describes, moves⟩
    refine ⟨[row], ins, given, few, .single keyless some describes, ?_⟩
    have second : R.Moves host s.size (rows ++ []) [row] (left + 0) parts s3.machine s8.machine := by
      rw [append_nil]
      exact moves.after standing3 quiet sizes
    have both : R.Moves host s.size rows ([] ++ [row]) (left + need + 0) parts s.machine s8.machine :=
      .trans wide (fun part member => .inl member) (by omega) second
    exact both
  · have none : ins = [] := by
      by_contra some
      have flag := holds.flag
      rw [if_neg some] at flag
      have zero : s3.machine.load 8 (scratchAddress place.seen) = 0 := of_decide_eq_false isUnset |> Decidable.not_not.mp
      rw [flag] at zero
      exact absurd zero (by decide)
    subst none
    refine ⟨[], [], given, few, ⟨[], .nil _, .nil⟩, ?_⟩
    rw [machine']
    refine ⟨wide, left, parts, by rwa [append_nil], fun part member => .inl member, by omega⟩

end

/-- A grouping hands on one row for every group. -/
theorem Host.Produces.group (short : most < Action.chainLimit) (buckets : powerOfTwoAbove (max 1 settings.buckets) ≤ largestBucketCount) :
    host.ProducesFirst types db settings (groupRows child aggregates)
      (fun reported out => ∃ ins, outputs ins ∧ Grouped reported aggregates ins out) most (groupNeed most + need) := by
  intro R next s rows left parts grows database set unused stands room fits receives
  have childGrows (code : Sink) [∀ held, Growing (code held)] : Growing (child code) := growsChild _ inferInstance
  refine (attains_tupleLayout (Aggregate.stateTypes aggregates)).bind fun result s1 before1 ⟨machine1, made, small, _⟩ => ?_
  obtain ⟨_, layout⟩ := result
  dsimp only at made small ⊢
  rw [indicator] at made
  subst made
  have quiet : s.machine.Quiet s1.machine := .of_eq machine1
  have stands1 := stands.quiet quiet before1.types_size
  have receives1 := receives.mono before1 quiet.toLater
  have fewer {m : Machine} {out ins : List ValueRow} (few : ins.length ≤ most)
      (grouped : Grouped m.outcome.overflow aggregates ins out) : out.length ≤ most := Nat.le_trans grouped.length_le few
  split
  next keyless =>
    have unused1 : host.Unused s1 := by
      intro offset member
      rw [machine1]
      exact unused offset (laterSlots_anti before1.types_size member)
    refine (produces.group_single growsChild indicator typed grows (by rw [machine1, database]) (by rw [machine1, set]) stands1
      fits receives1 (isEmpty_iff.mp keyless) unused1 (by rw [machine1]; omega)).mono
      fun _ s' _ ⟨out, ins, given, few, grouped, moves⟩ => ⟨out, ⟨ins, given, grouped⟩, fewer few grouped, ?_⟩
    obtain ⟨touches, left', parts', stands', inside, taken⟩ := moves.after stands quiet before1.types_size
    exact ⟨touches, left', parts', stands', inside, by omega⟩
  · refine (produces.group_keyed growsChild indicator typed grows (by rw [machine1, database]) (by rw [machine1, set]) stands1
      fits receives1 short buckets small (by rw [machine1]; omega)).mono
      fun _ s' _ ⟨out, ins, given, few, grouped, moves⟩ => ⟨out, ⟨ins, given, grouped⟩, fewer few grouped, ?_⟩
    exact moves.after stands quiet before1.types_size

end QueryEngine
