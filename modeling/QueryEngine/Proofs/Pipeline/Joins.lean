import QueryEngine.Proofs.Pipeline.Results
import QueryEngine.Proofs.Tuple.Stores

namespace QueryEngine

open List Scalar
open TupleLayout hiding size types

open Machine (scratchAddress scratchSpan)

open Emit Host.Attains ValueRow Option

variable {types : Nat → Shape} {held : HeldRow} {row : ValueRow} {carried : List Attribute}
  {home unit block most : Nat} {tuples : List (List Datum × List Datum)} {buckets : Array Word} {host : Host}
  {parts : Set Part} {m m' : Machine} {entries : List (Entry Nat)} {s : Point}

/-- What is stored of a row: the values of its keys, and those that are handed on. -/
def ValueRow.tuple? (keys : List Scalar) (carried : List Attribute) (row : ValueRow) : Option (List Datum × List Datum) := do
  let values ← keys.mapM fun key => key.value? row
  let handed ← row.selected? carried
  some (values, handed)

section

variable {keys : List Scalar}

theorem Scalar.gives_shapes (typed : ∀ key ∈ keys, key.Typed types) (row : HeldRow.Typed types held) :
    Gives (keys.mapM (emit held)) fun hs => List.Forall₂ (fun h key => h.ty.shape = key.ty.shape) hs keys :=
  .mapM fun key member => gives_shape (typed key member) row

end

/-- What a receiver changes lies in its own parts, or in memory that nobody had. -/
theorem Receiver.Stands.advance {R : Receiver} {low left left' : Nat} {rows more : List ValueRow}
    {parts' : Set Part} (stands : R.Stands host low rows left parts m) (holds : R.Holds (rows ++ more) left' parts' m')
    (touches : m.Touches parts m') (inside : parts' ⊆ parts ∪ m.fresh) (has : ∀ part ∈ parts', m'.Has part)
    (budget : m'.taken + left' ≤ m.taken + left) : R.Moves host low rows more left parts m m' := by
  have room := stands.room
  refine ⟨touches.mono fun part member => .inl (.inr member), left', parts', ⟨holds, ?_, ?_, ?_⟩, inside, budget⟩
  · exact stands.laid.mono touches.toLater (by omega)
  · exact stands.owns.of_fresh stands.laid inside has
  · omega

theorem TupleLayout.size_word {layout : TupleLayout} (small : layout.size ≤ largestSize) :
    CodeType.i64.fits layout.size = true ∧ (Word.ofInt layout.size).toNat = layout.size := by
  have largest : largestSize = 2 ^ 20 := rfl
  have fits : CodeType.i64.fits layout.size = true := fits_of_le (by omega)
  exact ⟨fits, CodeType.toNat_ofInt fits⟩

/-- Receives rows into a list of nodes. -/
def Receiver.building (store : NodeStore) (tupleTypes : List ValueType) (keys : List Scalar) (carried : List Attribute) :
    Receiver where
  most := store.most
  Holds := fun rows left parts m => ∃ entries tuples,
    store.Stores tupleTypes entries (tuples.map fun tuple => tuple.1 ++ tuple.2) left parts m ∧
    rows.mapM (ValueRow.tuple? keys carried) = some tuples ∧
    List.Forall₂ (fun entry tuple => entry.hash = hashCode tuple.1) entries tuples
  keeps := by
    rintro rows left parts m m' ⟨entries, tuples, stores, given, hashes⟩ later agrees
    exact ⟨entries, tuples, stores.kept later agrees, given, hashes⟩

variable {tupleTypes : List ValueType}

/-- What is there stays as it is where nothing changes but what is reported. -/
theorem NodeStore.Stores.quiet {store : NodeStore} {tuples : List (List Datum)}
    {left : Nat} (stores : store.Stores tupleTypes entries tuples left parts m) (quiet : m.Quiet m') :
    store.Stores tupleTypes entries tuples left parts m' :=
  stores.kept quiet.toLater fun part member => quiet.keeps part (stores.holds.has member) fun nothing => nothing

section

variable {keys : List Scalar}

/-- The types of what is stored of a row. -/
abbrev storedTypes (keys : List Scalar) (carried : List Attribute) : List ValueType :=
  keys.map Scalar.ty ++ carried.map Attribute.ty

theorem Receiver.building_receives {s0 : Point} {list : Reg} (indicator : host.program.encoding = .indicator)
    (rounded : Pool.roundUp? (nodeHeader + (make .indicator (storedTypes keys carried)).size) = some unit)
    (small : (make .indicator (storedTypes keys carried)).size ≤ largestSize)
    (keysTyped : ∀ key ∈ keys, key.Typed types) (carriedTyped : ∀ a ∈ carried, a.Typed types)
    (listIs : s0.Reads list .ptr (scratchAddress home)) :
    (Receiver.building ⟨.list, home, unit, block, most⟩ (storedTypes keys carried) keys carried).Receives host types s0
      (buildRow list (.make .indicator (storedTypes keys carried)) keys carried) := by
  intro held row rows left parts s before later is rowTyped few stands
  obtain ⟨entries, tuples, stores, given, hashes⟩ := stands.holds
  refine ((attains_all is).with_gives (gives_shapes keysTyped rowTyped)).bind
    fun values s1 before1 ⟨⟨ds, evaluated, quiet1, are⟩, shapes⟩ => ?_
  refine (Held.attains_hashTuple are).bind fun hash s2 before2 ⟨machine2, hashIs⟩ => ?_
  refine (((is.mono (before1.trans before2)).attains_values carried).with_gives (rowTyped.gives_values carriedTyped)).bind
    fun handedValues s3 _ ⟨⟨handed, point, selected, areHanded⟩, shapesHanded⟩ => ?_
  subst point
  obtain ⟨fits, size⟩ := size_word small
  refine (constNumber fits).bind fun sizeReg s4 before4 ⟨machine4, sizeIs⟩ => ?_
  have quiet : s.machine.Quiet s4.machine := quiet1.trans (.of_eq (machine4.trans machine2))
  have early := before1.trans (before2.trans before4)
  have stores4 := stores.quiet quiet
  have stands4 := stands.quiet quiet early.types_size
  have count : entries.length = rows.length := by
    have one := hashes.length_eq
    have two := (mapM_eq_some_iff.mp given).length_eq
    omega
  obtain ⟨place, left', parts', m, runs, gains⟩ :=
    stores4.holds.append (by rw [size]; exact rounded) (by rw [count]; exact few) (hashCode ds) stands4.room
  have args : s4.ReadsAll [list, hash, sizeReg] [(.ptr, scratchAddress home), (.i64, hashCode ds),
      (.i64, Word.ofInt (make .indicator (storedTypes keys carried)).size)] :=
    .cons (listIs.mono (before.trans early)) (.cons (hashIs.mono before4) (.cons sizeIs.reads .nil))
  refine (callValue args runs rfl gains.touches.program gains.touches.toLater.keepsTexts).bind
    fun payload s5 before5 ⟨machine5, payloadIs⟩ => ?_
  have payloadIs : s5.Reads payload .ptr (scratchAddress (place + nodeHeader)) := payloadIs
  have all : Held.All s5 (values ++ handedValues) (ds ++ handed) :=
    rel_append (are.imp fun _ _ is => is.mono (before2.trans (before4.trans before5)))
      (areHanded.imp fun _ _ is => is.mono (before4.trans before5))
  have shaped : Held.Shaped (values ++ handedValues) (storedTypes keys carried) :=
    rel_append (Held.shaped_map.mpr shapes) (Held.shaped_map.mpr shapesHanded)
  have bytes := Pool.le_of_roundUp rounded
  have inside := gains.payload_inside
  have limit : m.taken ≤ scratchSpan := gains.limit stands4.room
  dsimp only at inside
  refine (Held.attains_storeTuple indicator payloadIs all shaped (by omega)).mono fun _ s6 _ ⟨writes, lies⟩ => ?_
  rw [machine5] at writes
  obtain ⟨stored, touched, budget⟩ := stores4.gained gains limit (.refl m) writes lies
  refine (stands4.advance ⟨Entry.appended entries (hashCode ds) place, tuples ++ [(ds, handed)], ?_, ?_,
    rel_append hashes (.cons rfl .nil)⟩ touched gains.inside (fun part member => stored.holds.has member)
    (Nat.le_of_eq budget)).after stands quiet early.types_size
  · rw [map_append]
    exact stored
  · rw [mapM_append, given]
    simp [tuple?, evaluated, selected]

end

/-- The row with values of another one in front. -/
def ValueRow.joined (carried : List Attribute) (handed : List Datum) (row : ValueRow) : ValueRow :=
  (carried.zip handed).reverse ++ row

/-- The row with those of every stored row whose keys are equal, in their order. -/
def ValueRow.matches? (keys : List Scalar) (carried : List Attribute) (tuples : List (List Datum × List Datum))
    (row : ValueRow) : Option (List ValueRow) := do
  let values ← keys.mapM fun key => key.value? row
  let found ← tuples.mapM fun tuple => do
    let equal ← allEqual? tuple.1 values
    some (if equal then [row.joined carried tuple.2] else [])
  some found.flatten

theorem ValueRow.length_matches? {keys : List Scalar} (given : row.matches? keys carried tuples = some out) :
    out.length ≤ tuples.length := by
  obtain ⟨_, _, given⟩ := bind_eq_some_iff.mp given
  obtain ⟨_, compared, ⟨⟩⟩ := bind_eq_some_iff.mp given
  rw [← Nat.mul_one tuples.length]
  refine length_flatten_le compared fun tuple out here => ?_
  obtain ⟨equal, _, ⟨⟩⟩ := bind_eq_some_iff.mp here
  cases equal <;> simp

/-- What is handed on for one stored row. -/
def ValueRow.piece (carried : List Attribute) (values : List Datum) (row : ValueRow) (tuple : List Datum × List Datum) :
    List ValueRow :=
  if Datum.Alike tuple.1 values then [row.joined carried tuple.2] else []

theorem ValueRow.matches?_eq {keys : List Scalar} (evaluated : keys.mapM (fun key => key.value? row) = some values)
    (compared : ∀ tuple ∈ tuples, allEqual? tuple.1 values = some (decide (Datum.Alike tuple.1 values))) :
    row.matches? keys carried tuples = some (tuples.flatMap (row.piece carried values)) := by
  have each : tuples.mapM (fun tuple => do
      let equal ← allEqual? tuple.1 values
      some (if equal then [row.joined carried tuple.2] else [])) = some (tuples.map (row.piece carried values)) := by
    refine mapM_eq_some_iff.mpr (forall₂_map_right_iff.mpr (forall₂_same.mpr fun tuple member => ?_))
    simp only [compared tuple member, bind_eq_bind, bind_some, decide_eq_true_eq]
    rfl
  rw [matches?, evaluated, bind_eq_bind, bind_some, each]
  rfl

theorem ValueRow.length_flatMap_piece (carried : List Attribute) (values : List Datum) (row : ValueRow) (items : List α)
    (tupleOf : α → List Datum × List Datum) :
    (items.flatMap fun item => row.piece carried values (tupleOf item)).length ≤ items.length := by
  induction items with
  | nil => exact Nat.le_refl _
  | cons item items ih =>
    have single : (row.piece carried values (tupleOf item)).length ≤ 1 := by
      unfold piece
      split <;> simp
    rw [flatMap_cons, length_append, length_cons]
    omega

/-- Stored rows under another hash code do not count. -/
theorem ValueRow.flatMap_piece {values : List Datum}
    (hashes : List.Forall₂ (fun entry tuple => entry.hash = hashCode tuple.1) entries tuples) :
    ((entries.zip tuples).filter fun item => item.1.hash = hashCode values).flatMap
        (fun item => row.piece carried values item.2) = tuples.flatMap (row.piece carried values) := by
  induction hashes with
  | nil => rfl
  | @cons entry tuple entries tuples here _ ih =>
    rw [zip_cons_cons, flatMap_cons, ← ih]
    by_cases same : entry.hash = hashCode values
    · rw [filter_cons_of_pos (by simpa using same), flatMap_cons]
    · have different : ¬Datum.Alike tuple.1 values := fun alike => same (by rw [here, alike.1])
      rw [filter_cons_of_neg (by simpa using same), piece, if_neg different, nil_append]

variable {values : List Held} {tuple : List Datum × List Datum} {next : Sink}

section

variable {attributes : List Attribute} {keys : List Held}

theorem HeldRow.Is.zip (are : Held.All s values ds) : HeldRow.Is s (attributes.zip values) (attributes.zip ds) := by
  induction are generalizing attributes with
  | nil => simp only [zip_nil_right]; exact .nil
  | cons is _ ih => cases attributes with
    | nil => exact .nil
    | cons a attributes => exact .cons ⟨rfl, is⟩ ih

theorem HeldRow.Typed.zip (each : ∀ a ∈ attributes, a.Typed types)
    (shapes : Held.Shaped values (attributes.map Attribute.ty)) : HeldRow.Typed types (attributes.zip values) := by
  rw [Held.shaped_map] at shapes
  rintro ⟨a, h⟩ member
  obtain ⟨_, all⟩ := forall₂_iff_zip.mp shapes.flip
  exact (all member).trans (each a (of_mem_zip member).1)

/-- Code that is run just when the values are equal. -/
theorem attains_whenEqual [Growing code] (post : Machine → Prop) (left : Held.All s stored xs) (right : Held.All s keys ys)
    (lengths : stored.length = keys.length)
    (run : Datum.Alike xs ys → ∀ s', s.Before s' → s'.machine = s.machine → host.Attains code s' fun _ s'' => post s''.machine)
    (skip : ¬Datum.Alike xs ys → post s.machine) :
    host.Attains (whenEqual code stored keys) s fun _ s' => post s'.machine := by
  induction stored generalizing s keys xs ys with
  | nil =>
    cases left
    cases right with
    | nil => exact run ⟨rfl, nofun⟩ s (.refl s) rfl
    | cons => cases lengths
  | cons a stored ih =>
    obtain ⟨x, xs, aIs, others, rfl⟩ := forall₂_cons_left_iff.mp left
    cases right with
    | nil => cases lengths
    | @cons b y keys ys bIs others' =>
      refine (aIs.compareEqual bIs).bind ?_
      rintro result s1 before1 ⟨machine1, d, resultIs, same⟩
      refine resultIs.isTrue.bind ?_
      rintro equal s2 before2 ⟨machine2, equalIs⟩
      refine .ifThen post equalIs (fun isTrue s3 before3 machine3 => ?_) fun isFalse => ?_
      · have before := before1.trans (before2.trans before3)
        have machine : s3.machine = s.machine := by rw [machine3, machine2, machine1]
        have here := same.mp (of_decide_eq_true isTrue)
        refine ih (others.imp fun _ _ is => is.mono before) (others'.imp fun _ _ is => is.mono before)
          (Nat.succ.inj lengths) (fun alike s4 before4 machine4 => ?_) fun different => ?_
        · exact run (Datum.alike_cons.mpr ⟨here, alike⟩) s4 (before.trans before4) (machine4.trans machine)
        · rw [machine]
          exact skip fun alike => different (Datum.alike_cons.mp alike).2
      · rw [machine2, machine1]
        exact skip fun alike => of_decide_eq_false isFalse (same.mpr (Datum.alike_cons.mp alike).1)

instance [∀ held, Growing (next held)] : Growing (probeNode table h layout keys carried next held node) := by
  infer_instance

theorem gives_whenEqual (lengths : stored.length = keys.length) :
    Gives (whenEqual code stored keys) fun _ => List.Forall₂ (fun a b => a.ty.Comparable b.ty) stored keys := by
  induction stored generalizing keys with
  | nil =>
    cases keys with
    | nil => exact fun _ _ _ _ => .nil
    | cons => cases lengths
  | cons a stored ih =>
    cases keys with
    | nil => cases lengths
    | cons b keys =>
      refine (Held.gives_comparable .equal a b).bind fun _ here => .after fun equal => .ifThen ?_
      exact fun c x c' emitted => .cons here (ih (Nat.succ.inj lengths) c x c' emitted)

variable {first : List ValueType} {keys : List Scalar}

/-- The code of a probe is emitted only where the keys may be compared with what is stored. -/
theorem gives_probeRow (table : Reg) (typed : ∀ key ∈ keys, key.Typed types) (rowTyped : HeldRow.Typed types held)
    (count : first.length = keys.length) :
    Gives (probeRow table (.make .indicator (first ++ carried.map Attribute.ty)) keys carried next held) fun _ =>
      List.Forall₂ ValueType.Comparable first (keys.map ty) := by
  refine (gives_shapes typed rowTyped).bind fun values shapes => .after fun hash => .after fun start => ?_
  refine .forNodes fun node => .after fun payload => ?_
  refine (Held.gives_loadShapes _ payload).bind fun stored storedShapes => ?_
  have taken := forall₂_take values.length storedShapes
  have number : first.length = values.length := by rw [shapes.length_eq, count]
  rw [take_left' number] at taken
  refine (gives_whenEqual (by rw [taken.length_eq, number])).bind fun _ comparable _ _ _ _ => ?_
  rw [forall₂_map_right_iff]
  refine forall₂_iff_get.mpr ⟨count, fun i bound bound' => ?_⟩
  obtain ⟨_, eachStored⟩ := forall₂_iff_get.mp taken
  obtain ⟨_, eachKey⟩ := forall₂_iff_get.mp shapes
  obtain ⟨same, each⟩ := forall₂_iff_get.mp comparable
  refine (each i (by omega) (by omega)).congr ?_ ?_
  · exact (eachStored i (by omega) bound).symm
  · exact (eachKey i (by omega) bound').symm

variable {table : ChainTable Nat} {left0 : Nat} {parts0 : Set Part} {tableReg : Reg}

/-- What is kept while rows of the right input go by. -/
abbrev builtStore (buckets : Array Word) (table : ChainTable Nat) (home unit block most : Nat) : NodeStore :=
  ⟨.built buckets table, home, unit, block, most⟩

variable (indicator : host.program.encoding = .indicator) (carriedTyped : ∀ a ∈ carried, a.Typed types)
  (stores : (builtStore buckets table home unit block most).Stores (first ++ carried.map Attribute.ty) entries (tuples.map fun tuple => tuple.1 ++ tuple.2) left0 parts0 s.machine)
  (owns : host.Owns s.size s.machine parts0) (tableIs : s.Reads tableReg .ptr (scratchAddress home)) (R : Receiver)
  (rows : List ValueRow) (left : Nat) (own : Set Part) (grows : ∀ held, Growing (next held))
  (receives : R.Receives host types s next) (is : HeldRow.Is s held row) (typed : HeldRow.Typed types held)
  (apart : ∀ part ∈ own, part ∉ parts0) (stands : R.Stands host s.size rows left own s.machine)

include indicator carriedTyped stores owns tableIs grows receives is typed apart stands

/-- One stored row is compared with a row of the right input. -/
theorem probeNode_step {entry : Entry Nat} {node hash : Reg} {ys : List Datum} (member : (entry, tuple) ∈ entries.zip tuples)
    (length : tuple.1.length = values.length) (count : first.length = values.length)
    (nodeIs : s.Reads node .ptr entry.address) (hashIs : s.Reads hash .i64 (hashCode ys)) (are : Held.All s values ys)
    (enough : rows.length < R.most) :
    host.Attains (probeNode tableReg hash (.make .indicator (first ++ carried.map Attribute.ty)) values carried next held
      node) s fun following s' =>
        s'.Reads following .ptr (nodeAddress (table.nextSameHash? entry (hashCode ys))) ∧
        R.Moves host s.size rows (row.piece carried ys tuple) left own s.machine s'.machine := by
  have isStored : (entry, tuple.1 ++ tuple.2) ∈ entries.zip (tuples.map fun tuple => tuple.1 ++ tuple.2) := by
    rw [zip_map_right]
    exact mem_map.mpr ⟨(entry, tuple), member, rfl⟩
  refine (Entry.attains_nodePayload nodeIs).bind fun payload s1 before1 ⟨machine1, payloadIs⟩ => ?_
  refine ((machine1 ▸ stores : (builtStore buckets table home unit block most).Stores _ _ _ _ _ s1.machine).attains_load
    indicator (by rw [machine1]; exact stands.laid.span) isStored payloadIs).bind
    fun stored s2 before2 ⟨machine2, storedAre, shapes⟩ => ?_
  have before := before1.trans before2
  have machine : s2.machine = s.machine := machine2.trans machine1
  -- The values of the keys come first, and then those that are handed on.
  have keyValues := forall₂_take values.length storedAre
  have handedValues := forall₂_drop values.length storedAre
  have handedShapes := forall₂_drop values.length shapes
  rw [take_left' length] at keyValues
  rw [drop_left' length] at handedValues
  rw [drop_left' count] at handedShapes
  have joinedIs : HeldRow.Is s2 ((carried.zip (stored.drop values.length)).reverse ++ held) (row.joined carried tuple.2) :=
    rel_append (forall₂_reverse_iff.mpr (HeldRow.Is.zip handedValues)) (is.mono before)
  have joinedTyped : HeldRow.Typed types ((carried.zip (stored.drop values.length)).reverse ++ held) := by
    intro item inside
    rcases mem_append.mp inside with new | old
    · exact HeldRow.Typed.zip carriedTyped handedShapes item (mem_reverse.mp new)
    · exact typed item old
  have compared : host.Attains (whenEqual (next ((carried.zip (stored.drop values.length)).reverse ++ held))
      (stored.take values.length) values) s2 fun _ s' =>
        R.Moves host s.size rows (row.piece carried ys tuple) left own s.machine s'.machine := by
    refine attains_whenEqual (fun m => R.Moves host s.size rows (row.piece carried ys tuple) left own s.machine m) keyValues
      (are.imp fun _ _ is => is.mono before) ?_ (fun alike s3 before3 machine3 => ?_) fun different => ?_
    · rw [keyValues.length_eq, length]
    · have early := before.trans before3
      have quiet : s.machine.Quiet s3.machine := .of_eq (machine3.trans machine)
      rw [piece, if_pos alike]
      refine (receives _ (row.joined carried tuple.2) rows left own s3 early quiet.toLater (joinedIs.mono before3) joinedTyped
        enough (stands.quiet quiet early.types_size)).mono fun _ s4 _ moves => ?_
      exact moves.after stands quiet early.types_size
    · rw [piece, if_neg different, machine]
      exact stands.moves
  refine compared.bind fun _ s3 before3 moves => ?_
  have after := before.trans before3
  have runs := (stores.kept moves.1.toLater (moves.agrees owns apart)).holds.run_joinNextSameHash
    (of_mem_zip member).1 (hashCode ys)
  have args : s3.ReadsAll [tableReg, node, hash] [(.ptr, scratchAddress home), (.ptr, entry.address),
      (.i64, hashCode ys)] := .cons (tableIs.mono after) (.cons (nodeIs.mono after) (.cons (hashIs.mono after) .nil))
  refine (callValue args runs rfl rfl (.refl _)).mono fun following s4 _ ⟨machine4, followingIs⟩ => ⟨followingIs, ?_⟩
  rw [machine4]
  exact moves

/-- A row of the right input is handed on with each stored row that has equal keys, in the order in which they were stored. -/
theorem probeRow_step (walks : ∀ hash, table.walk hash = entries.filter fun entry => entry.hash = hash)
    (hashes : List.Forall₂ (fun entry tuple => entry.hash = hashCode tuple.1) entries tuples)
    (lengths : ∀ tuple ∈ tuples, tuple.1.length = first.length) (count : first.length = keys.length)
    (keysTyped : ∀ key ∈ keys, key.Typed types) (enough : rows.length + tuples.length ≤ R.most) :
    host.Attains (probeRow tableReg (.make .indicator (first ++ carried.map Attribute.ty)) keys carried next held) s
      fun _ s' => ∃ out, row.matches? keys carried tuples = some out ∧
        R.Moves host s.size rows out left own s.machine s'.machine := by
  suffices attains : _ → host.Attains _ s _ from fun x b emitted =>
    attains (gives_probeRow tableReg keysTyped typed count _ x b emitted) x b emitted
  intro comparable
  refine ((attains_all is).with_gives (gives_shapes keysTyped typed)).bind
    fun values s1 before1 ⟨⟨ys, evaluated, quiet1, are⟩, shapes⟩ => ?_
  refine (Held.attains_hashTuple are).bind fun hash s2 before2 ⟨machine2, hashIs⟩ => ?_
  have quiet2 : s.machine.Quiet s2.machine := quiet1.trans (.of_eq machine2)
  have stores2 := stores.quiet quiet2
  have args : s2.ReadsAll [tableReg, hash] [(.ptr, scratchAddress home), (.i64, hashCode ys)] :=
    .cons (tableIs.mono (before1.trans before2)) (.cons hashIs .nil)
  refine (callValue args (stores2.holds.run_joinLookup (hashCode ys)) rfl rfl (.refl _)).bind
    fun start s3 before3 ⟨machine3, startIs⟩ => ?_
  have early := before1.trans (before2.trans before3)
  have quiet : s.machine.Quiet s3.machine := quiet2.trans (.of_eq machine3)
  have stores3 := stores.quiet quiet
  have stands3 := stands.quiet quiet early.types_size
  have owns3 := owns.mono quiet.toLater early.types_size
  have number : first.length = values.length := by rw [shapes.length_eq, count]
  let items := (entries.zip tuples).filter fun item => item.1.hash = hashCode ys
  have fewer : items.length ≤ tuples.length := by
    have zipped : (entries.zip tuples).length ≤ tuples.length := by simp
    exact Nat.le_trans (length_filter_le _ _) zipped
  obtain ⟨_, _, tableHolds, _⟩ := stores3.holds.built_table
  have visits : Visits (fun entry => table.nextSameHash? entry (hashCode ys)) (table.lookup? (hashCode ys))
      (items.map Prod.fst) := by
    have walked := tableHolds.visits_walk stores3.holds.nodup (hashCode ys)
    have same : (entries.zip tuples).map Prod.fst = entries := map_fst_zip (Nat.le_of_eq hashes.length_eq)
    rwa [walks, ← same, List.filter_map] at walked
  have placed (item : Entry Nat × (List Datum × List Datum)) (member : item ∈ items) : item.1.address ≠ 0 := by
    have among := (of_mem_zip (mem_filter.mp member).1).1
    have inside := (stores3.holds.node among).2
    have header := stores3.holds.header
    have span := stands3.laid.span
    refine Machine.scratchAddress_ne_zero ?_
    unfold nodeHeader at header
    omega
  let inv (rest : List (Entry Nat × (List Datum × List Datum))) (m : Machine) : Prop := ∃ done, items = done ++ rest ∧
    R.Moves host s3.size rows (done.flatMap fun item => row.piece carried ys item.2) left own s3.machine m
  refine (Host.Attains.forNodes Prod.fst inv visits placed startIs ⟨[], rfl, stands3.moves⟩ ?_).mono
    fun _ s4 _ ⟨done, whole, moves⟩ => ?_
  · rintro ⟨entry, tuple⟩ rest node s' before member nodeIs ⟨done, split, moved⟩
    have stores' := stores3.kept moved.1.toLater (moved.agrees owns3 apart)
    obtain ⟨touches, left', own', stands', inside, taken⟩ := moved
    have later := touches.toLater
    have wide := before.types_size
    have apart' := Receiver.apart_of_inside inside apart owns3
    have room : (rows ++ done.flatMap fun item => row.piece carried ys item.2).length < R.most := by
      have pieces := length_flatMap_piece carried ys row done Prod.snd
      have total : items.length = done.length + (rest.length + 1) := by rw [split, length_append, length_cons]
      rw [length_append]
      omega
    have inZip := (mem_filter.mp member).1
    refine (probeNode_step indicator carriedTyped stores' (owns3.mono later wide) (tableIs.mono (early.trans before)) R _ left'
      own' grows (receives.mono (early.trans before) (quiet.toLater.trans later)) (is.mono (early.trans before)) typed apart'
      (stands'.quiet (.refl _) wide) inZip (by rw [lengths tuple (of_mem_zip inZip).2, number]) number nodeIs
      (hashIs.mono (before3.trans before)) (are.imp fun _ _ is => is.mono (before2.trans (before3.trans before))) room).mono
      fun following s'' _ ⟨followingIs, moves⟩ => ⟨followingIs, ?_⟩
    refine ⟨done ++ [(entry, tuple)], by rw [split, append_assoc, singleton_append], ?_⟩
    rw [flatMap_append, flatMap_singleton]
    exact .extend touches inside taken stands' wide moves
  · rw [append_nil] at whole
    have compared (tuple : List Datum × List Datum) (member : tuple ∈ tuples) :
        allEqual? tuple.1 ys = some (decide (Datum.Alike tuple.1 ys)) := by
      have fits := stores3.fits (mem_map_of_mem member)
      have keyFits := forall₂_take first.length fits
      rw [take_left' (lengths tuple member), take_left' rfl] at keyFits
      refine allEqual?_eq keyFits ?_ comparable
      rw [forall₂_map_right_iff]
      refine forall₂_iff_get.mpr ⟨by rw [← are.length_eq, shapes.length_eq], fun i bound bound' => ?_⟩
      have same := are.length_eq
      have here := (forall₂_iff_get.mp are).2 i (by omega) bound
      exact (forall₂_iff_get.mp shapes).2 i (by omega) bound' ▸ here.fits
    refine ⟨_, matches?_eq evaluated compared, ?_⟩
    rw [← flatMap_piece hashes]
    change R.Moves host s.size rows (items.flatMap _) left own s.machine s4.machine
    rw [whole]
    exact moves.after stands quiet early.types_size

end

instance {keys : List Scalar} [∀ held, Growing (next held)] : Growing (probeRow table layout keys carried next held) := by
  unfold probeRow
  infer_instance

/-- The bytes of the largest node there is. -/
def largestNode : Nat := nodeHeader + TupleLayout.largestSize + 8

/-- What a join may take for its left input. -/
def joinNeed (settings : Settings) (most : Nat) : Nat := Pool.cost largestNode (max settings.poolBlock 8 + 8) most + 16

theorem roundUp_node (small : size ≤ TupleLayout.largestSize) :
    ∃ unit, Pool.roundUp? (nodeHeader + size) = some unit ∧ nodeHeader + size ≤ unit ∧ unit ≤ largestNode := by
  have header : nodeHeader = 24 := rfl
  have largest : TupleLayout.largestSize = 2 ^ 20 := rfl
  have limit : Pool.sizeLimit = 2 ^ 64 := rfl
  refine ⟨(nodeHeader + size + 7) / 8 * 8, if_pos (by omega), by omega, ?_⟩
  unfold largestNode
  omega

/-- What is taken next is fresh. -/
theorem Machine.taken_fresh (m : Machine) : {.memory m.taken} ⊆ m.fresh := by
  rintro _ rfl has
  exact Nat.lt_irrefl _ has

/-- Fresh parts belong to no slot. -/
theorem Host.owns_fresh (laid : host.Laid m) (low : Nat)
    (inside : parts ⊆ m.fresh) (has : ∀ part ∈ parts, m'.Has part) : host.Owns low m' parts where
  has := has
  away := fun _ member slot => inside member (laid.has slot)

section

variable {db : Database} {settings : Settings} {left right : Sink → Emit Unit}
  {outputsLeft outputsRight : List ValueRow → Prop} {mostLeft needLeft mostRight needRight : Nat}
  {keys : List (Scalar × Scalar)}

/-- The rows of the left input stand in a hash table over their keys, in memory that was not in use before. -/
structure Built (host : Host) (keys : List Scalar) (carried : List Attribute) (lefts : List ValueRow) (s : Point)
    (buckets : Array Word) (table : ChainTable Nat) (home unit block most : Nat) (entries : List (Entry Nat))
    (tuples : List (List Datum × List Datum)) (left : Nat) (parts : Set Part) (reg : Reg) (s' : Point) : Prop where
  stores : (builtStore buckets table home unit block most).Stores (storedTypes keys carried) entries
    (tuples.map fun tuple => tuple.1 ++ tuple.2) left parts s'.machine
  given : lefts.mapM (ValueRow.tuple? keys carried) = some tuples
  few : lefts.length ≤ most
  walks : ∀ hash, table.walk hash = entries.filter fun entry => entry.hash = hash
  hashes : List.Forall₂ (fun entry tuple => entry.hash = hashCode tuple.1) entries tuples
  fresh : parts ⊆ s.machine.fresh
  touches : s.machine.Touches (host.laterSlots s.size) s'.machine
  reads : s'.Reads reg .ptr (scratchAddress home)
  before : s.Before s'

namespace Built

variable {keys : List Scalar} {lefts : List ValueRow} {s' : Point} {table : ChainTable Nat} {left : Nat} {reg : Reg}

variable (built : Built host keys carried lefts s buckets table home unit block most entries tuples left parts reg s')

include built

theorem few_tuples :
    tuples.length ≤ most := by
  rw [← (mapM_eq_some_iff.mp built.given).length_eq]
  exact built.few

theorem lengths (member : tuple ∈ tuples) : tuple.1.length = (keys.map ty).length := by
  obtain ⟨i, bound, rfl⟩ := getElem_of_mem member
  obtain ⟨count, each⟩ := forall₂_iff_get.mp (mapM_eq_some_iff.mp built.given)
  obtain ⟨values, evaluated, given⟩ := bind_eq_some_iff.mp (each i (by omega) bound)
  obtain ⟨handed, _, same⟩ := bind_eq_some_iff.mp given
  have same : (values, handed) = tuples[i] := some.inj same
  rw [← same, length_map]
  exact (mapM_eq_some_iff.mp evaluated).length_eq.symm

end Built

/-- Before anything is done with the right input, all rows of the left input have been stored. -/
theorem Host.Produces.build {keys : List Scalar} (first : host.Produces types db settings left outputsLeft mostLeft needLeft)
    (growsLeft : ∀ next : Sink, (∀ held, Growing (next held)) → Growing (left next))
    (indicator : host.program.encoding = .indicator) (typed : ∀ key ∈ keys, key.Typed types)
    (carriedTyped : ∀ a ∈ carried, a.Typed types) (short : mostLeft < Action.chainLimit)
    (pool : settings.poolBlock + 16 < Pool.sizeLimit)
    (small : (TupleLayout.make .indicator (storedTypes keys carried)).size ≤ TupleLayout.largestSize)
    (database : s.machine.database = db) (set : s.machine.settings = settings) (laid : host.Laid s.machine)
    (room : s.machine.taken + (joinNeed settings mostLeft + needLeft) ≤ scratchSpan)
    {rest : Reg → Emit Unit} [∀ table, Growing (rest table)] {post : Unit → Point → Prop}
    (goes : ∀ lefts buckets table home unit block entries tuples left parts reg s', outputsLeft lefts →
      Built host keys carried lefts s buckets table home unit block mostLeft entries tuples left parts reg s' →
      s'.machine.taken ≤ s.machine.taken + (joinNeed settings mostLeft + needLeft) → host.Attains (rest reg) s' post) :
    host.Attains (do
      let list ← Emit.callValue .listCreate []
      left (buildRow list (.make .indicator (storedTypes keys carried)) keys carried)
      let table ← Emit.callValue .joinBuild [list]
      rest table) s post := by
  have buildGrows (list : Reg) (layout : TupleLayout) : Growing (left (buildRow list layout keys carried)) :=
    growsLeft _ fun _ => inferInstance
  obtain ⟨unit, rounded, bytes, unitSmall⟩ := roundUp_node small
  have cost := Pool.cost_wider unitSmall (max settings.poolBlock 8 + 8) mostLeft
  unfold joinNeed at room goes
  -- The list of the rows.
  obtain ⟨m1, creates, holds1, taken1, touches1⟩ := @Routine.run_listCreate s.machine unit mostLeft
    (by omega) short (by rw [set]; exact pool) (by omega)
  rw [set] at holds1
  refine (callValue .nil creates rfl touches1.program touches1.toLater.keepsTexts).bind fun list s1 before1 ⟨machine1, listIs⟩ => ?_
  have listIs : s1.Reads list .ptr (scratchAddress s.machine.taken) := listIs
  let building := Receiver.building ⟨.list, s.machine.taken, unit, max settings.poolBlock 8 + 8, mostLeft⟩
    (storedTypes keys carried) keys carried
  have homeFresh := s.machine.taken_fresh
  have stores1 : NodeStore.Stores ⟨.list, s.machine.taken, unit, max settings.poolBlock 8 + 8, mostLeft⟩
      (storedTypes keys carried) [] [] (Pool.cost unit (max settings.poolBlock 8 + 8) mostLeft)
      {.memory s.machine.taken} s1.machine := ⟨machine1 ▸ holds1, bytes, .nil⟩
  have standing : building.Stands host s1.size [] (Pool.cost unit (max settings.poolBlock 8 + 8) mostLeft)
      {.memory s.machine.taken} s1.machine := by
    refine ⟨⟨[], [], stores1, rfl, .nil⟩, ?_, ?_, ?_⟩
    · rw [machine1]
      exact laid.mono touches1.toLater (by omega)
    · exact owns_fresh laid _ homeFresh fun part member => stores1.holds.has member
    · rw [machine1]
      omega
  have receives : building.Receives host types s1 (buildRow list (.make .indicator (storedTypes keys carried)) keys carried) :=
    Receiver.building_receives indicator rounded small typed carriedTyped listIs
  refine (first building _ s1 [] _ _ (fun _ => inferInstance) (by rw [machine1, touches1.database, database])
    (by rw [machine1, touches1.settings, set]) standing (by rw [machine1]; omega) (by simp [building, Receiver.building])
    receives).bind fun _ s2 before2 ⟨lefts, given, few, touches2, left2, parts2, stands2, inside2, taken2⟩ => ?_
  obtain ⟨entries, tuples, stores2, stored, hashes⟩ := stands2.holds
  rw [machine1] at taken2
  -- The hash table over the nodes of the list.
  obtain ⟨buckets, table, parts3, m3, builds, holds3, walks, touches3, taken3, inside3, kept3⟩ :=
    stores2.holds.build (by omega)
  have args : s2.ReadsAll [list] [(.ptr, scratchAddress s.machine.taken)] := .cons (listIs.mono before2) .nil
  refine (callValue args builds rfl touches3.program touches3.toLater.keepsTexts).bind
    fun reg s3 before3 ⟨machine3, tableIs⟩ => ?_
  obtain ⟨fresh2, filled⟩ := Receiver.Moves.filled (machine1 ▸ touches1) before1.types_size homeFresh touches2 inside2
  have fresh3 : parts3 ⊆ s.machine.fresh := by
    intro part member
    rcases inside3 member with old | fresh
    · exact fresh2 old
    · exact fun has => fresh (filled.toLater.has has)
  have touches : s.machine.Touches (host.laterSlots s.size) s3.machine := by
    rw [machine3]
    exact filled.trans touches3 fun part member => .inr (fresh2 member)
  have stores3 : NodeStore.Stores _ _ _ _ _ _ _ :=
    ⟨holds3, stores2.size, stores2.payloads touches3.toLater.keepsTexts kept3⟩
  rw [← machine3] at stores3 taken3
  refine goes lefts buckets table s2.machine.taken unit _ entries tuples left2 parts3 reg s3 given
    ⟨stores3, stored, few, walks, hashes, fresh3, touches, tableIs, before1.trans (before2.trans before3)⟩ ?_
  omega

/-- A join hands on the rows of its right input, each with those of the left input that have equal keys. -/
theorem Host.Produces.join (first : host.Produces types db settings left outputsLeft mostLeft needLeft)
    (second : host.Produces types db settings right outputsRight mostRight needRight)
    (growsLeft : ∀ next : Sink, (∀ held, Growing (next held)) → Growing (left next))
    (growsRight : ∀ next : Sink, (∀ held, Growing (next held)) → Growing (right next))
    (indicator : host.program.encoding = .indicator) (leftTyped : ∀ key ∈ keys.map Prod.fst, key.Typed types)
    (rightTyped : ∀ key ∈ keys.map Prod.snd, key.Typed types) (carriedTyped : ∀ a ∈ carried, a.Typed types)
    (short : mostLeft < Action.chainLimit) (pool : settings.poolBlock + 16 < Pool.sizeLimit) :
    host.Produces types db settings (joinRows left right keys carried)
      (fun out => ∃ lefts rights tuples outs, outputsLeft lefts ∧ outputsRight rights ∧
        lefts.mapM (tuple? (keys.map Prod.fst) carried) = some tuples ∧
        rights.mapM (matches? (keys.map Prod.snd) carried tuples) = some outs ∧ out = outs.flatten)
      (mostRight * mostLeft) (joinNeed settings mostLeft + needLeft + needRight) := by
  intro R next s rows budget parts grows database set stands room fits receives
  have buildGrows (list : Reg) (layout : TupleLayout) :
      Growing (left (buildRow list layout (keys.map Prod.fst) carried)) := growsLeft _ fun _ => inferInstance
  have probeGrows (table : Reg) (layout : TupleLayout) :
      Growing (right (probeRow table layout (keys.map Prod.snd) carried next)) := growsRight _ fun _ => inferInstance
  have sameTypes : joinTypes keys carried = storedTypes (keys.map Prod.fst) carried := by
    simp only [joinTypes, storedTypes, List.map_map]
    rfl
  refine (attains_tupleLayout (joinTypes keys carried)).bind ?_
  rintro result s1 before1 ⟨machine1, made, small, _⟩
  obtain ⟨_, layout⟩ := result
  rw [indicator, sameTypes] at made
  subst made
  refine first.build growsLeft indicator leftTyped carriedTyped short pool small (by rw [machine1, database])
    (by rw [machine1, set]) (machine1 ▸ stands.laid) (by rw [machine1]; omega) ?_
  intro lefts buckets table home unit block entries tuples left2 parts2 reg s2 givenLeft built taken2
  rw [machine1] at taken2
  have early2 := before1.trans built.before
  have fresh2 : parts2 ⊆ s.machine.fresh := machine1 ▸ built.fresh
  have touches2 : s.machine.Touches (host.laterSlots s.size) s2.machine :=
    (machine1 ▸ built.touches).mono fun part slot => .inl (laterSlots_anti before1.types_size slot)
  have stands2 : R.Stands host s2.size rows budget parts s2.machine :=
    stands.frame touches2 stands.owns.away (by omega) early2.types_size
  -- While the rows of the right input go by, the table is kept.
  let kept : Kept := {
    parts := parts2
    Fact := NodeStore.Stores (builtStore buckets table home unit block mostLeft) (storedTypes (keys.map Prod.fst) carried)
      entries (tuples.map fun tuple => tuple.1 ++ tuple.2) left2 parts2
    keeps := fun stores later agrees => stores.kept later agrees }
  have owns2 : host.Owns s2.size s2.machine kept.parts :=
    owns_fresh stands.laid _ fresh2 fun part member => built.stores.holds.has member
  have apart2 (part : Part) (member : part ∈ parts) : part ∉ kept.parts :=
    fun isKept => fresh2 isKept (stands.owns.has part member)
  have narrow (row : ValueRow) (out : List ValueRow)
      (given : row.matches? (keys.map Prod.snd) carried tuples = some out) : out.length ≤ mostLeft :=
    Nat.le_trans (length_matches? given) built.few_tuples
  have passes : (R.through kept (matches? (keys.map Prod.snd) carried tuples) rows mostRight).Receives host types s2
      (probeRow reg (.make .indicator (storedTypes (keys.map Prod.fst) carried)) (keys.map Prod.snd) carried next) := by
    refine .through narrow fits ?_
    intro held row rows' left' own s' before later is typed fact owns apart enough inner
    have few := built.few_tuples
    exact probeRow_step indicator carriedTyped fact owns (built.reads.mono before) R rows' left' own grows
      (receives.mono (early2.trans before) (touches2.toLater.trans later)) is typed apart inner built.walks built.hashes
      (fun _ => built.lengths) (by simp) rightTyped (by omega)
  refine (second (R.through kept (matches? (keys.map Prod.snd) carried tuples) rows mostRight) _ s2 [] budget _
    (fun _ => inferInstance) (by rw [touches2.database, database]) (by rw [touches2.settings, set])
    (stands2.through built.stores owns2 apart2) (by omega) (by simp [Receiver.through]) passes).bind ?_
  rintro _ s3 before3 ⟨rights, givenRight, fewRight, moved⟩
  obtain ⟨outs, left3, own3, all, stores3, touches3, stands3, inside3, apart3, taken3⟩ := moved.inner
  have args : s3.ReadsAll [reg] [(.ptr, scratchAddress home)] := .cons (built.reads.mono before3) .nil
  have freed := stores3.holds.freed stands3.laid.span
  refine (callEffect args stores3.holds.run_joinFree rfl freed.toLater.keepsTexts).mono fun _ s4 _ machine4 => ?_
  rw [← machine4] at freed
  refine ⟨outs.flatten, ⟨lefts, rights, tuples, outs, givenLeft, givenRight, built.given, all, rfl⟩, ?_,
    .around stands touches2 early2.types_size fresh2 touches3 stands3 inside3 apart3 freed (by rw [machine4]; rfl) (by omega)⟩
  exact Nat.le_trans (length_flatten_le all narrow) (Nat.mul_le_mul_right mostLeft fewRight)

end

end QueryEngine
