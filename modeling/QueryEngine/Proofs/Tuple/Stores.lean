import QueryEngine.Proofs.Execution.Loops
import QueryEngine.Proofs.Memory.Objects
import QueryEngine.Proofs.Tuple.Keys
import QueryEngine.Proofs.Tuple.Layouts

namespace QueryEngine

open Emit TupleLayout

variable {store : NodeStore} {held : List (Entry Nat)} {tuples : List (List Datum)} {left : Nat} {parts : Set Part}
  {entry : Entry Nat} {tuple : List Datum} {m : Machine} {types : List ValueType} {form : NodeForm}

theorem Held.gives_load (ty : ValueType) (address : Reg) (flag : Option Reg) :
    Gives (Held.load ty address flag) fun h => h.ty.shape = ty.shape := by
  unfold Held.load
  refine .ite (fun isUnknown => .pure (ValueType.isUnknown_iff.mp isUnknown).symm) fun _ => ?_
  refine (Present.gives_build ty _).bind fun value shape => ?_
  refine .ite (fun _ => .pure shape) fun _ => ?_
  exact .after fun _ => .after fun _ => .pure shape

theorem Held.gives_loadShapes (tupleTypes : List ValueType) (address : Reg) :
    Gives (Held.loadTuple (.make .indicator tupleTypes) address) fun values => Held.Shaped values tupleTypes := by
  have fields : Gives (loadTuple (.make .indicator tupleTypes) address) fun values =>
      List.Forall₂ (fun (h : Held) (field : TupleField) => h.ty.shape = field.ty.shape) values
        (make .indicator tupleTypes).fields :=
    .mapM fun field _ => .after fun source => .after fun flag => gives_load field.ty source flag
  intro b values b' emitted
  rw [← make_types .indicator tupleTypes, types, shaped_map]
  exact fields b values b' emitted

/-- The values of a tuple are of the types that it was laid out for. -/
theorem Machine.TupleAt.fits {offset : Nat} {datums : List Datum}
    (lies : m.TupleAt offset (make .indicator types).fields datums) :
    List.Forall₂ (fun (d : Datum) (ty : ValueType) => d.Fits ty.shape) datums types := by
  have each (field : TupleField) (d : Datum) (here : m.FieldMeans .indicator True offset field d) :
      d.Fits field.ty.shape := by
    obtain ⟨_, _, unknown, known⟩ := here
    by_cases isUnknown : field.ty.isUnknown = true
    · exact .inl (unknown isUnknown)
    obtain ⟨parts, found⟩ := ValueType.parts?_isSome isUnknown
    obtain ⟨_, _, means, _⟩ := known parts found
    unfold NullEncoding.Means at means
    split at means
    · exact .inl means
    · exact .inr means.hasShape
  have fields : List.Forall₂ (fun (d : Datum) (field : TupleField) => d.Fits field.ty.shape) datums
      (make .indicator types).fields := (lies.imp each).flip
  rw [← TupleLayout.make_types .indicator types, TupleLayout.types, List.forall₂_map_right_iff]
  exact fields

/-- An object that keeps nodes, each of which holds a tuple. -/
structure NodeStore.Stores (store : NodeStore) (types : List ValueType) (held : List (Entry Nat)) (tuples : List (List Datum))
    (left : Nat) (parts : Set Part) (m : Machine) : Prop where
  holds : store.Holds held left parts m
  size : nodeHeader + (TupleLayout.make .indicator types).size ≤ store.unit
  tuples : List.Forall₂ (fun entry tuple =>
    m.TupleAt (entry.payload + nodeHeader) (TupleLayout.make .indicator types).fields tuple) held tuples

namespace NodeStore

variable {left' : Nat} {parts' : Set Part} {m' m'' : Machine}

section

variable (stores : store.Stores types held tuples left parts m)

include stores

theorem Stores.tupleAt (member : (entry, tuple) ∈ held.zip tuples) :
    m.TupleAt (entry.payload + nodeHeader) (make .indicator types).fields tuple :=
  (List.forall₂_iff_zip.mp stores.tuples).2 member

theorem Stores.fits (member : tuple ∈ tuples) :
    List.Forall₂ (fun (d : Datum) (ty : ValueType) => d.Fits ty.shape) tuple types := by
  obtain ⟨i, bound, rfl⟩ := List.getElem_of_mem member
  obtain ⟨length, each⟩ := List.forall₂_iff_get.mp stores.tuples
  exact (each i (by omega) bound).fits

/-- Tuples stay as long as the bytes behind the headers do. -/
theorem Stores.payloads (keeps : m.KeepsTexts m') (same : store.KeepsPayloads held m m') :
    List.Forall₂ (fun entry tuple =>
      m'.TupleAt (entry.payload + nodeHeader) (make .indicator types).fields tuple) held tuples := by
  obtain ⟨length, each⟩ := List.forall₂_iff_zip.mp stores.tuples
  refine List.forall₂_iff_zip.mpr ⟨length, fun member => ?_⟩
  have size := stores.size
  refine (each member).congr (make_placed .indicator types) keeps fun i lower upper => ?_
  exact same _ (List.of_mem_zip member).1 i (by omega) (by omega)

/-- Only the parts of its own matter to an object. -/
theorem Stores.kept (later : m.Later m') (agrees : ∀ part ∈ parts, m.Agrees m' part) :
    store.Stores types held tuples left parts m' where
  holds := stores.holds.kept later.taken agrees
  size := stores.size
  tuples := stores.payloads later.keepsTexts fun entry member i lower upper => by
    have inside := (stores.holds.node member).1 (Part.mem_range.mpr ⟨Nat.le_trans (Nat.le_add_right _ _) lower, upper⟩)
    exact (agrees (.memory i) inside).1

/-- A new node gets its tuple, in bytes that no other node has. -/
theorem Stores.gained {hash : Word} {place : Nat}
    (gains : NodeStore.Gains ⟨form, store.home, store.unit, store.block, store.most⟩ held hash place left left' parts parts' m m1)
    (limit : m1.taken ≤ Machine.scratchSpan) (quiet : m1.Quiet m2)
    (writes : m2.Writes (place + nodeHeader) (place + nodeHeader + (make .indicator types).size) m')
    (lies : m'.TupleAt (place + nodeHeader) (make .indicator types).fields tuple) :
    NodeStore.Stores ⟨form, store.home, store.unit, store.block, store.most⟩ types (Entry.appended held hash place)
      (tuples ++ [tuple]) left' parts' m' ∧ m.Touches parts m' ∧ m'.taken + left' = m.taken + left := by
  have size := stores.size
  have own : (⟨held.length, hash, place⟩ : Entry Nat) ∈ Entry.appended held hash place :=
    List.mem_append_right _ List.mem_cons_self
  have agrees (part : Part) (member : part ∈ parts') : m1.Agrees m2 part :=
    quiet.keeps part (gains.holds.has member) fun nothing => nothing
  have holds := gains.holds.kept quiet.taken agrees
  have limit2 : m2.taken ≤ Machine.scratchSpan := quiet.same ▸ limit
  have touches := (gains.touches.trans_quiet quiet.toTouches).trans (writes.touches limit2) fun part member =>
    gains.inside ((holds.node own).1 (Part.range_subset (by dsimp only; omega) (by dsimp only; omega) member))
  refine ⟨⟨holds.written limit2 own (writes.mono (Nat.le_refl _) (by dsimp only; omega)), size,
    List.rel_append ?_ (.cons lies .nil)⟩, touches, by rw [writes.taken, quiet.same]; exact gains.budget⟩
  obtain ⟨_, _, _, _, _, _, serves⟩ := holds.object
  have apart := serves.apart
  have inside := serves.inside
  rw [Entry.payloads_appended] at apart inside
  refine stores.payloads touches.toLater.keepsTexts fun entry member i lower upper => ?_
  have among : entry.payload ∈ held.map Entry.payload := List.mem_map_of_mem member
  have away := (List.pairwise_append.mp apart).2.2 _ among place List.mem_cons_self
  have bound := inside _ (List.mem_append_left _ among)
  dsimp only at away bound
  have isPart := (gains.holds.node (List.mem_append_left _ member)).1
    (Part.mem_range.mpr ⟨Nat.le_trans (Nat.le_add_right _ _) lower, upper⟩)
  rw [writes.keeps i (by omega) (by omega), (agrees _ isPart).1]
  exact gains.kept entry member i lower upper

end

/-- The tuple of one node is exchanged. -/
theorem Stores.rewritten (stores : store.Stores types (before ++ entry :: after) (first ++ tuple :: last) left parts m)
    (lengths : before.length = first.length) (limit : m.taken ≤ Machine.scratchSpan)
    (writes : m.Writes (entry.payload + nodeHeader) (entry.payload + nodeHeader + (make .indicator types).size) m')
    (lies : m'.TupleAt (entry.payload + nodeHeader) (make .indicator types).fields tuple') :
    store.Stores types (before ++ entry :: after) (first ++ tuple' :: last) left parts m' := by
  have size := stores.size
  have own : entry ∈ before ++ entry :: after := List.mem_append_right _ List.mem_cons_self
  obtain ⟨_, _, _, _, _, _, serves⟩ := stores.holds.object
  have apart := serves.apart
  have inside := serves.inside
  rw [List.map_append, List.map_cons] at apart
  obtain ⟨_, behind, across⟩ := List.pairwise_append.mp apart
  -- Other nodes have none of the bytes that are written.
  have others (nodes : List (Entry Nat)) (stored : List (List Datum))
      (away : ∀ other ∈ nodes, other ∈ before ++ entry :: after ∧
        (other.payload + store.unit ≤ entry.payload ∨ entry.payload + store.unit ≤ other.payload))
      (there : List.Forall₂ (fun other tuple =>
        m.TupleAt (other.payload + nodeHeader) (make .indicator types).fields tuple) nodes stored) :
      List.Forall₂ (fun other tuple =>
        m'.TupleAt (other.payload + nodeHeader) (make .indicator types).fields tuple) nodes stored := by
    obtain ⟨length, each⟩ := List.forall₂_iff_zip.mp there
    refine List.forall₂_iff_zip.mpr ⟨length, fun member => ?_⟩
    obtain ⟨among, disjoint⟩ := away _ (List.of_mem_zip member).1
    have bound := inside _ (List.mem_map_of_mem among)
    refine (each member).congr (make_placed .indicator types) writes.toSameButScratch.later.keepsTexts
      fun i lower upper => ?_
    exact writes.keeps i (by omega) (by omega)
  have firstThere := List.forall₂_take before.length stores.tuples
  have restThere := List.forall₂_drop before.length stores.tuples
  rw [List.take_left, List.take_left' lengths.symm] at firstThere
  rw [List.drop_left, List.drop_left' lengths.symm] at restThere
  refine ⟨stores.holds.written limit own (writes.mono (Nat.le_refl _) (by omega)), size, List.rel_append ?_ (.cons lies ?_)⟩
  · refine others before first (fun other member => ⟨List.mem_append_left _ member, ?_⟩) firstThere
    exact across _ (List.mem_map_of_mem member) _ List.mem_cons_self
  · refine others after last (fun other member => ⟨?_, ?_⟩) (List.forall₂_cons.mp restThere).2
    · exact List.mem_append_right _ (List.mem_cons_of_mem _ member)
    · exact ((List.pairwise_cons.mp behind).1 _ (List.mem_map_of_mem member)).symm

end NodeStore

section

open Host.Attains

variable {host : Host} {s : Point} {node : Reg}

theorem Entry.attains_nodePayload (address : s.Reads node .ptr entry.address) :
    host.Yields (nodePayload node) s fun payload s' =>
      s'.Reads payload .ptr (Machine.scratchAddress (entry.payload + nodeHeader)) := by
  refine (ptrOffset address nodeHeader).weaken fun payload s' _ reads => ?_
  rwa [Entry.address, Machine.scratchAddress_add] at reads

/-- The tuple of a node is loaded. -/
theorem NodeStore.Stores.attains_load (stores : store.Stores types held tuples left parts s.machine)
    (indicator : host.program.encoding = .indicator) (limit : s.machine.taken ≤ Machine.scratchSpan)
    (member : (entry, tuple) ∈ held.zip tuples)
    (address : s.Reads payload .ptr (Machine.scratchAddress (entry.payload + nodeHeader))) :
    host.Yields (Held.loadTuple (.make .indicator types) payload) s fun values s' => Held.All s' values tuple ∧
      Held.Shaped values types := by
  have size := stores.size
  have inside := (stores.holds.node (List.of_mem_zip member).1).2
  exact Held.attains_loadTuple indicator address (stores.tupleAt member) (by omega)

/-- A loop over nodes, in the order in which one leads to the next. -/
theorem Host.Attains.forNodes [∀ node, Growing (body node)] (entryOf : α → Entry Nat) (inv : List α → Machine → Prop)
    (visits : Visits next? start (items.map entryOf)) (placed : ∀ item ∈ items, (entryOf item).address ≠ 0)
    (starts : s.Reads first .ptr (nodeAddress start)) (holds : inv items s.machine)
    (bodyRun : ∀ item rest node s', s.Before s' → item ∈ items → s'.Reads node .ptr (entryOf item).address →
      inv (item :: rest) s'.machine → host.Attains (body node) s' fun next s'' =>
        s''.Reads next .ptr (nodeAddress (next? (entryOf item))) ∧ inv rest s''.machine) :
    host.Attains (Emit.forNodes first body) s fun _ s' => inv [] s'.machine := by
  -- What the loop carries is the address of a node; as many runs remain as there are nodes from it on.
  let carries (remaining : Nat) (cells : List (CodeType × Word)) (m : Machine) : Prop :=
    ∃ here rest, cells = [(.ptr, nodeAddress here)] ∧ Visits next? here (rest.map entryOf) ∧ rest ⊆ items ∧
      rest.length = remaining ∧ inv rest m
  rw [Emit.forNodes_eq]
  have reads : s.ReadsAll [first] [(.ptr, nodeAddress start)] := .cons starts .nil
  refine .map ((whileLoop carries reads items.length ⟨start, items, rfl, visits, List.Subset.refl _, rfl, holds⟩ ?_ ?_).mono
    fun result s' _ finished => ?_)
  · rintro remaining regs _ s' before reads ⟨here, rest, rfl, visits, inside, count, holds⟩
    cases reads with
    | cons head tail =>
      cases tail
      refine nullPtr.bind ?_
      rintro null s1 before1 ⟨machine1, nullIs⟩
      refine (Host.Attains.compare .ne (Point.Reads.mono head before1) nullIs).mono ?_
      rintro bit s2 _ ⟨machine2, bitIs⟩
      refine ⟨?_, here, rest, rfl, visits, inside, count, by rwa [machine2, machine1]⟩
      have same : Predicate.ne.apply .ptr (nodeAddress here) 0 = decide (remaining ≠ 0) := by
        cases rest with
        | nil =>
          cases visits
          rw [← count]
          rfl
        | cons item rest =>
          cases visits
          have address := placed item (inside List.mem_cons_self)
          rw [← count]
          exact decide_eq_true address
      rwa [same] at bitIs
  · rintro remaining regs _ s' before reads ⟨here, rest, rfl, visits, inside, count, holds⟩
    cases rest with
    | nil => cases count
    | cons item rest =>
      obtain ⟨later, isHere⟩ : Visits next? (next? (entryOf item)) (rest.map entryOf) ∧ here = some (entryOf item) := by
        rw [List.map_cons] at visits
        cases visits with
        | step later => exact ⟨later, rfl⟩
      subst isHere
      cases reads with
      | cons head tail =>
        cases tail
        refine (bodyRun item rest _ s' before (inside List.mem_cons_self) head holds).bind ?_
        rintro next s1 _ ⟨nextIs, holds1⟩
        refine .pure ⟨_, .cons nextIs .nil, next? (entryOf item), rest, rfl, later, ?_, Nat.succ.inj count, holds1⟩
        exact fun other member => inside (List.mem_cons_of_mem _ member)
  · obtain ⟨_, _, here, rest, _, _, _, count, holds⟩ := finished
    rwa [List.length_eq_zero_iff.mp count] at holds

end

end QueryEngine
