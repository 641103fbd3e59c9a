import QueryEngine.Proofs.Memory.Frames
import QueryEngine.Proofs.Pipeline.Scans
import QueryEngine.Query

namespace QueryEngine

open Emit Host.Attains List ValueRow Attribute Compile Machine

variable {id : Nat} {m : Machine} {layout : TupleLayout}

/-- The values of some attributes. -/
def ValueRow.selected? (selection : List Attribute) (row : ValueRow) : Option Row := selection.mapM row.value?

/-- Receives rows for the caller. -/
def Receiver.collecting (selection : List Attribute) (most : Nat) : Receiver where
  most := most
  Holds := fun rows _ parts m => parts = {.rows} ∧ rows.mapM (ValueRow.selected? selection) = some m.outcome.rows.toList
  keeps := by
    rintro rows left _ m m' ⟨rfl, given⟩ later agrees
    have same : m'.outcome.rows = m.outcome.rows := agrees .rows rfl
    exact ⟨rfl, by rw [same]; exact given⟩

variable {host : Host} {s : Point} {types : Nat → Shape}

theorem Program.layouts_tupleLayout (p : Program) (types : List ValueType) :
    (p.tupleLayout types).1.2 = .make p.encoding types ∧ ∃ layout,
      (p.tupleLayout types).2.layouts[(p.tupleLayout types).1.1]? = some layout ∧
      (p.tupleLayout types).1.2.shares layout = true := by
  unfold tupleLayout
  dsimp only
  split
  next id found =>
    obtain ⟨bound, same, _⟩ := Array.findIdx?_eq_some_iff_getElem.mp found
    exact ⟨rfl, _, Array.getElem?_eq_getElem bound, same⟩
  · exact ⟨rfl, .make p.encoding types, by simp, by simp [TupleLayout.shares]⟩

/-- The layout of a tuple in the program. -/
theorem attains_tupleLayout (tupleTypes : List ValueType) : host.Yields (Emit.tupleLayout tupleTypes) s fun result _ =>
    result.2 = .make host.program.encoding tupleTypes ∧
      result.2.size ≤ TupleLayout.largestSize ∧
      ∃ layout, host.program.layouts[result.1]? = some layout ∧ result.2.shares layout = true := by
  have : Growing (inProgram fun program => program.tupleLayout tupleTypes) := .inProgram fun p => .tupleLayout p tupleTypes
  refine .of_at fun here => ?_
  refine (inProgram fun p => .tupleLayout p tupleTypes).andThen fun result s1 before1 ⟨given, grows⟩ => ?_
  obtain ⟨made, layout, found, shared⟩ := s.builder.program.layouts_tupleLayout tupleTypes
  rw [← given] at made found shared
  have known : host.program.layouts[result.1]? = some layout := by
    obtain ⟨_, all⟩ := grows.layouts
    rw [← Array.getElem?_toList] at found
    rw [← Array.getElem?_toList, ← all, List.getElem?_append_left (List.getElem?_eq_some_iff.mp found).1, found]
  have encoding : host.program.encoding = s.builder.program.encoding := here.within.program.encoding
  obtain ⟨_, _⟩ := result
  dsimp only
  split
  · exact .bind .throw fun _ _ _ (impossible : False) => impossible.elim
  next small => exact .pure ⟨rfl, by rw [encoding]; exact made, Nat.le_of_not_lt small, layout, known, shared⟩

/-- Where sentinels stand for NULL, values are selected under the types that they were loaded with. -/
def HeldRow.Selects (encoding : NullEncoding) (selection : List Attribute) (held : HeldRow) : Prop :=
  encoding = .sentinel → ∀ a ∈ selection, ∀ item ∈ held, item.1.id = a.id → item.1.ty = a.ty

variable {selection : List Attribute} {encoding : NullEncoding} {row : ValueRow} {held : HeldRow}

/-- The values of attributes in registers. They are read back if they are stored. -/
theorem HeldRow.Loaded.attains_values (loaded : held.Loaded encoding s row) (selects : held.Selects encoding selection) :
    host.Attains (held.values selection) s fun hs s' => ∃ ds, s' = s ∧ row.selected? selection = some ds ∧
      Forall₂ (fun h d => h.Bears (encoding = .indicator) s d) hs ds ∧
      Held.readBack encoding s (selection.map ty) hs ds = ds := by
  unfold values selected?
  induction selection with
  | nil => exact .pure ⟨[], rfl, rfl, .nil, rfl⟩
  | cons a selection ih =>
    rw [mapM_cons]
    have one : host.Attains (held.value a) s fun h s' => ∃ d, s' = s ∧ row.value? a = some d ∧
        h.Bears (encoding = .indicator) s d ∧ encoding.readBack a.ty (h.bits s) d = d := by
      unfold HeldRow.value
      split
      next h found =>
        obtain ⟨a', d, given, member, number, value⟩ :=
          value?_related (R := fun a h d => h.Loaded encoding a.ty s d) loaded found
        refine .pure ⟨d, rfl, given, value.bears, ?_⟩
        cases encoding with
        | indicator => simp [NullEncoding.readBack]
        | sentinel => rw [← selects rfl a mem_cons_self _ member number, value.back]
      · exact .throw
    refine one.bind fun h s1 _ ⟨d, point, found, bears, back⟩ => ?_
    subst point
    refine (ih fun sentinel a' member => selects sentinel a' (mem_cons_of_mem _ member)).bind
      fun hs s2 _ ⟨ds, point, others, bear, backs⟩ => ?_
    subst point
    refine .pure ⟨d :: ds, rfl, ?_, .cons bears bear, ?_⟩
    · rw [mapM_cons, found, others]
      rfl
    · rw [map_cons, Held.readBack, back, backs]

theorem HeldRow.Is.loaded (is : held.Is s row) : held.Loaded .indicator s row :=
  Forall₂.imp (fun _ _ ⟨same, value⟩ => ⟨same, value.bears, by simp [NullEncoding.readBack]⟩) is

theorem HeldRow.Is.attains_values (is : held.Is s row) (selection : List Attribute) :
    host.Attains (held.values selection) s fun hs s' =>
      ∃ ds, s' = s ∧ row.selected? selection = some ds ∧ Held.All s hs ds :=
  (is.loaded.attains_values nofun).mono fun _ _ _ ⟨ds, point, selected, bear, _⟩ =>
    ⟨ds, point, selected, bear.imp fun _ _ bears => bears.is rfl⟩

theorem CodeType.toNat_ofInt (fits : i64.fits id = true) : (Word.ofInt id).toNat = id := by
  simp only [CodeType.fits, Bool.and_eq_true, decide_eq_true_eq] at fits
  rw [Word.ofInt_natCast, UInt64.toNat_ofNat', Nat.mod_eq_of_lt (by omega)]

theorem Action.decodeTuple_eq (fits : CodeType.i64.fits id = true)
    (found : m.program.layouts[id]? = some layout) (a : Word) :
    Action.decodeTuple (Word.ofInt id) a m = .ok (layout.decode m.encoding m.readBytes a) m := by
  have known : orFail (.unknownLayout (Word.ofInt id)) m.program.layouts[(Word.ofInt id).toNat]? m = .ok layout m := by
    rw [CodeType.toNat_ofInt fits, found]
    rfl
  exact bind_of_ok known

/-- The routine that hands on a row decodes it. -/
theorem Routine.run_resultRow (fits : CodeType.i64.fits id = true)
    (found : m.program.layouts[id]? = some layout) (a : Word) :
    Routine.run .resultRow [Word.ofInt id, a] m =
      .ok 0 { m with outcome.rows := m.outcome.rows.push (layout.decode m.encoding m.readBytes a) } :=
  bind_of_ok (Action.decodeTuple_eq fits found a)

theorem Machine.Touches.pushRow (m : Machine) (row : Row) :
    m.Touches {.rows} { m with outcome.rows := m.outcome.rows.push row } := by
  refine ⟨⟨rfl, rfl, rfl, rfl, Nat.le_refl _, id⟩, fun part _ away => ?_⟩
  cases part with
  | memory offset => exact ⟨rfl, rfl⟩
  | rows => exact absurd rfl away

/-- The first bytes of a slot. -/
theorem Host.Laid.slot_range (laid : host.Laid m) (member : slot ∈ host.function.slots.toList)
    (late : s.size ≤ slot.address.index) (small : size ≤ slot.size) :
    Part.range (host.places slot.address) (host.places slot.address + size) ⊆ host.laterSlots s.size ∧
      host.places slot.address + size ≤ scratchSpan := by
  have taken := laid.taken slot member
  have span := laid.span
  refine ⟨fun part inside => ⟨slot, member, late, Part.range_subset (Nat.le_refl _) (by omega) inside⟩, by omega⟩

/-- The selected values of a row become a row for the caller. -/
theorem attains_collectRow (loaded : held.Loaded host.program.encoding s row)
    (selects : held.Selects host.program.encoding selection) (typed : ∀ a ∈ selection, a.Typed types)
    (rowTyped : HeldRow.Typed types held) (laid : host.Laid s.machine) :
    host.Attains (collectRow selection held) s fun _ s' => ∃ ds, row.selected? selection = some ds ∧
      s.machine.Touches (host.laterSlots s.size ∪ {.rows}) s'.machine ∧ s'.machine.taken = s.machine.taken ∧
      s'.machine.outcome.rows = s.machine.outcome.rows.push ds := by
  refine .of_at fun here => ?_
  have program := here.program
  refine (attains_tupleLayout (selection.map ty)).bind fun result s1 before1
    ⟨machine1, made, _, layout, found, shared⟩ => ?_
  obtain ⟨id, tuple⟩ := result
  subst made
  refine (Host.Attains.stackSlot (max (TupleLayout.make host.program.encoding (selection.map ty)).size 1)).bind
    fun slot s2 before2 ⟨machine2, address, member, late⟩ => ?_
  refine (((loaded.mono (before1.trans before2)).attains_values selects).with_gives (rowTyped.gives_values typed)).bind
    fun hs s3 _ ⟨⟨ds, point, selected, bear, back⟩, shapes⟩ => ?_
  subst point
  have machine : s3.machine = s.machine := machine2.trans machine1
  rw [laid.address _ member (by dsimp only; omega)] at address
  have late' : s.size ≤ slot.index := Nat.le_trans before1.types_size late
  obtain ⟨inside, span⟩ := laid.slot_range (s := s) member late' (Nat.le_max_left _ _)
  have shaped : Forall₂ Held.Suits hs (selection.map ty) :=
    (Held.shaped_map.mpr shapes).imp fun _ _ => .inl
  refine (Held.attains_storeValues (fun flagged => flagged) address bear shaped span).bind fun _ s4 before4 ⟨writes, lies⟩ => ?_
  rw [back] at lies
  refine (attains_number id).bind fun r s5 before5 ⟨machine5, number⟩ => ?_
  rw [machine] at writes
  have same := writes.toSameButScratch
  have args : s5.ReadsAll [r, slot] [(.i64, Word.ofInt id), (.ptr, scratchAddress (host.places slot))] :=
    .cons number.reads (.cons ((address.mono before4).mono before5) .nil)
  have found' : s5.machine.program.layouts[id]? = some layout := by
    rw [machine5, same.program, program, found]
  have decoded : layout.decode s5.machine.encoding s5.machine.readBytes (scratchAddress (host.places slot)) = ds := by
    have encoding : s5.machine.encoding = host.program.encoding := by
      rw [Machine.encoding, machine5, same.program, program]
    rw [encoding, machine5, TupleLayout.decode_of_shares shared, lies.decode (TupleLayout.make_placed _ _)]
  have run := Routine.run_resultRow number.fits found' (scratchAddress (host.places slot))
  rw [decoded] at run
  have pushed := Machine.Touches.pushRow s5.machine ds
  refine (callEffect args run rfl pushed.toLater.keepsTexts).mono fun _ s6 _ machine6 => ⟨ds, selected, ?_, ?_, ?_⟩
  · rw [← machine6] at pushed
    have written := writes.touches laid.span
    rw [← machine5] at written
    refine (written.mono fun part member => .inl (.inl (inside member))).trans pushed fun part member => .inl (.inr member)
  · rw [machine6, machine5]
    exact same.taken
  · rw [machine6, machine5, same.outcome]

theorem Receiver.collecting_receives (indicator : host.program.encoding = .indicator)
    (typed : ∀ a ∈ selection, a.Typed types) (most : Nat) :
    (Receiver.collecting selection most).Receives host types s (collectRow selection) := by
  intro held row rows left parts s before later is rowTyped few stands
  obtain ⟨rfl, given⟩ := stands.holds
  have selects : held.Selects host.program.encoding selection := fun sentinel => by rw [indicator] at sentinel; cases sentinel
  refine (attains_collectRow (indicator ▸ is.loaded) selects typed rowTyped stands.laid).mono
    fun _ s' _ ⟨ds, selected, touched, taken, pushed⟩ => ?_
  have collected : (rows ++ [row]).mapM (selected? selection) = some s'.machine.outcome.rows.toList := by
    rw [mapM_append, given, pushed]
    simp [selected]
  refine ⟨touched, left, {.rows}, ⟨⟨rfl, collected⟩, ?_, ?_, ?_⟩, fun part member => .inl member, by omega⟩
  · exact stands.laid.mono touched.toLater (by rw [taken]; exact stands.laid.span)
  · exact stands.owns.mono touched.toLater (Nat.le_refl _)
  · rw [taken]
    exact stands.room

/-- What has been collected belongs to no slot. -/
theorem Host.owns_rows (host : Host) (low : Nat) (m : Machine) : host.Owns low m {.rows} where
  has := by
    rintro _ rfl
    trivial
  away := by
    rintro _ rfl ⟨_, _, _, i, _, _, ⟨⟩⟩

theorem Physical.emit_ok {plan : Physical} {b b' : Builder} (emitted : plan.emit b = .ok () b') :
    plan.produce (fun _ => fail (.flow (.noParent (plan.size - 1)))) b = .ok () b' ∧
      (b'.function.slots.toList.map StackSlot.size).sum ≤ largestFrame := by
  obtain ⟨_, c, produced, checked⟩ := bind_ran emitted
  obtain ⟨_, _, ⟨⟩, checked⟩ := bind_ran checked
  dsimp only at checked
  split at checked
  · cases checked
  next small =>
    cases checked
    exact ⟨produced, Nat.le_of_not_lt small⟩

variable {program : Program}

theorem Compile.emit_ok (emitted : emit encoding physical = .ok program) : ∃ b,
      physical.emit (Builder.start { name := queryFunction, encoding } queryFunction [] none) = .ok () b ∧
      Program.finish b = .ok program := by
  unfold emit at emitted
  split at emitted
  · cases emitted
  next b produced => exact ⟨b, produced, Checked.mapCause_ok emitted⟩

/-- The code of a query comes to an end in a machine of which that holds which the code attains. -/
theorem Compile.ends (db : Database) (settings : Settings) (post : Machine → Prop) {physical : Physical}
    (emitted : emit encoding physical = .ok program)
    (attains : ∀ (host : Host) (s : Point) (taken : Nat), host.program.encoding = encoding → host.Laid s.machine →
      taken ≤ 9 * 2 ^ 40 → s.machine = { program, database := db, settings, taken } →
      host.Attains (physical.produce fun _ => fail (.flow (.noParent (physical.size - 1)))) s fun _ s' => post s'.machine) :
    ∃ m, post m ∧ ∃ least, ∀ limit, least ≤ limit →
      Run.functionWithin Routine.run limit queryFunction [] (start program db settings) = .ok none m := by
  obtain ⟨b, whole, finished⟩ := emit_ok emitted
  obtain ⟨produced, frame⟩ := Physical.emit_ok whole
  have growing : Growing (physical.produce fun _ => fail (.flow (.noParent (physical.size - 1)))) :=
    physical.feeds_growth _ fun _ _ => inferInstance
  have addressable : Program.Addressable { name := queryFunction, encoding } := by cases encoding <;> decide
  have encoded : program.encoding = encoding := by
    have grows := Emit.Growing.grows (Builder.start_ready addressable queryFunction [] none) produced
    obtain ⟨_, _, _, _, more⟩ := Program.finish_ok finished
    exact more.encoding.trans grows.program.encoding
  have span : scratchSpan = 2 ^ 61 := rfl
  have largest : Physical.largestFrame = 2 ^ 40 := rfl
  refine Program.function_attains post addressable produced finished (start program db settings) rfl
    (by change 0 + _ ≤ _; omega) fun host s taken isHost laid machine upto => ?_
  replace upto : taken ≤ 0 + 9 * _ := upto
  exact attains host s taken (by rw [isHost, encoded]) laid (by omega) machine

variable {child : Physical}

/-- A query that collects rows comes to an end with what its code collects. It leaves the database as it is. -/
theorem Compile.runs (db : Database) (settings : Settings) (post : Outcome → Prop)
    (emitted : emit encoding (.collect child selection) = .ok program)
    (attains : ∀ (host : Host) (s : Point) (taken : Nat), host.program.encoding = encoding → host.Laid s.machine →
      taken ≤ 9 * 2 ^ 40 → s.machine = { program, database := db, settings, taken } →
      host.Attains (child.produce (collectRow selection)) s fun _ s' => s.machine.Later s'.machine ∧ post s'.machine.outcome) :
    ∃ outcome, post outcome ∧
      ∃ least, ∀ limit, least ≤ limit → program.executeWithin limit queryFunction settings db = (db, .ok outcome) := by
  obtain ⟨m, ⟨database, pending, holds⟩, least, ends⟩ := ends db settings
    (fun m => m.database = db ∧ m.pending = #[] ∧ post m.outcome) emitted fun host s taken encoded laid used machine => by
      refine (attains host s taken encoded laid used machine).mono fun _ s' _ ⟨later, holds⟩ => ⟨?_, ?_, holds⟩
      · rw [later.database, machine]
      · rw [later.pending, machine]
  refine ⟨m.outcome, holds, least, fun limit enough => ?_⟩
  rw [Program.executeWithin, ends limit enough]
  dsimp only
  rw [finish, pending, database]
  rfl

/-- A query that collects the rows of operators which hand on rows comes to an end, with the selected values of those rows. -/
theorem Compile.collects_first (settings : Settings)
    (emitted : emit .indicator (.collect child selection) = .ok program) (typed : ∀ a ∈ selection, a.Typed types)
    (produces : ∀ host : Host, host.program.encoding = .indicator → host.ProducesFirst types db settings child.produce outputs most need)
    (small : need ≤ 2 ^ 60) :
    ∃ outcome out, outputs outcome.overflow out ∧ out.mapM (selected? selection) = some outcome.rows.toList ∧
      ∃ least, ∀ limit, least ≤ limit → program.executeWithin limit queryFunction settings db = (db, .ok outcome) := by
  obtain ⟨outcome, ⟨out, given, collected⟩, ends⟩ := runs db settings (fun outcome =>
    ∃ out, outputs outcome.overflow out ∧ out.mapM (selected? selection) = some outcome.rows.toList) emitted
    fun host s taken indicator laid used machine => by
      have span : scratchSpan = 2 ^ 61 := rfl
      have used : s.machine.taken ≤ 9 * 2 ^ 40 := by rwa [machine]
      have stands : (Receiver.collecting selection most).Stands host s.size [] 0 {.rows} s.machine :=
        ⟨⟨rfl, by rw [machine]; rfl⟩, laid, host.owns_rows _ _, laid.span⟩
      have unused : host.Unused s := by
        intro offset member
        have inside : offset < s.machine.taken := laid.has member
        rw [cell_eq _ (by omega), machine]
        exact Std.HashMap.getD_empty
      exact (produces host indicator (.collecting selection most) (collectRow selection) s [] 0 {.rows}
        (fun _ => inferInstance) (by rw [machine]) (by rw [machine]) unused stands (by omega)
        (by simp [Receiver.collecting]) (Receiver.collecting_receives indicator typed _)).mono
        fun _ s' _ ⟨out, given, _, touches, _, _, stands', _⟩ => ⟨touches.toLater, out, given, stands'.holds.2⟩
  exact ⟨outcome, out, given, collected, ends⟩

theorem Compile.collects (settings : Settings) (emitted : emit .indicator (.collect child selection) = .ok program)
    (typed : ∀ a ∈ selection, a.Typed types)
    (produces : ∀ host : Host, host.program.encoding = .indicator → host.Produces types db settings child.produce outputs most need)
    (small : need ≤ 2 ^ 60) :
    ∃ outcome out, outputs out ∧ out.mapM (selected? selection) = some outcome.rows.toList ∧
      ∃ least, ∀ limit, least ≤ limit → program.executeWithin limit queryFunction settings db = (db, .ok outcome) :=
  collects_first settings emitted typed (fun host indicator => (produces host indicator).first) small

end QueryEngine
