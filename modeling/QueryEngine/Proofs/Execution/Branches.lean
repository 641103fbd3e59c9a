import QueryEngine.Proofs.Execution.Instructions

namespace QueryEngine

open List Run

variable {cond : Reg} {s : Point} {host : Host} {b : Builder} {post : List (CodeType × Word) → Machine → Prop}

namespace Builder

/-- A block without phis is entered at its first line. -/
theorem Within.enter {f : Function} {p : Program} (within : b.Within f p) (empty : b.lines = [])
    (routines : Routines) (args : List Word) (limit : Nat) (source : Label) (frame : Frame) (m : Machine) :
    runFrom routines f args (limit + 1) source b.current frame m =
      resumeAt routines f args limit b.current b.lines.length frame m := by
  obtain ⟨_, _, _, found, lines, refines, plain⟩ := within.current
  rw [empty] at refines ⊢
  exact runFrom_phis 0 [] found lines refines plain .nil

end Builder

/-- Where a run is after the phis of a block. -/
def Point.afterPhis (start b : Builder) (words : List Word) (frame : Frame) (m : Machine) : Point :=
  ⟨b, Run.assignPhis frame (Run.phiResults start.function.types.size words), m⟩

variable {cells : List (CodeType × Word)}

section

open Builder

variable {start : Builder} {frame : Frame}

theorem Point.afterPhis_placed (ready : start.Ready) (adds : start.AddsPhis b regs entries)
    (within : b.Within host.function host.program) (types : cells.map Prod.fst = entries.map Prod.fst)
    (frameSize : frame.size = host.function.types.size)
    (slots : ∀ slot ∈ host.function.slots.toList, frame.value slot.address = host.slots slot.address) :
    (Point.afterPhis start b (cells.map Prod.snd) frame m).Placed host where
  ready := adds.appends.ready ready
  within := within
  frameSize := (assignPhis_size frame _ _).trans frameSize
  slots := by
    intro slot member
    have away := within.slot_away ready adds.appends member
    have size := congrArg List.length adds.appends.newTypes
    have length := congrArg List.length types
    simp only [Array.length_toList, length_append, length_map] at size length
    refine (assignPhis_other ?_).trans (slots slot member)
    rw [length_map]
    omega

theorem Point.ReadsAll.of_typed (typed : Emit.Typed s.builder regs (cells.map Prod.fst))
    (values : Forall₂ (fun r w => s.frame.value r = w) regs (cells.map Prod.snd))
    (normal : ∀ cell ∈ cells, cell.1.normalize cell.2 = cell.2) : s.ReadsAll regs cells := by
  induction cells generalizing regs with
  | nil => cases typed; exact .nil
  | cons cell cells ih =>
    cases typed with
    | cons headTyped typed =>
      cases values with
      | cons headValue values =>
        exact .cons ⟨headTyped, headValue, normal cell (mem_cons_self ..)⟩
          (ih typed values fun cell' member => normal cell' (mem_cons_of_mem _ member))

/-- The phis hold the words that came in over the edge. -/
theorem Point.afterPhis_reads (adds : start.AddsPhis b regs entries) (within : b.Within host.function host.program)
    (types : cells.map Prod.fst = entries.map Prod.fst) (normal : ∀ cell ∈ cells, cell.1.normalize cell.2 = cell.2)
    (frameSize : frame.size = host.function.types.size) :
    (Point.afterPhis start b (cells.map Prod.snd) frame m).ReadsAll regs cells := by
  have length : cells.length = entries.length := by simpa using congrArg List.length types
  have bound : start.function.types.size + (cells.map Prod.snd).length ≤ frame.size := by
    have inHost := within.types.length_le
    have size := congrArg List.length adds.appends.newTypes
    simp only [Array.length_toList, length_append, length_map] at size inHost ⊢
    omega
  refine .of_typed (types ▸ Emit.Typed.of_phis adds) ?_ normal
  have values := assignPhis_values bound
  rwa [length_map, length, ← adds.regs_eq] at values

/-- A jump to a block that starts with phis. -/
theorem Host.Steps.jump (ends : source.EndsWith host.function (.jump b.current)) (adds : start.AddsPhis b regs entries)
    (empty : start.lines = []) (within : b.Within host.function host.program)
    (edges : Forall₂ (fun entry r => entry.2.lookup source.current = some r) entries incoming) :
    host.Steps ⟨source, frame, m⟩ (Point.afterPhis start b (incoming.map frame.value) frame m) := by
  obtain ⟨_, _, _, found, lines, refines, plain⟩ := within.current
  have newLines := adds.appends.newLines
  rw [empty, nil_append] at newLines
  rw [newLines] at refines
  refine ⟨1, fun limit => ?_⟩
  rw [resume, ends.follow, follow, runFrom_phis _ _ found lines refines plain edges, resume,
    ← newLines]
  rfl

/-- A branch to a block without phis. -/
theorem Host.Steps.branch {source side : Builder} {thenBlock elseBlock : Label}
    (ends : source.EndsWith host.function (.branch cond thenBlock elseBlock))
    (within : side.Within host.function host.program) (empty : side.lines = [])
    (chosen : (if frame.isSet cond then thenBlock else elseBlock) = side.current) :
    host.Steps ⟨source, frame, m⟩ ⟨side, frame, m⟩ := by
  refine ⟨1, fun limit => ?_⟩
  rw [resume, ends.follow, follow, chosen, within.enter empty]
  rfl

end

namespace Emit

open Builder

theorem Typed.of_reads (reads : s.ReadsAll regs cells) : Typed s.builder regs (cells.map Prod.fst) := by
  induction reads with
  | nil => exact .nil
  | cons head _ ih => exact .cons head.typed ih

section

variable {types : List CodeType} {first second : List Reg}

/-- Merged values of one number come in pairs. -/
theorem mergeEntries_induction {p : List (CodeType × List (Label × Reg)) → List CodeType → List Reg → List Reg → Prop}
    (nil : p [] [] [] [])
    (cons : ∀ {ty r r' entries types first second}, p entries types first second →
      p ((ty, [(firstEnd, r), (secondEnd, r')]) :: entries) (ty :: types) (r :: first) (r' :: second))
    (firstLength : first.length = types.length) (secondLength : second.length = types.length) :
    p (mergeEntries firstEnd secondEnd types first second) types first second := by
  induction types generalizing first second with
  | nil =>
    cases eq_nil_of_length_eq_zero firstLength
    cases eq_nil_of_length_eq_zero secondLength
    exact nil
  | cons ty types ih =>
    cases first with
    | nil => cases firstLength
    | cons r first =>
      cases second with
      | nil => cases secondLength
      | cons r' second => exact cons (ih (by simpa using firstLength) (by simpa using secondLength))

theorem mergeEntries_types (firstEnd secondEnd : Label) (firstLength : first.length = types.length)
    (secondLength : second.length = types.length) :
    (mergeEntries firstEnd secondEnd types first second).map Prod.fst = types :=
  mergeEntries_induction (p := fun entries types _ _ => entries.map Prod.fst = types) rfl (congrArg _) firstLength
    secondLength

theorem mergeEntries_first (firstLength : first.length = types.length) (secondLength : second.length = types.length) :
    Forall₂ (fun entry r => entry.2.lookup firstEnd = some r)
      (mergeEntries firstEnd secondEnd types first second) first :=
  mergeEntries_induction (p := fun entries _ first _ => Forall₂ _ entries first) .nil (.cons (by simp)) firstLength
    secondLength

theorem mergeEntries_second (different : secondEnd ≠ firstEnd) (firstLength : first.length = types.length)
    (secondLength : second.length = types.length) :
    Forall₂ (fun entry r => entry.2.lookup secondEnd = some r)
      (mergeEntries firstEnd secondEnd types first second) second :=
  mergeEntries_induction (p := fun entries _ _ second => Forall₂ _ entries second) .nil
    (.cons (by simp [lookup_cons, beq_eq_false_iff_ne.mpr different])) firstLength secondLength

end

namespace Branches

variable {α β : Type} {thenCode : Emit (List Reg × α)} {elseCode : α → Emit (List Reg × β)} {b' : Builder}
  {merged : List Reg} {y : β} [Growing thenCode] [∀ x, Growing (elseCode x)]
  (branches : Branches cond thenCode elseCode b merged y b')

theorem ends_differ : branches.elseEnd.current ≠ branches.thenEnd.current := by
  intro same
  have thenAt := branches.part.stop_current
  have thenLess := branches.part.grows.ready.current_lt
  rcases branches.elseGrows.current_or_new with old | new
  · rw [same] at old
    rw [old] at thenAt
    change b.function.blocks.size + 1 = _ ∨ _ ≤ b.function.blocks.size + 1 at thenAt
    omega
  · rw [same, elseStart, goTo_size] at new
    omega

/-- From the end of a side the run comes to where its values have been merged. -/
theorem arrive (within : b'.Within host.function host.program) (here : s.Placed host)
    (ends : s.builder.EndsWith host.function (.jump ⟨b.function.blocks.size + 2⟩))
    (more : s.builder.function.types.toList <+: branches.elseEnd.function.types.toList)
    (typed : Typed branches.elseEnd values branches.types)
    (edges : Forall₂ (fun entry r => entry.2.lookup s.builder.current = some r)
      (mergeEntries branches.thenEnd.current branches.elseEnd.current branches.types branches.thenValues branches.elseValues) values)
    (reads : s.ReadsAll values cells) :
    ∃ s', s'.builder = b' ∧ host.Steps s s' ∧ s.Keeps s' ∧ s'.Placed host ∧ s'.machine = s.machine ∧
      s'.ReadsAll merged cells := by
  have adds := branches.merges
  have types := mergeEntries_types branches.thenEnd.current branches.elseEnd.current branches.thenTyped.length_eq
    branches.elseTyped.length_eq
  have cellTypes := (((Typed.of_reads reads).mono more).unique typed).trans types.symm
  have position : b'.current = ⟨b.function.blocks.size + 2⟩ := adds.appends.position
  have steps : host.Steps s _ := Host.Steps.jump (position ▸ ends) adds branches.mergeStart_lines within edges
  rw [reads.values] at steps
  refine ⟨_, rfl, steps, ?_, ?_, rfl, ?_⟩
  · refine ⟨more.trans adds.appends.extending.types, fun r old => assignPhis_other (.inl ?_)⟩
    have length := more.length_le
    exact Nat.lt_of_lt_of_le old length
  · exact Point.afterPhis_placed branches.mergeStart_ready adds within cellTypes here.frameSize here.slots
  · exact Point.afterPhis_reads adds within cellTypes reads.normal here.frameSize

include branches in
/-- The branch goes to the side that its condition chooses. -/
theorem depart (within : b'.Within host.function host.program) (sideWithin : side.Within host.function host.program)
    (empty : side.lines = [])
    (chosen : (if frame.isSet cond then ⟨b.function.blocks.size⟩ else ⟨b.function.blocks.size + 1⟩) = side.current) :
    host.Steps ⟨b, frame, m⟩ ⟨side, frame, m⟩ := by
  obtain ⟨_, ends⟩ := Within.of_goTo branches.ready.withBlocks (branches.thenStart_within within).toSealed
  have start : host.Steps ⟨b, frame, m⟩ ⟨b.withBlocks, frame, m⟩ :=
    .unlined rfl (withBlocks_lines branches.ready)
  exact start.trans (.branch ends sideWithin empty chosen)

/-- What a run does in one side of a branch: it comes to where the side starts, and goes on from where it ends. -/
structure Side (host : Host) (s : Point) (start stop : Builder) (values merged : List Reg) (b' : Builder) : Prop where
  here : Point.Placed host ⟨start, s.frame, s.machine⟩
  steps : host.Steps s ⟨start, s.frame, s.machine⟩
  keeps : s.Keeps ⟨start, s.frame, s.machine⟩
  within : stop.Within host.function host.program
  leaves : ∀ {s' cells}, s'.builder = stop → s'.Placed host → s'.ReadsAll values cells →
    ∃ s'', s''.builder = b' ∧ host.Steps s' s'' ∧ s'.Keeps s'' ∧ s''.Placed host ∧ s''.machine = s'.machine ∧
      s''.ReadsAll merged cells

section

variable (branches : Branches cond thenCode elseCode s.builder merged y b')
  (within : b'.Within host.function host.program) (here : s.Placed host)

include within here

theorem thenTaken (set : s.frame.isSet cond = true) :
    Side host s branches.thenStart branches.thenEnd branches.thenValues merged b' := by
  obtain ⟨endWithin, ends⟩ := branches.thenEnd_within within
  have startWithin := branches.thenStart_within within
  refine ⟨⟨branches.thenStart_ready, startWithin, here.frameSize, here.slots⟩,
    branches.depart within startWithin branches.ready.opened_lines (by rw [set]; rfl), ⟨prefix_refl _, fun _ _ => rfl⟩,
    endWithin, ?_⟩
  intro s' cells atEnd here' reads
  exact branches.arrive within here' (atEnd ▸ ends) (atEnd ▸ branches.elseGrows.types) branches.thenTyped
    (atEnd ▸ mergeEntries_first branches.thenTyped.length_eq branches.elseTyped.length_eq) reads

theorem elseTaken (unset : s.frame.isSet cond = false) :
    Side host s branches.elseStart branches.elseEnd branches.elseValues merged b' := by
  obtain ⟨endWithin, ends⟩ := branches.elseEnd_within within
  have startWithin := branches.elseStart_within within
  refine ⟨⟨branches.elseStart_ready, startWithin, here.frameSize, here.slots⟩,
    branches.depart within startWithin branches.part.next_lines (by rw [unset]; rfl),
    ⟨branches.part.grows.types, fun _ _ => rfl⟩, endWithin, ?_⟩
  have edges := mergeEntries_second branches.ends_differ branches.thenTyped.length_eq branches.elseTyped.length_eq
  intro s' cells atEnd here' reads
  exact branches.arrive within here' (atEnd ▸ ends) (atEnd ▸ prefix_refl _) branches.elseTyped (atEnd ▸ edges) reads

end

end Branches

end Emit

namespace Host.Attains

open Emit

/-- A side of a branch is run, and of its registers only the merged ones are seen later. -/
theorem through {code : Emit (List Reg × α)} (here : s.At host)
    (side : Branches.Side host s start stop values merged b') (emitted : code start = .ok (values, x) stop)
    (run : ∀ s', s.Before s' → s'.machine = s.machine →
      host.Attains code s' fun result s'' => ∃ cells, s''.ReadsAll result.1 cells ∧ post cells s''.machine) :
    ∃ s', s'.builder = b' ∧ host.Steps s s' ∧ s.Before s' ∧ s'.At host ∧
      ∃ cells, s'.ReadsAll merged cells ∧ post cells s'.machine := by
  have before1 := side.keeps.before rfl
  obtain ⟨_, builder2, steps2, before2, here2, cells, reads2, holds⟩ :=
    run _ before1 rfl _ _ emitted side.within ⟨side.here, here.program, here.routines⟩
  obtain ⟨s3, builder3, steps3, keeps3, here3, machine3, reads3⟩ := side.leaves builder2 here2.toPlaced reads2
  exact ⟨s3, builder3, side.steps.trans (steps2.trans steps3), before1.trans (before2.trans (keeps3.before machine3)),
    ⟨here3, machine3 ▸ here2.program, here2.routines⟩, cells, reads3, machine3 ▸ holds⟩

/-- A branch, of which the side that its condition chooses is run. -/
theorem ifThenElseWith {elseCode : α → Emit (List Reg × β)} [Growing thenCode] [∀ x, Growing (elseCode x)]
    (chooses : s.Bit cond flag) (thenRun : flag = true → ∀ s', s.Before s' → s'.machine = s.machine →
      host.Attains thenCode s' fun result s'' => ∃ cells, s''.ReadsAll result.1 cells ∧ post cells s''.machine)
    (elseRun : flag = false → ∀ x s', s.Before s' → s'.machine = s.machine →
      host.Attains (elseCode x) s' fun result s'' => ∃ cells, s''.ReadsAll result.1 cells ∧ post cells s''.machine) :
    host.Attains (Emit.ifThenElseWith cond thenCode elseCode) s fun result s' =>
      ∃ cells, s'.ReadsAll result.1 cells ∧ post cells s'.machine := by
  rintro ⟨_, y⟩ b' emitted within here
  obtain ⟨branches⟩ := ifThenElseWith_ok here.ready emitted
  cases flag with
  | true => exact through here (branches.thenTaken within here.toPlaced chooses.isSet) branches.thenSide (thenRun rfl)
  | false =>
    exact through here (branches.elseTaken within here.toPlaced chooses.isSet) branches.elseSide (elseRun rfl branches.x)

theorem ifThenElse [Growing thenCode] [Growing elseCode] (post : List (CodeType × Word) → Machine → Prop)
    (chooses : s.Bit cond flag)
    (thenRun : flag = true → ∀ s', s.Before s' → s'.machine = s.machine →
      host.Attains thenCode s' fun regs s'' => ∃ cells, s''.ReadsAll regs cells ∧ post cells s''.machine)
    (elseRun : flag = false → ∀ s', s.Before s' → s'.machine = s.machine →
      host.Attains elseCode s' fun regs s'' => ∃ cells, s''.ReadsAll regs cells ∧ post cells s''.machine) :
    host.Attains (Emit.ifThenElse cond thenCode elseCode) s fun regs s' =>
      ∃ cells, s'.ReadsAll regs cells ∧ post cells s'.machine := by
  refine (ifThenElseWith chooses (fun set s' before machine => .map (thenRun set s' before machine))
    fun unset _ s' before machine => .map (elseRun unset s' before machine)).bind fun result s' _ holds => ?_
  exact .pure holds

/-- Code that is run only if a bit is set. -/
theorem ifThen [Growing code] (post : Machine → Prop) (chooses : s.Bit cond flag)
    (run : flag = true → ∀ s', s.Before s' → s'.machine = s.machine → host.Attains code s' fun _ s'' => post s''.machine)
    (skip : flag = false → post s.machine) :
    host.Attains (Emit.ifThen cond code) s fun _ s' => post s'.machine := by
  have both : host.Attains (Emit.ifThenElseWith cond (([], ·) <$> code) fun a => return ([], a)) s fun result s' =>
      ∃ cells, s'.ReadsAll result.1 cells ∧ post s'.machine :=
    ifThenElseWith chooses
      (fun set s' before machine => .map ((run set s' before machine).mono fun _ _ _ holds => ⟨[], .nil, holds⟩))
      fun unset _ s' _ machine => .pure ⟨[], .nil, machine ▸ skip unset⟩
  exact both.bind fun _ _ _ ⟨_, _, holds⟩ => .pure holds

end Host.Attains

end QueryEngine
