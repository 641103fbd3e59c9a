import QueryEngine.Proofs.Execution.Branches

set_option synthInstance.maxSize 256

namespace QueryEngine

variable {cells : List (CodeType × Word)} {types : List CodeType} {α β : Type} {init : List Reg}
  {cond : List Reg → Emit (Reg × α)} {body : α → List Reg → Emit (List Reg × β)} {host : Host} {s : Point}

namespace Emit

open Builder

theorem carryEntries_types (preheader : Label) (length : init.length = types.length) :
    (carryEntries preheader types init).map Prod.fst = types := by
  induction types generalizing init with
  | nil => rfl
  | cons ty types ih =>
    cases init with
    | nil => cases length
    | cons r init => rw [carryEntries, List.map_cons, ih (by simpa using length)]

/-- The edges of the phis of a loop: one from before it, and one from the end of its body. -/
theorem latchEntries_edges (different : latch ≠ preheader) (initLength : init.length = types.length)
    (nextLength : next.length = types.length) :
    List.Forall₂ (fun entry r => entry.2.lookup preheader = some r)
        (latchEntries latch (carryEntries preheader types init) next) init ∧
      List.Forall₂ (fun entry r => entry.2.lookup latch = some r)
        (latchEntries latch (carryEntries preheader types init) next) next := by
  induction types generalizing init next with
  | nil =>
    cases List.eq_nil_of_length_eq_zero initLength
    cases List.eq_nil_of_length_eq_zero nextLength
    exact ⟨.nil, .nil⟩
  | cons ty types ih =>
    cases init with
    | nil => cases initLength
    | cons r init =>
      cases next with
      | nil => cases nextLength
      | cons r' next =>
        obtain ⟨first, second⟩ := @ih init next (by simpa using initLength) (by simpa using nextLength)
        refine ⟨.cons (by simp) first, .cons ?_ second⟩
        simp [List.lookup_cons, beq_eq_false_iff_ne.mpr different]

namespace Loops

variable {b b' : Builder} {carried : List Reg} {y : β} [∀ values, Growing (cond values)]
  [∀ x values, Growing (body x values)] (loops : Loops init cond body b carried y b')

theorem latch_ne : loops.bodyEnd.current ≠ b.current := by
  intro same
  have bound := loops.ready.current_lt
  have bodyAt := loops.part.last_current loops.bodyGrows
  rw [same] at bodyAt
  omega

theorem carried_types (typed : Typed loops.header init types)
    (adds : loops.entry.AddsPhis loops.header carried (carryEntries b.current types init)) : types = loops.types := by
  have atHeader := Typed.of_phis adds
  rw [carryEntries_types _ typed.length_eq] at atHeader
  have later := loops.part.grows.types.trans loops.bodyGrows.types
  exact (atHeader.mono later).unique loops.carriedTyped

/-- The entry of the header: its phis get the words of the edge it is entered by. -/
theorem resume_enter (within : b'.Within host.function host.program)
    (ends : source.EndsWith host.function (.jump ⟨b.function.blocks.size⟩))
    (edge : source.current = b.current ∧ incoming = init ∨ source.current = loops.bodyEnd.current ∧ incoming = loops.next)
    (limit : Nat) :
    host.resume (limit + 1) ⟨source, frame, m⟩ =
      host.resume limit (Point.afterPhis loops.entry loops.header (incoming.map frame.value) frame m) := by
  obtain ⟨types, _, _, _, _, latch⟩ := loops.latched
  obtain rfl := loops.carried_types latch.typed latch.adds
  obtain ⟨fromStart, fromLatch⟩ :=
    latchEntries_edges loops.latch_ne latch.typed.length_eq loops.nextTyped.length_eq
  obtain ⟨final, atFinal, _, refines⟩ := within.ended latch.found' latch.ended'
  rw [latch.lines'] at refines
  obtain ⟨_, plainLines, lines, phiRefines, plainRefines⟩ := refines.split
  have plain : ∀ line ∈ plainLines, line.instruction.isPhi = false := by
    rw [plainRefines.eq_of_plain latch.plain]
    exact latch.plain
  have edges : List.Forall₂ (fun entry r => entry.2.lookup source.current = some r)
      (latchEntries loops.bodyEnd.current (carryEntries b.current loops.types init) loops.next) incoming := by
    rcases edge with ⟨arrived, rfl⟩ | ⟨arrived, rfl⟩
    · rw [arrived]; exact fromStart
    · rw [arrived]; exact fromLatch
  have length : (phiLines b.function.types.size (latchEntries loops.bodyEnd.current
      (carryEntries b.current loops.types init) loops.next)).length = loops.header.lines.length := by
    rw [← (latchEntries_refines _ _ _ _).length_eq, latch.adds.appends.newLines, loops.entry_lines]
    rfl
  have position : loops.header.current = ⟨b.function.blocks.size⟩ := latch.adds.appends.position
  have atHeader : host.function.blocks[loops.header.current.index]? = some final := by
    rw [position]
    exact atFinal
  rw [← position] at ends
  rw [Host.resume, ends.follow, Run.follow, Run.runFrom_phis _ _ atHeader lines phiRefines plain edges, length]
  rfl

/-- Where the header is entered, from before the loop or from the end of its body. -/
theorem enter {s source : Point} (loops : Loops init cond body s.builder carried y b')
    (within : b'.Within host.function host.program) (keeps : s.Keeps source) {incoming : List Reg}
    (ends : source.builder.EndsWith host.function (.jump ⟨s.builder.function.blocks.size⟩))
    (edge : source.builder.current = s.builder.current ∧ incoming = init ∨
      source.builder.current = loops.bodyEnd.current ∧ incoming = loops.next)
    (frameSize : source.frame.size = host.function.types.size)
    (slots : ∀ slot ∈ host.function.slots.toList, source.frame.value slot.address = host.slots slot.address)
    (reads : source.ReadsAll incoming cells) (types : cells.map Prod.fst = loops.types) :
    ∃ header, header.builder = loops.header ∧ (∀ more, host.resume (more + 1) source = host.resume more header) ∧
      s.Keeps header ∧ header.Placed host ∧ header.machine = source.machine ∧ header.ReadsAll carried cells := by
  obtain ⟨_, _, _, _, _, latch⟩ := loops.latched
  obtain rfl := loops.carried_types latch.typed latch.adds
  have enters (more : Nat) : host.resume (more + 1) source = _ :=
    loops.resume_enter within (m := source.machine) ends edge more
  rw [reads.values] at enters
  have cellTypes := types.trans (carryEntries_types s.builder.current latch.typed.length_eq).symm
  exact ⟨_, rfl, enters, ⟨latch.adds.appends.extending.types,
      fun r old => (Run.assignPhis_other (.inl old)).trans (keeps.frame r old)⟩,
    Point.afterPhis_placed loops.entry_ready latch.adds (loops.header_within within) cellTypes frameSize slots, rfl,
    Point.afterPhis_reads latch.adds (loops.header_within within) cellTypes reads.normal frameSize⟩

theorem init_types (typed : Typed b init types) : types = loops.types := by
  obtain ⟨_, _, _, _, _, latch⟩ := loops.latched
  obtain rfl := loops.carried_types latch.typed latch.adds
  exact (typed.mono latch.adds.appends.extending.types).unique latch.typed

section

variable (within : b'.Within host.function host.program) (here : s.Placed host) (atEnd : s.builder = loops.condEnd)

include within here atEnd

/-- The loop is left where its condition does not hold. -/
theorem leaves (unset : s.frame.isSet loops.continues = false) : host.Steps s ⟨b', s.frame, s.machine⟩ ∧
    s.Keeps ⟨b', s.frame, s.machine⟩ ∧ Point.Placed host ⟨b', s.frame, s.machine⟩ := by
  obtain ⟨_, _, _, _, _, latch⟩ := loops.latched
  obtain ⟨_, ends⟩ := loops.condEnd_within within
  exact ⟨.branch (atEnd ▸ ends) within loops.exit_lines (by rw [unset]; exact latch.position.symm),
    ⟨atEnd ▸ loops.bodyGrows.types.trans latch.others.types, fun _ _ => rfl⟩,
    loops.exit_ready, within, here.frameSize, here.slots⟩

/-- The body is entered where the condition holds. -/
theorem goesOn (set : s.frame.isSet loops.continues = true) : host.Steps s ⟨loops.bodyStart, s.frame, s.machine⟩ ∧
    s.Keeps ⟨loops.bodyStart, s.frame, s.machine⟩ ∧ Point.Placed host ⟨loops.bodyStart, s.frame, s.machine⟩ := by
  obtain ⟨_, ends⟩ := loops.condEnd_within within
  have bodyWithin := loops.bodyStart_within within
  exact ⟨.branch (atEnd ▸ ends) bodyWithin loops.part.next_lines (by rw [set]; rfl),
    ⟨atEnd ▸ List.prefix_refl _, fun _ _ => rfl⟩, loops.bodyStart_ready, bodyWithin, here.frameSize, here.slots⟩

end

end Loops

end Emit

namespace Host.Attains

open Emit

variable [∀ values, Growing (cond values)] [∀ x values, Growing (body x values)]
  (inv : Nat → List (CodeType × Word) → Machine → Prop)
  (condRun : ∀ n regs cells s', s.Before s' → s'.ReadsAll regs cells → inv n cells s'.machine → host.Attains (cond regs) s' fun result s'' => s''.Bit result.1 (n ≠ 0) ∧ inv n cells s''.machine)
  (bodyRun : ∀ n regs cells x s', s.Before s' → s'.ReadsAll regs cells → inv (n + 1) cells s'.machine → host.Attains (body x regs) s' fun result s'' => ∃ cells', s''.ReadsAll result.1 cells' ∧ inv n cells' s''.machine)

include condRun bodyRun

/-- What a loop does from its header on. The invariant says how many times its body will still be run; the registers of
one time are not seen the next time, so that points are compared with the one before the loop. -/
theorem loop_runs (loops : Loops init cond body s.builder carried y b') (within : b'.Within host.function host.program)
    (n : Nat) (atHeader : header.builder = loops.header) (here : header.At host) (before : s.Before header)
    (reads : header.ReadsAll carried cells) (holds : inv n cells header.machine) :
    ∃ s', s'.builder = b' ∧ host.Steps header s' ∧ s.Before s' ∧ s'.At host ∧
      ∃ cells', s'.ReadsAll carried cells' ∧ inv 0 cells' s'.machine := by
  obtain ⟨condWithin, _⟩ := loops.condEnd_within within
  obtain ⟨bodyWithin, bodyEnds⟩ := loops.bodyEnd_within within
  induction n generalizing header cells with
  | zero =>
    obtain ⟨s1, builder1, steps1, before1, here1, bit, holds1⟩ :=
      condRun 0 carried cells header before reads holds _ _ (atHeader ▸ loops.condition) condWithin here
    obtain ⟨leaves, keeps2, here2⟩ := loops.leaves within here1.toPlaced builder1 bit.isSet
    have before2 := before1.trans (keeps2.before rfl)
    exact ⟨_, rfl, steps1.trans leaves, before.trans before2, ⟨here2, here1.program, here1.routines⟩, cells,
      reads.mono before2, holds1⟩
  | succ n ih =>
    obtain ⟨s1, builder1, steps1, before1, here1, bit, holds1⟩ :=
      condRun (n + 1) carried cells header before reads holds _ _ (atHeader ▸ loops.condition) condWithin here
    obtain ⟨enters, keeps2, here2⟩ := loops.goesOn within here1.toPlaced builder1 bit.isSet
    have before2 := before1.trans (keeps2.before rfl)
    have toBody := before.trans before2
    obtain ⟨_, builder3, steps3, before3, here3, _, reads3, holds3⟩ := bodyRun n carried cells loops.x _ toBody
      (reads.mono before2) holds1 _ _ loops.bodySide bodyWithin ⟨here2, here1.program, here1.routines⟩
    have toEnd := toBody.trans before3
    obtain ⟨_, builder4, back, keeps4, here4, machine4, reads4⟩ := loops.enter within toEnd.toKeeps
      (builder3 ▸ bodyEnds) (.inr ⟨congrArg Builder.current builder3, rfl⟩) here3.frameSize here3.slots reads3
      ((builder3 ▸ Typed.of_reads reads3 : Typed loops.bodyEnd _ _).unique loops.nextTyped)
    obtain ⟨s5, builder5, steps5, before5, here5, result⟩ := ih builder4
      ⟨here4, machine4 ▸ here3.program, here3.routines⟩ ⟨keeps4, machine4 ▸ toEnd.texts⟩ reads4 (machine4 ▸ holds3)
    exact ⟨s5, builder5, steps1.trans (enters.trans (steps3.trans (.trans ⟨1, back⟩ steps5))), before5, here5, result⟩

/-- A loop whose body is run as often as the invariant says. -/
theorem whileLoopWith (reads : s.ReadsAll init cells) (count : Nat) (holds : inv count cells s.machine) :
    host.Attains (Emit.whileLoopWith init cond body) s fun result s' =>
      ∃ cells', s'.ReadsAll result.1 cells' ∧ inv 0 cells' s'.machine := by
  rintro ⟨_, y⟩ b' emitted within here
  obtain ⟨loops⟩ := whileLoopWith_ok here.ready emitted
  obtain ⟨_, leaves⟩ := loops.start_within within
  have start : host.Steps s ⟨s.builder.withBlocks, s.frame, s.machine⟩ :=
    .unlined rfl (Builder.withBlocks_lines here.ready)
  have keeps : s.Keeps ⟨s.builder.withBlocks, s.frame, s.machine⟩ := ⟨List.prefix_refl _, fun _ _ => rfl⟩
  obtain ⟨_, builder1, enters, keeps1, here1, machine1, reads1⟩ := loops.enter within keeps leaves
    (.inl ⟨rfl, rfl⟩) here.frameSize here.slots (reads.kept keeps) (loops.init_types (.of_reads reads))
  obtain ⟨s2, builder2, steps2, before2, here2, result⟩ := loop_runs inv condRun bodyRun loops within count builder1
    ⟨here1, machine1 ▸ here.program, here.routines⟩ (keeps1.before machine1) reads1 (machine1 ▸ holds)
  exact ⟨s2, builder2, start.trans (.trans ⟨1, enters⟩ steps2), before2, here2, result⟩

omit condRun bodyRun [∀ values, Growing (cond values)] [∀ x values, Growing (body x values)] in
theorem whileLoop {cond : List Reg → Emit Reg} {body : List Reg → Emit (List Reg)} [∀ values, Growing (cond values)]
    [∀ values, Growing (body values)] (reads : s.ReadsAll init cells) (count : Nat) (holds : inv count cells s.machine)
    (condRun : ∀ n regs cells s', s.Before s' → s'.ReadsAll regs cells → inv n cells s'.machine →
      host.Attains (cond regs) s' fun bit s'' => s''.Bit bit (n ≠ 0) ∧ inv n cells s''.machine)
    (bodyRun : ∀ n regs cells s', s.Before s' → s'.ReadsAll regs cells → inv (n + 1) cells s'.machine →
      host.Attains (body regs) s' fun next s'' => ∃ cells', s''.ReadsAll next cells' ∧ inv n cells' s''.machine) :
    host.Attains (Emit.whileLoop init cond body) s fun carried s' =>
      ∃ cells', s'.ReadsAll carried cells' ∧ inv 0 cells' s'.machine := by
  refine (whileLoopWith inv
    (fun n regs cells s' before reads holds => .map (condRun n regs cells s' before reads holds))
    (fun n regs cells _ s' before reads holds => .map (bodyRun n regs cells s' before reads holds)) reads count
    holds).bind fun result s' _ holds => ?_
  exact .pure holds

omit condRun bodyRun in
/-- A loop over numbers, in order. -/
theorem forRange {start stop : Reg} {first last : Int} {body : Reg → Emit α} [∀ i, Growing (body i)]
    (inv : Int → Machine → Prop) (starts : s.Number start .i64 first) (stops : s.Number stop .i64 last)
    (ordered : first ≤ last) (holds : inv first s.machine)
    (bodyRun : ∀ n i s', s.Before s' → first ≤ n → n < last → s'.Number i .i64 n → inv n s'.machine →
      host.Attains (body i) s' fun _ s'' => inv (n + 1) s''.machine) :
    host.Attains (Emit.forRange start stop body) s fun _ s' => inv last s'.machine := by
  -- What the loop carries is the number; as many runs remain as there are numbers up to the last one.
  let carries (remaining : Nat) (cells : List (CodeType × Word)) (m : Machine) : Prop :=
    ∃ n, cells = [(.i64, Word.ofInt n)] ∧ first ≤ n ∧ n + remaining = last ∧ inv n m
  have fits (n : Int) (least : first ≤ n) (most : n ≤ last) : CodeType.i64.fits n = true := by
    have low := starts.fits
    have high := stops.fits
    simp only [CodeType.fits, Bool.and_eq_true, decide_eq_true_eq] at low high ⊢
    omega
  rw [Emit.forRange_eq]
  have reads : s.ReadsAll [start] [(.i64, Word.ofInt first)] := .cons starts.reads .nil
  refine (whileLoopWith carries ?_ ?_ reads (last - first).toNat
    ⟨first, rfl, Int.le_refl _, by omega, holds⟩).bind fun result s' _ finished => ?_
  · rintro remaining regs _ s' before reads ⟨n, rfl, least, total, holds⟩
    cases reads with
    | cons head tail =>
      cases tail
      refine .map ((compareNumbers rfl ⟨head, fits n least (by omega)⟩ (stops.mono before)).mono ?_)
      rintro bit s'' _ ⟨machine, reads⟩
      refine ⟨?_, n, rfl, least, total, machine ▸ holds⟩
      have same : Predicate.slt.holds n last = decide (remaining ≠ 0) := by
        simp only [Predicate.holds, decide_eq_decide]
        omega
      rwa [same] at reads
  · rintro remaining regs _ _ s' before reads ⟨n, rfl, least, total, holds⟩
    cases reads with
    | @cons i _ _ _ head tail =>
      cases tail
      have number : s'.Number i .i64 n := ⟨head, fits n least (by omega)⟩
      refine (bodyRun n i s' before least (by omega) number holds).bind fun a s1 before1 holds1 => ?_
      refine (constNumber (n := 1) rfl).bind ?_
      rintro one s2 before2 ⟨machine2, oneReads⟩
      refine (binary .add ((number.mono before1).mono before2).reads oneReads.reads).bind ?_
      rintro next s3 before3 ⟨machine3, nextReads⟩
      have sum : CodeType.i64.normalize (BinaryOp.add.apply .i64 (Word.ofInt n) (Word.ofInt 1)) =
          Word.ofInt (n + 1) :=
        (BinaryOp.normalize_apply_exact .add n 1 rfl).trans
          (congrArg Word.ofInt (CodeType.wrap_of_fits (fits (n + 1) (by omega) (by omega))))
      rw [sum] at nextReads
      refine .pure ⟨_, .cons nextReads .nil, n + 1, rfl, by omega, by omega, ?_⟩
      rw [machine3, machine2]
      exact holds1
  · obtain ⟨_, _, n, _, _, total, holds⟩ := finished
    refine .pure ?_
    obtain rfl : n = last := by omega
    exact holds

end Host.Attains

end QueryEngine
