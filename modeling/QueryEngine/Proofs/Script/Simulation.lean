import QueryEngine.Proofs.Execution.Loops
import QueryEngine.Proofs.Script.Emission

namespace QueryEngine

variable {β : Type} {limit : Nat} {s : Point} {f : Site → Site}

namespace Host.Simulates

open Emit Run

variable {α γ : Type} {host : Host}

/-- A side of a branch is run. -/
theorem through {code : Emit (List Reg × α)} {r : List Cell → Prop} (side : Branches.Side host s start stop values merged b')
    (emitted : code start = .ok (values, x) stop)
    (run : host.Simulates limit code ⟨start, s.frame, s.machine⟩ action fun result cells s'' =>
      s''.ReadsAll result.1 cells ∧ r cells) :
    host.Follows limit s (action s.machine) fun cells m => ∃ s', s'.builder = b' ∧ host.Steps s s' ∧ s.Keeps s' ∧
      s'.Placed host ∧ s'.machine = m ∧ s'.ReadsAll merged cells ∧ r cells := by
  refine (run _ _ emitted side.within side.here).after side.steps fun cells m => ?_
  rintro ⟨_, builder2, steps2, keeps2, here2, machine2, reads2, holds⟩
  obtain ⟨s3, builder3, steps3, keeps3, here3, machine3, reads3⟩ := side.leaves builder2 here2 reads2
  exact ⟨s3, builder3, side.steps.trans (steps2.trans steps3), side.keeps.trans (keeps2.trans keeps3), here3,
    machine3.trans machine2, reads3, holds⟩

/-- A branch, of which the side that its condition chooses is run. -/
theorem ifThenElseWith {cond : Reg} {c : Cell} {thenCode : Emit (List Reg × α)} {elseCode : α → Emit (List Reg × β)}
    [Growing thenCode] [∀ x, Growing (elseCode x)] {thenRun elseRun : Run (List Cell)} {p : α → Prop}
    {q : β → Prop} {r : List Cell → Prop} (chooses : s.Reads cond c.1 c.2) (moves : Moves thenCode f)
    (given : Gives thenCode fun result => p result.2) (given' : ∀ x, p x → Gives (elseCode x) fun result => q result.2)
    (thenSide : ∀ s', s.Keeps s' → s'.builder.site = s.builder.site.first →
      host.Simulates limit thenCode s' thenRun fun result cells s'' => s''.ReadsAll result.1 cells ∧ r cells)
    (elseSide : ∀ x s', p x → s.Keeps s' → s'.builder.site = s.builder.site.second (f s.builder.site.first) →
      host.Simulates limit (elseCode x) s' elseRun fun result cells s'' => s''.ReadsAll result.1 cells ∧ r cells) :
    host.Simulates limit (Emit.ifThenElseWith cond thenCode elseCode) s (if c.isSet then thenRun else elseRun)
      fun result cells s' => q result.2 ∧ s'.ReadsAll result.1 cells ∧ r cells := by
  refine .weaken ?_ fun _ x _ _ emitted _ holds => ⟨Gives.ifThenElseWith given given' _ x _ emitted, holds⟩
  rintro ⟨_, y⟩ b' emitted within here
  obtain ⟨branches⟩ := ifThenElseWith_ok here.ready emitted
  have isSet : s.frame.isSet cond = c.isSet := by rw [Frame.isSet, chooses.value, Cell.isSet]
  cases flag : c.isSet with
  | true =>
    have side := branches.thenTaken within here (isSet.trans flag)
    exact through side branches.thenSide (thenSide _ side.keeps (Moves.thenStart branches))
  | false =>
    have side := branches.elseTaken within here (isSet.trans flag)
    exact through side branches.elseSide (elseSide branches.x _ (given _ _ _ branches.thenSide) side.keeps
      (Moves.elseStart branches moves))

section Loops

variable {init : List Reg} {cond : List Reg → Emit (Reg × α)} {body : α → List Reg → Emit (List Reg × β)}
  [∀ values, Growing (cond values)] [∀ x values, Growing (body x values)] {condRun : List Cell → Run (Cell × γ)}
  {bodyRun : γ → List Cell → Run (List Cell)} {p : α → γ → Point → Prop} {v : List Cell}
  (moves : ∀ values, Moves (cond values) f) (carry : ∀ x y s' s'', s'.Keeps s'' → p x y s' → p x y s'')
  (condSide : ∀ regs cells s', s.Keeps s' → s'.builder.site = s.builder.site.first → s'.ReadsAll regs cells → cells.map Prod.fst = v.map Prod.fst → host.Simulates limit (cond regs) s' (condRun cells) fun result y s'' => s''.Reads result.1 y.1.1 y.1.2 ∧ p result.2 y.2 s'')
  (bodySide : ∀ x y regs cells s', s.Keeps s' → s'.builder.site = s.builder.site.second (f s.builder.site.first) → s'.ReadsAll regs cells → cells.map Prod.fst = v.map Prod.fst → p x y s' → host.Simulates limit (body x regs) s' (bodyRun y cells) fun result cells' s'' => s''.ReadsAll result.1 cells')

include moves carry condSide bodySide

/-- A loop from where its header is entered for the first time or once more. The registers of one time are not seen the
next time, so that points are compared with the one before the loop. -/
theorem loop_follows (loops : Loops init cond body s.builder carried z b')
    (within : b'.Within host.function host.program) (count : Nat) (source : Point)
    (ends : source.builder.EndsWith host.function (.jump ⟨s.builder.function.blocks.size⟩))
    (edge : source.builder.current = s.builder.current ∧ incoming = init ∨
      source.builder.current = loops.bodyEnd.current ∧ incoming = loops.next)
    (frameSize : source.frame.size = host.function.types.size)
    (slots : ∀ slot ∈ host.function.slots.toList, source.frame.value slot.address = host.slots slot.address)
    (keeps : s.Keeps source) (reads : source.ReadsAll incoming cells) (types : cells.map Prod.fst = loops.types)
    (initialTypes : v.map Prod.fst = loops.types) :
    host.Follows (min count limit) source (repeatWhile condRun bodyRun count cells source.machine) fun y m =>
      ∃ s', s'.builder = b' ∧ host.Steps source s' ∧ s.Keeps s' ∧ s'.Placed host ∧ s'.machine = m ∧
        s'.ReadsAll carried y.1 ∧ y.1.map Prod.fst = v.map Prod.fst ∧ p loops.x y.2 s' := by
  obtain ⟨condWithin, _⟩ := loops.condEnd_within within
  obtain ⟨bodyWithin, bodyEnds⟩ := loops.bodyEnd_within within
  induction count generalizing source incoming cells with
  | zero =>
    refine ⟨fun _ _ => nofun, fun _ => ?_, fun other => absurd rfl other⟩
    rw [Nat.zero_min, Host.resume, ends.follow]
    trivial
  | succ count ih =>
    obtain ⟨header, atHeader, enters, keeps1, here1, machine1, reads1⟩ :=
      loops.enter within keeps ends edge frameSize slots reads types
    have sameTypes := types.trans initialTypes.symm
    have site : header.builder.site = s.builder.site.first := atHeader ▸ Moves.header loops
    have follows := condSide carried cells _ keeps1 site reads1 sameTypes _ _ (atHeader ▸ loops.condition) condWithin here1
    rw [machine1] at follows
    rw [repeatWhile]
    cases ran : condRun cells source.machine with
    | error fault m =>
      rw [ran] at follows
      simp only [Bind.bind, EStateM.bind, ran]
      exact (Stops.of_steps ⟨1, enters⟩ follows).of_le (Nat.min_le_right _ _)
    | ok result m =>
      obtain ⟨c, y⟩ := result
      rw [ran] at follows
      rw [bind_of_ok ran]
      obtain ⟨s1, builder1, steps1, before1, here2, rfl, bit, holds⟩ := follows
      have isSet : s1.frame.isSet loops.continues = c.isSet := by rw [Frame.isSet, bit.value, Cell.isSet]
      dsimp only
      cases flag : c.isSet with
      | false =>
        obtain ⟨leaves, keeps2, here3⟩ := loops.leaves within here2 builder1 (isSet.trans flag)
        exact ⟨_, rfl, Steps.trans ⟨1, enters⟩ (steps1.trans leaves), keeps1.trans (before1.trans keeps2), here3, rfl,
          reads1.kept (before1.trans keeps2), sameTypes, carry _ _ _ _ keeps2 holds⟩
      | true =>
        rw [if_pos rfl]
        obtain ⟨continues, keeps2, here3⟩ := loops.goesOn within here2 builder1 (isSet.trans flag)
        have toBody := keeps1.trans (before1.trans keeps2)
        have follows' := bodySide loops.x y carried cells _ toBody (Moves.bodyStart loops moves)
          (reads1.kept (before1.trans keeps2)) sameTypes (carry _ _ _ _ keeps2 holds) _ _ loops.bodySide bodyWithin here3
        cases ran' : bodyRun y cells s1.machine with
        | error fault m' =>
          rw [ran'] at follows'
          simp only [Bind.bind, EStateM.bind, ran']
          exact (Stops.of_steps (Steps.trans ⟨1, enters⟩ (steps1.trans continues)) follows').of_le
            (Nat.min_le_right _ _)
        | ok cells' m' =>
          rw [ran'] at follows'
          rw [bind_of_ok ran']
          obtain ⟨s3, builder3, steps3, keeps3, here4, machine3, reads3⟩ := follows'
          have types' : cells'.map Prod.fst = loops.types :=
            (builder3 ▸ Typed.of_reads reads3 : Typed loops.bodyEnd _ _).unique loops.nextTyped
          have again := ih s3 (builder3 ▸ bodyEnds) (.inr ⟨congrArg Builder.current builder3, rfl⟩) here4.frameSize
            here4.slots (toBody.trans keeps3) reads3 types'
          rw [machine3] at again
          have around := steps1.trans (continues.trans steps3)
          revert again
          cases repeatWhile condRun bodyRun count cells' m' with
          | error fault m'' =>
            intro stops
            exact (Stops.of_entry enters (.of_steps around stops)).of_le (by omega)
          | ok result m'' =>
            rintro ⟨s5, builder5, steps5, rest⟩
            exact ⟨s5, builder5, Steps.trans ⟨1, enters⟩ (around.trans steps5), rest⟩

/-- A loop, which is run as often as its condition holds. -/
theorem whileLoopWith {q : α → List Reg → β → Prop} (reads : s.ReadsAll init v)
    (given : ∀ x values, Gives (body x values) fun result => q x values result.2) (count : Nat)
    (enough : limit ≤ count) :
    host.Simulates limit (Emit.whileLoopWith init cond body) s (repeatWhile condRun bodyRun count v)
      fun result y s' => s'.ReadsAll result.1 y.1 ∧ y.1.map Prod.fst = v.map Prod.fst ∧
        ∃ x, p x y.2 s' ∧ q x result.1 result.2 := by
  rintro ⟨carried, z⟩ b' emitted within here
  obtain ⟨loops⟩ := whileLoopWith_ok here.ready emitted
  obtain ⟨_, leaves⟩ := loops.start_within within
  have start : host.Steps s ⟨s.builder.withBlocks, s.frame, s.machine⟩ :=
    .unlined rfl (Builder.withBlocks_lines here.ready)
  have keeps : s.Keeps ⟨s.builder.withBlocks, s.frame, s.machine⟩ := ⟨List.prefix_refl _, fun _ _ => rfl⟩
  have types : v.map Prod.fst = loops.types := loops.init_types (.of_reads reads)
  have follows := loop_follows moves carry condSide bodySide loops within count
    ⟨s.builder.withBlocks, s.frame, s.machine⟩ leaves (.inl ⟨rfl, rfl⟩) here.frameSize
    here.slots keeps (reads.kept keeps) types types
  rw [Nat.min_eq_right enough] at follows
  refine follows.after start fun y m => ?_
  rintro ⟨s', builder, steps, keeps', here', machine, reads', sameTypes, holds⟩
  have named : q loops.x carried z := given _ _ _ _ _ loops.bodySide
  exact ⟨s', builder, start.trans steps, keeps', here', machine, reads', sameTypes, loops.x, holds, named⟩

end Loops

end Host.Simulates

end QueryEngine
