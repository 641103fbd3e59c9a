import QueryEngine.Proofs.Execution.Resume
import QueryEngine.Proofs.Value.Words

namespace QueryEngine

open List

variable {s1 s2 s3 s : Point} {b' : Builder} {lines : List Line} {host : Host} {frame : Frame}

/-- Texts that have an address keep it. -/
structure Machine.KeepsTexts (m m' : Machine) : Prop where
  literals : m.program.literals.Grows m'.program.literals
  heap : m.database.heap.Grows m'.database.heap

theorem Machine.KeepsTexts.refl (m : Machine) : m.KeepsTexts m := ⟨.refl _, .refl _⟩

theorem Machine.KeepsTexts.trans {m1 m2 m3 : Machine} (first : m1.KeepsTexts m2) (second : m2.KeepsTexts m3) :
    m1.KeepsTexts m3 :=
  ⟨first.literals.trans second.literals, first.heap.trans second.heap⟩

variable {ty : CodeType} {w : Word} {r : Reg}

namespace Point

/-- The register has the type and holds the word, which is in the form of that type. -/
structure Reads (s : Point) (r : Reg) (ty : CodeType) (w : Word) : Prop where
  typed : s.builder.function.typeOf? r = some ty
  value : s.frame.value r = w
  normal : ty.normalize w = w

/-- The registers, with their types and words. -/
abbrev ReadsAll (s : Point) : List Reg → List (CodeType × Word) → Prop :=
  List.Forall₂ fun r cell => s.Reads r cell.1 cell.2

/-- Registers keep their values. -/
structure Keeps (s s' : Point) : Prop where
  types : s.builder.function.types.toList <+: s'.builder.function.types.toList
  frame : ∀ r : Reg, r.index < s.builder.function.types.size → s'.frame.value r = s.frame.value r

theorem Keeps.refl (s : Point) : s.Keeps s := ⟨prefix_refl _, fun _ _ => rfl⟩

variable {s' : Point}

theorem Keeps.types_size (keeps : s.Keeps s') : s.builder.function.types.size ≤ s'.builder.function.types.size := by
  simpa using keeps.types.length_le

theorem Keeps.trans (first : s1.Keeps s2) (second : s2.Keeps s3) : s1.Keeps s3 where
  types := first.types.trans second.types
  frame := fun r old =>
    (second.frame r (Nat.lt_of_lt_of_le old first.types_size)).trans (first.frame r old)

theorem Reads.kept (reads : s.Reads r ty w) (keeps : s.Keeps s') : s'.Reads r ty w where
  typed := Emit.typeOf?_mono keeps.types reads.typed
  value := (keeps.frame r (Emit.typeOf?_lt reads.typed)).trans reads.value
  normal := reads.normal

theorem ReadsAll.kept (reads : s.ReadsAll regs cells) (keeps : s.Keeps s') : s'.ReadsAll regs cells :=
  reads.imp fun _ _ reads => reads.kept keeps

/-- A later point: registers keep their values, and texts their addresses. -/
structure Before (s s' : Point) : Prop extends s.Keeps s' where
  texts : s.machine.KeepsTexts s'.machine

theorem Before.refl (s : Point) : s.Before s := ⟨.refl s, .refl _⟩

theorem Before.trans (first : s1.Before s2) (second : s2.Before s3) : s1.Before s3 :=
  ⟨first.toKeeps.trans second.toKeeps, first.texts.trans second.texts⟩

/-- A later point at which the machine is the same. -/
theorem Keeps.before (keeps : s.Keeps s') (machine : s'.machine = s.machine) : s.Before s' :=
  ⟨keeps, by rw [machine]; exact .refl _⟩

theorem Reads.mono (reads : s.Reads r ty w) (before : s.Before s') : s'.Reads r ty w :=
  reads.kept before.toKeeps

theorem ReadsAll.mono (reads : s.ReadsAll regs cells) (before : s.Before s') : s'.ReadsAll regs cells :=
  reads.kept before.toKeeps

theorem ReadsAll.values (reads : s.ReadsAll regs cells) : regs.map s.frame.value = cells.map Prod.snd := by
  induction reads with
  | nil => rfl
  | cons head _ ih => rw [map_cons, map_cons, head.value, ih]

theorem ReadsAll.normal (reads : s.ReadsAll regs cells) : ∀ cell ∈ cells, cell.1.normalize cell.2 = cell.2 := by
  induction reads with
  | nil => nofun
  | cons head _ ih => exact forall_mem_cons.mpr ⟨head.normal, ih⟩

/-- The type of a register is the one it has in the finished function. -/
theorem Reads.typeOf_host (reads : s.Reads r ty w) (here : s.Placed host) : Run.typeOf host.function r = ty := by
  rw [Run.typeOf, Emit.typeOf?_mono here.within.types reads.typed]
  rfl

end Point

/-- Registers that are defined are not those of stack slots. -/
theorem Builder.Within.slot_away {b : Builder} {f : Function} {p : Program}
    (within : b'.Within f p) (ready : b.Ready) (appends : b.Appends b' types lines) {slot : StackSlot}
    (member : slot ∈ f.slots.toList) :
    slot.address.index < b.function.types.size ∨ b'.function.types.size ≤ slot.address.index := by
  obtain ⟨_, slots, late⟩ := within.slots
  rw [slots, mem_append, appends.slots] at member
  exact member.imp (ready.slotBound slot) (late slot)

/-- A point after some more lines. -/
theorem Point.Placed.extend
    (here : s.Placed host) (appends : s.builder.Appends b' types lines) (within : b'.Within host.function host.program)
    (size : frame.size = s.frame.size)
    (agrees : ∀ r : Reg, r.index < s.builder.function.types.size ∨ b'.function.types.size ≤ r.index →
      frame.value r = s.frame.value r) :
    Point.Placed host ⟨b', frame, m⟩ where
  ready := appends.ready here.ready
  within := within
  frameSize := size.trans here.frameSize
  slots := fun slot member =>
    (agrees slot.address (within.slot_away here.ready appends member)).trans (here.slots slot member)

/-- Whenever the code is emitted, its run comes to its end, in a state of which `post` holds. -/
def Host.Attains {α : Type} (host : Host) (code : Emit α) (s : Point) (post : α → Point → Prop) : Prop :=
  ∀ x b', code s.builder = .ok x b' → b'.Within host.function host.program → s.At host →
    ∃ s', s'.builder = b' ∧ host.Steps s s' ∧ s.Before s' ∧ s'.At host ∧ post x s'

/-- The run also leaves the machine as it was. -/
abbrev Host.Yields {α : Type} (host : Host) (code : Emit α) (s : Point) (post : α → Point → Prop) : Prop :=
  host.Attains code s fun x s' => s'.machine = s.machine ∧ post x s'

/-- A point where something has been emitted that is no line. -/
theorem Host.Steps.unlined (position : b'.current = s.builder.current) (lines : b'.lines = s.builder.lines) :
    host.Steps s ⟨b', s.frame, s.machine⟩ :=
  ⟨0, fun limit => by simp only [Host.resume, position, lines, Nat.add_zero]⟩

namespace Host.Attains

open Emit Run

variable {α β : Type}

theorem mono (attains : host.Attains code s post) (weaker : ∀ x s', s.Before s' → post x s' → post' x s') :
    host.Attains code s post' := by
  intro x b' emitted within here
  obtain ⟨s', builder, steps, before, here', holds⟩ := attains x b' emitted within here
  exact ⟨s', builder, steps, before, here', weaker x s' before holds⟩

variable {post : β → Point → Prop} {next : α → Emit β}

theorem bind [∀ x, Growing (next x)] [Growing code] (first : host.Attains code s mid)
    (second : ∀ x s', s.Before s' → mid x s' → host.Attains (next x) s' post) :
    host.Attains (code >>= next) s post := by
  intro y b' emitted within here
  obtain ⟨x, c, emitted1, emitted2⟩ := bind_ran emitted
  have grows := Growing.grows here.ready emitted1
  have grows' := Growing.grows grows.ready emitted2
  obtain ⟨s1, rfl, steps1, before1, at1, holds1⟩ :=
    first x c emitted1 (within.of_grows grows.ready grows') here
  obtain ⟨s2, builder, steps2, before2, at2, holds2⟩ := second x s1 before1 holds1 y b' emitted2 within at1
  exact ⟨s2, builder, steps1.trans steps2, before1.trans before2, at2, holds2⟩

/-- A sequence of which the search for an instance does not find that it only lets the function grow. -/
theorem seq [Growing code] (rest : ∀ x, Growing (next x)) (first : host.Attains code s mid)
    (second : ∀ x s', s.Before s' → mid x s' → host.Attains (next x) s' post) :
    host.Attains (code >>= next) s post :=
  bind first second

theorem weaken {post post' : α → Point → Prop} (yields : host.Yields code s post)
    (weaker : ∀ x s', s.Before s' → post x s' → post' x s') : host.Yields code s post' :=
  yields.mono fun x s' before ⟨machine, holds⟩ => ⟨machine, weaker x s' before holds⟩

/-- A sequence of which both parts leave the machine as it was. -/
theorem sameThen [∀ x, Growing (next x)] [Growing code] (first : host.Yields code s mid)
    (second : ∀ x s', s.Before s' → s'.machine = s.machine → mid x s' → host.Yields (next x) s' post) :
    host.Yields (code >>= next) s post :=
  first.bind fun x s1 before ⟨machine1, holds⟩ => (second x s1 before machine1 holds).mono
    fun _ _ _ ⟨machine2, result⟩ => ⟨machine2.trans machine1, result⟩

theorem andThen [∀ x, Growing (next x)] [Growing code] (first : host.Yields code s mid)
    (second : ∀ x s', s.Before s' → mid x s' → host.Yields (next x) s' post) :
    host.Yields (code >>= next) s post :=
  first.sameThen fun x s' before _ holds => second x s' before holds

theorem seqThen [Growing code] (rest : ∀ x, Growing (next x)) (first : host.Yields code s mid)
    (second : ∀ x s', s.Before s' → mid x s' → host.Yields (next x) s' post) :
    host.Yields (code >>= next) s post :=
  andThen first second

/-- What holds at every point of a run may be used. -/
theorem of_at {post : α → Point → Prop} (attains : s.At host → host.Attains code s post) : host.Attains code s post :=
  fun x b' emitted within here => attains here x b' emitted within here

theorem pure (holds : post x s) : host.Attains (Pure.pure x) s post := by
  intro y b' emitted within here
  cases emitted
  exact ⟨s, rfl, Steps.refl host s, .refl s, here, holds⟩

/-- Emission that fails has no run. -/
theorem throw : host.Attains (MonadExcept.throw fault) s post := by
  intro y b' emitted
  cases emitted

theorem map [Growing code] (attains : host.Attains code s fun x s' => post (f x) s') :
    host.Attains (f <$> code) s post := by
  rw [map_eq_pure_bind]
  exact attains.bind fun x s' _ holds => .pure holds

/-- Emission that appends nothing. -/
theorem same {holds : α → Prop} (emission : ∀ x b', code s.builder = .ok x b' → b' = s.builder ∧ holds x) :
    host.Attains code s fun x s' => s' = s ∧ holds x := by
  intro x b' emitted within here
  obtain ⟨rfl, holds⟩ := emission x b' emitted
  exact ⟨s, rfl, Steps.refl host s, .refl s, here, rfl, holds⟩

theorem typeOf (reads : s.Reads r ty w) : host.Attains (typeOf r) s fun ty' s' => s' = s ∧ ty' = ty := by
  refine same fun ty' b' emitted => ?_
  obtain ⟨found, unchanged⟩ := typeOf_ok emitted
  exact ⟨unchanged, Option.some.inj (found.symm.trans reads.typed)⟩

theorem orTrap : host.Attains (orTrap x?) s fun x s' => s' = s ∧ x? = some x := by
  refine same fun x b' emitted => ?_
  cases x? with
  | none => cases emitted
  | some x => cases emitted; exact ⟨rfl, rfl⟩

theorem ofChecked : host.Attains (ofChecked wrap x) s fun y s' => s' = s ∧ x = .ok y := by
  cases x with
  | ok y => exact .pure ⟨rfl, rfl⟩
  | error fault => exact .throw

/-- A line that is emitted is the next one to run. -/
theorem line {line : Line} (appends : s.builder.Appends b' types [line])
    (plain : line.instruction.isPhi = false) (within : b'.Within host.function host.program)
    (run : runLine host.routines host.function host.args s.frame line s.machine = .ok frame m) :
    host.Steps s ⟨b', frame, m⟩ := by
  obtain ⟨_, found, lines⟩ := within.next_line appends plain
  refine ⟨0, fun limit => ?_⟩
  simp only [Host.resume, resumeAt, appends.position, found, lines, runLines, Nat.add_zero, bind_assoc]
  rw [bind_of_ok run]

variable {instruction : Instruction}

variable (plain : instruction.isPhi = false)

include plain

/-- Where a run is after a line that defines a register. -/
theorem define_steps (here : s.Placed host)
    (within : (s.builder.define ty instruction).2.Within host.function host.program)
    (run : execute host.routines host.function host.args s.frame instruction s.machine = .ok w m) :
    ∃ s', s'.builder = (s.builder.define ty instruction).2 ∧ host.Steps s s' ∧ s.Keeps s' ∧ s'.Placed host ∧
      s'.machine = m ∧ s'.Reads (s.builder.define ty instruction).1 ty (ty.normalize w) := by
  have appends := Builder.Appends.define here.ready ty instruction
  have typed : (s.builder.define ty instruction).2.function.typeOf? ⟨s.builder.function.types.size⟩ = some ty := by
    unfold Function.typeOf?
    rw [← Array.getElem?_toList, appends.newTypes]
    simp
  have typedHost : Run.typeOf host.function ⟨s.builder.function.types.size⟩ = ty := by
    rw [Run.typeOf, typeOf?_mono within.types typed]
    rfl
  have size : s.builder.function.types.size < s.frame.size := by
    have less := typeOf?_lt (typeOf?_mono within.types typed)
    rw [here.frameSize]
    exact less
  refine ⟨⟨(s.builder.define ty instruction).2, s.frame.set ⟨s.builder.function.types.size⟩ (ty.normalize w), m⟩,
    rfl, line appends plain within ?_, ?_, ?_, rfl, typed, Frame.value_set size,
    CodeType.normalize_normalize ty w⟩
  · refine (bind_of_ok run).trans ?_
    simp only [typedHost]
    rfl
  · refine ⟨by rw [appends.newTypes]; exact prefix_append _ _, fun r old => ?_⟩
    exact Frame.value_set_of_ne (Nat.ne_of_lt old)
  · refine here.extend appends within (Frame.set_size _ _ _) fun r away => ?_
    have newSize := congrArg length appends.newTypes
    simp only [Array.length_toList, length_append, length_singleton] at newSize
    refine Frame.value_set_of_ne ?_
    change r.index ≠ s.builder.function.types.size
    omega

section

variable (run : s.At host → execute host.routines host.function host.args s.frame instruction s.machine = .ok w m)

include run

theorem define (program : m.program = s.machine.program) (texts : s.machine.KeepsTexts m) :
    host.Attains (define ty instruction) s fun r s' => s'.machine = m ∧ s'.Reads r ty (ty.normalize w) := by
  intro r b' emitted within here
  cases emitted
  obtain ⟨s', builder, steps, keeps, here', machine, reads⟩ := define_steps plain here.toPlaced within (run here)
  subst machine
  exact ⟨s', builder, steps, ⟨keeps, texts⟩, ⟨here', program.trans here.program, here.routines⟩, rfl, reads⟩

omit run in
/-- Where a run is after a line that defines no register. -/
theorem append_steps (here : s.Placed host)
    (within : (s.builder.append ⟨none, instruction⟩).Within host.function host.program)
    (run : execute host.routines host.function host.args s.frame instruction s.machine = .ok w m) :
    ∃ s', s'.builder = s.builder.append ⟨none, instruction⟩ ∧ host.Steps s s' ∧ s.Keeps s' ∧ s'.Placed host ∧
      s'.machine = m := by
  have appends := Builder.Appends.append here.ready ⟨none, instruction⟩
  refine ⟨⟨s.builder.append ⟨none, instruction⟩, s.frame, m⟩, rfl, line appends plain within ?_, ?_, ?_, rfl⟩
  · exact bind_of_ok run
  · exact ⟨by rw [appends.newTypes]; exact prefix_append _ _, fun _ _ => rfl⟩
  · exact here.extend appends within rfl fun _ _ => rfl

theorem append (program : m.program = s.machine.program) (texts : s.machine.KeepsTexts m) :
    host.Attains (append instruction) s fun _ s' => s'.machine = m := by
  intro _ b' emitted within here
  cases emitted
  obtain ⟨s', builder, steps, keeps, here', machine⟩ := append_steps plain here.toPlaced within (run here)
  subst machine
  exact ⟨s', builder, steps, ⟨keeps, texts⟩, ⟨here', program.trans here.program, here.routines⟩, rfl⟩

end

/-- An instruction that leaves the machine as it is. -/
theorem definePure
    (run : s.At host → execute host.routines host.function host.args s.frame instruction s.machine = .ok w s.machine) :
    host.Yields (Emit.define ty instruction) s fun r s' => s'.Reads r ty (ty.normalize w) :=
  define plain run rfl (.refl _)

end Host.Attains

end QueryEngine
