import Mathlib.Data.Option.Basic
import QueryEngine.Proofs.Script.Scoping

set_option synthInstance.maxSize 256

namespace QueryEngine

open Scope Option List

variable {name : String} {b b' : Builder}

theorem Script.mem_without : name ∈ Script.without known names ↔ name ∈ known ∧ name ∉ names := by
  simp [without]

variable {scope : Scope}

namespace Scope

theorem lookup_bind_of_ne (different : other ≠ name) : (scope.bind name r).lookup other = scope.lookup other := by
  rw [bind, lookup_cons, beq_false_of_ne different]

theorem lookup_bindAll_of_not_mem {names : List String} {regs : List Reg} (away : other ∉ names) :
    (scope.bindAll names regs).lookup other = scope.lookup other := by
  induction names generalizing scope regs with
  | nil => rfl
  | cons name names ih =>
    rw [mem_cons, not_or] at away
    cases regs with
    | nil => rfl
    | cons r regs => rw [bindAll, ih away.2, lookup_bind_of_ne away.1]

theorem lookup_bindSome_of_not_mem (away : other ∉ target.toList) :
    (scope.bindSome target r).lookup other = scope.lookup other := by
  cases target with
  | none => rfl
  | some name =>
    cases r with
    | none => rfl
    | some r => exact lookup_bind_of_ne (by simpa using away)

end Scope

/-- Names other than these stand for the same registers. -/
def Scope.Keeps (scope scope' : Scope) (names : List String) : Prop :=
  ∀ name, name ∉ names → scope'.lookup name = scope.lookup name

theorem Scope.Keeps.trans (first : scope.Keeps scope' names) (second : scope'.Keeps scope'' names') :
    scope.Keeps scope'' (names ++ names') := by
  intro name away
  rw [mem_append, not_or] at away
  exact (second name away.2).trans (first name away.1)

mutual

theorem Statement.gives_emit (statement : Statement) (scope : Scope) :
    Emit.Gives (statement.emit scope) fun scope' => scope.Keeps scope' statement.names := by
  cases statement with
  | ifThenElse cond thenBody thenValues elseBody elseValues targets =>
    refine .after fun c => .bind (.ifThenElseWith (p := fun scope' => scope.Keeps scope' (namesAll thenBody))
      (q := fun scope' => scope.Keeps scope' (namesAll thenBody ++ namesAll elseBody)) ?_ fun scope' keeps => ?_)
      fun (merged, scope') keeps => .pure fun name away => ?_
    · exact (gives_emitAll thenBody scope).bind fun scope' keeps => .after fun _ => .pure keeps
    · exact (gives_emitAll elseBody scope').bind fun scope'' keeps' => .after fun _ => .pure (keeps.trans keeps')
    · rw [names, mem_append, not_or] at away
      exact (lookup_bindAll_of_not_mem away.2).trans (keeps name away.1)
  | ifThen cond body =>
    refine .after fun c => .bind (.ifThenElseWith (p := fun scope' => scope.Keeps scope' (namesAll body))
      (q := fun scope' => scope.Keeps scope' (namesAll body)) ?_ fun scope' keeps => .pure keeps)
      fun _ keeps => .pure keeps
    exact (gives_emitAll body scope).bind fun scope' keeps => .pure keeps
  | whileLoop init carried condBody cond body next targets =>
    refine .after fun values => .bind (.whileLoopWith
      (p := fun scope' => scope.Keeps scope' (carried ++ namesAll condBody))
      (q := fun scope' => scope.Keeps scope' (carried ++ namesAll condBody ++ namesAll body))
      (fun values => ?_) fun scope' values keeps => ?_) fun (merged, scope') keeps => .pure fun name away => ?_
    · refine (gives_emitAll condBody (scope.bindAll carried values)).bind fun scope' keeps => .after fun _ => .pure ?_
      exact Scope.Keeps.trans (fun name away => lookup_bindAll_of_not_mem away) keeps
    · refine (gives_emitAll body (scope'.bindAll carried values)).bind fun scope'' keeps' => .after fun _ => .pure ?_
      intro name away
      rw [mem_append, not_or] at away
      rw [keeps' name away.2, ← keeps name away.1]
      exact lookup_bindAll_of_not_mem fun member => away.1 (mem_append_left _ member)
    · rw [names, mem_append, not_or] at away
      exact (lookup_bindAll_of_not_mem away.2).trans (keeps name away.1)
  | forRange start stop counter body =>
    rw [emit]
    refine .after fun first => .after fun last => .bind (.whileLoopWith (p := fun _ => True)
      (q := fun scope' => scope.Keeps scope' (counter :: namesAll body)) (fun _ _ _ _ _ => trivial) ?_)
      fun _ keeps => .pure keeps
    refine fun _ values _ => .single (fun i => ?_) values
    refine (gives_emitAll body (scope.bind counter i)).bind fun scope' keeps => .after fun _ => .after fun _ =>
      .pure fun name away => ?_
    rw [mem_cons, not_or] at away
    exact (keeps name away.2).trans (lookup_bind_of_ne away.1)
  | constBytes address length bytes =>
    refine .after fun (ptr, len) => .pure fun name away => ?_
    have different : name ≠ address ∧ name ≠ length := by simpa [names] using away
    exact (lookup_bind_of_ne different.2).trans (lookup_bind_of_ne different.1)
  | call target name args | callValue target name args =>
    exact .after fun _ => .after fun _ => .after fun _ => .pure fun _ away => lookup_bindSome_of_not_mem away
  | store | ret =>
    repeat refine .after fun _ => ?_
    exact .pure fun _ _ => rfl
  | _ =>
    repeat refine .after fun _ => ?_
    exact .pure fun name away => lookup_bind_of_ne (by simpa [names] using away)

theorem Statement.gives_emitAll (statements : List Statement) (scope : Scope) :
    Emit.Gives (emitAll scope statements) fun scope' => scope.Keeps scope' (namesAll statements) := by
  cases statements with
  | nil =>
    exact .pure fun _ _ => rfl
  | cons statement rest =>
    exact (gives_emit statement scope).bind fun scope' keeps b scope'' b' emitted =>
      keeps.trans (gives_emitAll rest scope' b scope'' b' emitted)

end

section Growing

open Emit

variable {law : Law}

instance [law.Sequential] : Obeys law (scope.reg name) :=
  inferInstanceAs (Obeys law (orTrap _))

instance [law.Sequential] : Obeys law (scope.regs names) :=
  inferInstanceAs (Obeys law (mapM _ _))

instance [law.Sequential] : Obeys law (routineNamed name) := by
  unfold routineNamed
  split <;> infer_instance

end Growing

/-- The same place in the text of a function. -/
structure Builder.SameSite (b b' : Builder) : Prop where
  program : b'.program = b.program
  params : b'.function.params = b.function.params
  current : b'.current = b.current
  size : b'.function.blocks.size = b.function.blocks.size
  slots : b'.function.slots = b.function.slots

theorem Builder.SameSite.refl (b : Builder) : b.SameSite b := ⟨rfl, rfl, rfl, rfl, rfl⟩

theorem Builder.SameSite.trans {c d : Builder} (first : b.SameSite c) (second : c.SameSite d) : b.SameSite d :=
  ⟨second.program.trans first.program, second.params.trans first.params, second.current.trans first.current, second.size.trans first.size,
    second.slots.trans first.slots⟩

theorem Builder.SameSite.append (b : Builder) (line : Line) : b.SameSite (b.append line) :=
  ⟨rfl, rfl, rfl, by simp [Builder.append, modifyBlock], rfl⟩

/-- What follows stands where the code stands. -/
def Emit.staying : Emit.Law where
  Holds code := ∀ {b b' x}, code b = .ok x b' → b.SameSite b'

open Emit in
instance : staying.Sequential where
  pure _ := fun emitted => by cases emitted; exact .refl _
  bind first gives rest := fun emitted => by
    obtain ⟨x, c, emitted1, emitted2⟩ := bind_ran emitted
    exact (first emitted1).trans (rest x (gives _ x c emitted1) emitted2)
  throw _ := fun emitted => by cases emitted
  get := fun emitted => by cases emitted; exact .refl _
  define ty instruction _ := fun {b _ _} emitted => by
    cases emitted
    exact .trans (c := (b.addReg ty).2) ⟨rfl, rfl, rfl, rfl, rfl⟩ (.append _ _)
  append _ := fun emitted => by
    cases emitted
    exact .append _ _

/-- Where code stands that is emitted next. -/
def Builder.site (b : Builder) : Site where
  program := b.program
  params := b.function.params
  block := b.current.index
  blocks := b.function.blocks.size
  slots := b.function.slots.toList.map StackSlot.size

/-- How code changes where what follows it stands. -/
def Emit.Moves {α : Type} (code : Emit α) (move : Site → Site) : Prop :=
  ∀ b x b', b.Ready → code b = .ok x b' → b'.site = move b.site

theorem Builder.SameSite.site (same : b.SameSite b') : b'.site = b.site := by
  simp only [Builder.site, same.program, same.params, same.current, same.size, same.slots]

variable {f : Site → Site}

namespace Emit.Moves

open Emit

variable {α β : Type} {next : α → Emit β}

theorem stays (code : Emit α) [stays : Obeys staying code] : Moves code fun site => site :=
  fun _ _ _ _ emitted => (stays.holds emitted).site

theorem bind [Growing code] (first : Moves code f) (second : ∀ x, Moves (next x) g) :
    Moves (code >>= next) fun site => g (f site) := by
  intro b y b' ready emitted
  obtain ⟨x, c, emitted1, emitted2⟩ := bind_ran emitted
  rw [second x c y b' (Growing.grows ready emitted1).ready emitted2, first b x c ready emitted1]

theorem followed [Growing code] [∀ x, Obeys staying (next x)] (moves : Moves code f) : Moves (code >>= next) f :=
  moves.bind fun x => stays (next x)

theorem preceded [Growing code] [Obeys staying code] (moves : ∀ x, Moves (next x) f) : Moves (code >>= next) f :=
  (stays code).bind moves

theorem inProgram (change : Program → α × Program) :
    Moves (inProgram change) fun site => { site with program := (change site.program).2 } := by
  intro b x b' _ emitted
  cases emitted
  rfl

theorem stackSlot (size : Nat) : Moves (stackSlot size) fun site =>
    { site with slots := site.slots ++ [size] } := by
  intro b r b' _ emitted
  cases emitted
  simp [Builder.site]

theorem intern (bytes : Bytes) : Moves (intern bytes) fun site => { site with
    program.literals := ((site.program.literals.intern? bytes).map Prod.snd).getD site.program.literals } := by
  intro b a b' _ emitted
  obtain ⟨room, _, rfl⟩ := intern_ok emitted
  have found : b.program.literals.intern? bytes = some (b.program.literals.intern bytes) := if_pos room
  simp only [Builder.site, found]
  rfl

theorem call (routine : Routine) (args : List Reg) :
    Moves (call routine args) fun site => { site with program := site.program.declare routine } := by
  unfold Emit.call
  dsimp only
  split
  · intro b x b' _ emitted
    obtain ⟨_, _, ⟨⟩, _⟩ := bind_ran emitted
  refine preceded fun _ => ?_
  refine (inProgram fun program => ((), program.declare routine)).bind (g := fun site => site) fun _ => ?_
  cases routine.result <;> exact stays _

theorem callValue (routine : Routine) (args : List Reg) :
    Moves (callValue routine args) fun site => { site with program := site.program.declare routine } := by
  refine (call routine args).bind (g := fun site => site) fun r => ?_
  cases r <;> exact stays _

theorem constBytes (bytes : Bytes) : Moves (constBytes bytes) fun site => { site with
    program.literals := ((site.program.literals.intern? bytes).map Prod.snd).getD site.program.literals } := by
  exact (intern bytes).followed

theorem routineNamed {next : Routine → Emit β}
    (moves : ∀ routine, Routine.named? name = some routine → Moves (next routine) f) :
    Moves (routineNamed name >>= next) f := by
  unfold Emit.routineNamed
  cases named : Routine.named? name with
  | some routine => exact moves routine named
  | none =>
    intro b x b' _ emitted
    cases emitted

theorem goTo (b : Builder) (terminator : Terminator) (entry : Label) :
    (b.goTo terminator entry).site = { b.site with block := entry.index } := by
  simp only [Builder.site, Builder.goTo_size]
  rfl

theorem withBlocks (b : Builder) : b.withBlocks.site = { b.site with blocks := b.function.blocks.size + 3 } := by
  simp only [Builder.site, Builder.withBlocks_size]
  rfl

theorem appends {types : List CodeType} {lines : List Line} (appends : b.Appends b' types lines) :
    b'.site = b.site :=
  Builder.SameSite.site ⟨appends.program, appends.params, appends.position, appends.blockCount, appends.slots⟩

section Branches

variable {cond : Reg} {thenCode : Emit (List Reg × α)} {elseCode : α → Emit (List Reg × β)} {merged : List Reg}
  {y : β} {f g : Site → Site} [Growing thenCode] [∀ x, Growing (elseCode x)]

omit [Growing thenCode] [∀ x, Growing (elseCode x)] in
theorem thenStart (branches : Branches cond thenCode elseCode b merged y b') :
    branches.thenStart.site = b.site.first := by
  rw [Branches.thenStart, Builder.thenStart, goTo, withBlocks]
  rfl

omit [Growing thenCode] [∀ x, Growing (elseCode x)] in
theorem elseStart (branches : Branches cond thenCode elseCode b merged y b') (first : Moves thenCode f) :
    branches.elseStart.site = b.site.second (f b.site.first) := by
  rw [Branches.elseStart, goTo, first _ _ _ branches.thenStart_ready branches.thenSide, thenStart branches]
  rfl

theorem ifThenElseWith (first : Moves thenCode f) (second : ∀ x, Moves (elseCode x) g) :
    Moves (ifThenElseWith cond thenCode elseCode) fun site =>
      site.third (g (site.second (f site.first))) := by
  rintro b ⟨_, y⟩ b' ready emitted
  obtain ⟨branches⟩ := ifThenElseWith_ok ready emitted
  rw [appends branches.merges.appends, Branches.mergeStart, goTo,
    second _ _ _ _ branches.elseStart_ready branches.elseSide, elseStart branches first]
  rfl

end Branches

section Loops

variable {init : List Reg} {cond : List Reg → Emit (Reg × α)} {body : α → List Reg → Emit (List Reg × β)}
  {carried : List Reg} {y : β} {f g : Site → Site} [∀ values, Growing (cond values)]
  [∀ x values, Growing (body x values)]

omit [∀ values, Growing (cond values)] [∀ x values, Growing (body x values)] in
theorem header (loops : Loops init cond body b carried y b') : loops.header.site = b.site.first := by
  obtain ⟨_, _, adds⟩ := loops.carries
  rw [appends adds.appends, Loops.entry, goTo, withBlocks]
  rfl

omit [∀ values, Growing (cond values)] [∀ x values, Growing (body x values)] in
theorem bodyStart (loops : Loops init cond body b carried y b') (first : ∀ values, Moves (cond values) f) :
    loops.bodyStart.site = b.site.second (f b.site.first) := by
  rw [Loops.bodyStart, goTo, first _ _ _ _ loops.header_ready loops.condition, header loops]
  rfl

theorem whileLoopWith (first : ∀ values, Moves (cond values) f) (second : ∀ x values, Moves (body x values) g) :
    Moves (whileLoopWith init cond body) fun site =>
      site.third (g (site.second (f site.first))) := by
  rintro b ⟨_, y⟩ b' ready emitted
  obtain ⟨loops⟩ := whileLoopWith_ok ready emitted
  obtain ⟨_, _, _, _, _, latch⟩ := loops.latched
  have exit : b'.site = loops.exitStart.site :=
    Builder.SameSite.site ⟨latch.program, latch.params, latch.position, latch.size, latch.slots⟩
  rw [exit, Loops.exitStart, goTo, second _ _ _ _ _ loops.bodyStart_ready loops.bodySide, bodyStart loops first]
  rfl

theorem forRange {body : Reg → Emit β} [∀ i, Growing (body i)] (moves : ∀ i, Moves (body i) f) :
    Moves (forRange start stop body) fun site => site.third (f (site.second site.first)) := by
  rw [Emit.forRange_eq]
  refine .followed (.whileLoopWith (f := fun site => site) (fun carried => stays _) fun _ carried => ?_)
  unfold single
  split
  · exact (moves _).followed
  · exact fun _ _ _ _ emitted => by cases emitted

end Loops

end Emit.Moves

mutual

/-- Code of statements only lets the function grow, and leaves off where the text says. -/
theorem Statement.moves_emit (statement : Statement) (defined : statement.scope? known = some known') (scope : Scope) :
    Emit.Growing (statement.emit scope) ∧ Emit.Moves (statement.emit scope) fun site => statement.leave site := by
  cases statement with
  | ret value => cases defined
  | ifThenElse cond thenBody thenValues elseBody elseValues targets =>
    obtain ⟨_, thenDefined, rest⟩ := bind_eq_some_iff.mp defined
    obtain ⟨_, elseDefined, _⟩ := bind_eq_some_iff.mp rest
    have := fun scope => (moves_emitAll thenBody thenDefined scope).1
    have := fun scope => (moves_emitAll elseBody elseDefined scope).1
    rw [emit]
    refine ⟨inferInstance, .preceded fun c => .followed (.ifThenElseWith (f := fun site => leaveAll site thenBody)
      (g := fun site => leaveAll site elseBody) ?_ fun scope' => ?_)⟩
    · exact (moves_emitAll thenBody thenDefined scope).2.followed
    · exact (moves_emitAll elseBody elseDefined scope').2.followed
  | ifThen cond body =>
    obtain ⟨_, bodyDefined, _⟩ := bind_eq_some_iff.mp defined
    have := fun scope => (moves_emitAll body bodyDefined scope).1
    rw [emit]
    refine ⟨inferInstance, .preceded fun c => .followed (.ifThenElseWith (f := fun site => leaveAll site body)
      (g := fun site => site) ?_ fun scope' => .stays _)⟩
    rw [map_eq_pure_bind]
    exact (moves_emitAll body bodyDefined scope).2.followed
  | whileLoop init carried condBody cond body next targets =>
    obtain ⟨_, condDefined, rest⟩ := bind_eq_some_iff.mp defined
    obtain ⟨_, bodyDefined, _⟩ := bind_eq_some_iff.mp rest
    have := fun scope => (moves_emitAll condBody condDefined scope).1
    have := fun scope => (moves_emitAll body bodyDefined scope).1
    rw [emit]
    refine ⟨inferInstance, .preceded fun values => .followed (.whileLoopWith (f := fun site => leaveAll site condBody)
      (g := fun site => leaveAll site body) (fun values => ?_) fun scope' values => ?_)⟩
    · exact (moves_emitAll condBody condDefined _).2.followed
    · exact (moves_emitAll body bodyDefined _).2.followed
  | forRange start stop counter body =>
    obtain ⟨_, bodyDefined, _⟩ := bind_eq_some_iff.mp defined
    have := fun scope => (moves_emitAll body bodyDefined scope).1
    rw [emit]
    refine ⟨inferInstance, .preceded fun first => .preceded fun last => ?_⟩
    exact .forRange (f := fun site => leaveAll site body) fun i => (moves_emitAll body bodyDefined (scope.bind counter i)).2
  | stackSlot target size =>
    rw [emit]
    exact ⟨inferInstance, (Emit.Moves.stackSlot size).followed⟩
  | constBytes address length bytes =>
    rw [emit]
    exact ⟨inferInstance, (Emit.Moves.constBytes bytes).followed⟩
  | call target name args =>
    rw [emit]
    refine ⟨inferInstance, .preceded fun regs => Emit.Moves.routineNamed fun routine named => ?_⟩
    simp only [leave, named]
    exact (Emit.Moves.call routine regs).followed
  | callValue target name args =>
    rw [emit]
    refine ⟨inferInstance, .preceded fun regs => Emit.Moves.routineNamed fun routine named => ?_⟩
    simp only [leave, named]
    exact (Emit.Moves.callValue routine regs).followed
  | tableHandle | tupleLayout | columnList =>
    rw [emit]
    exact ⟨inferInstance, (Emit.Moves.inProgram _).followed⟩
  | _ =>
    rw [emit]
    exact ⟨inferInstance, .stays _⟩

theorem Statement.moves_emitAll (statements : List Statement) (defined : scopeAll? known statements = some known')
    (scope : Scope) :
    Emit.Growing (emitAll scope statements) ∧ Emit.Moves (emitAll scope statements) fun site => leaveAll site statements := by
  cases statements with
  | nil =>
    rw [emitAll]
    exact ⟨inferInstance, .stays _⟩
  | cons statement rest =>
    obtain ⟨_, first, later⟩ := bind_eq_some_iff.mp defined
    obtain ⟨_, moves⟩ := moves_emit statement first scope
    have := fun scope => (moves_emitAll rest later scope).1
    rw [emitAll]
    exact ⟨inferInstance, moves.bind fun scope' => (moves_emitAll rest later scope').2⟩

end

end QueryEngine
