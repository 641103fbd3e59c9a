import QueryEngine.Proofs.Script.Instructions

namespace QueryEngine

open List Script Scope

variable {x : Cell} {name : String} {names : List String} {α : Type} {statement : Statement}

/-- Names that have a value stand for registers that hold it. -/
def Point.Matches (s : Point) (scope : Scope) (env : Env) (known : List String) : Prop :=
  ∀ name ∈ known, ∃ r x, scope.lookup name = some r ∧ env.lookup name = some x ∧ s.Reads r x.1 x.2

namespace Point.Matches

variable {s s' : Point} {scope scope' : Scope} {env : Env} {known : List String}

variable (agrees : s.Matches scope env known)

include agrees

theorem kept (keeps : s.Keeps s') : s'.Matches scope env known := by
  intro name member
  obtain ⟨r, x, register, value, reads⟩ := agrees name member
  exact ⟨r, x, register, value, reads.kept keeps⟩

theorem mono {known' : List String} (fewer : ∀ name ∈ known', name ∈ known) :
    s.Matches scope env known' :=
  fun name member => agrees name (fewer name member)

theorem bind (name : String) {r : Reg} (reads : s.Reads r x.1 x.2) :
    s.Matches (scope.bind name r) (env.bind name x) (name :: known) := by
  intro other member
  by_cases same : other = name
  · subst same
    exact ⟨r, x, by simp [Scope.bind], by simp [Env.bind], reads⟩
  · obtain ⟨r', x', register, value, reads'⟩ := agrees other ((mem_cons.mp member).resolve_left same)
    refine ⟨r', x', (lookup_bind_of_ne same).trans register, ?_, reads'⟩
    rw [Env.bind, lookup_cons, beq_false_of_ne same]
    exact value

theorem bindAll (names : List String) {regs : List Reg} {cells : List Cell} (reads : s.ReadsAll regs cells) :
    s.Matches (scope.bindAll names regs) (env.bindAll names cells) (names.take cells.length ++ known) := by
  induction names generalizing scope env known regs cells with
  | nil => simpa [bindAll, Env.bindAll] using agrees
  | cons name names ih =>
    cases reads with
    | nil => simpa [bindAll, Env.bindAll] using agrees
    | cons head tail =>
      refine (ih (agrees.bind name head) tail).mono fun other member => ?_
      simp only [length_cons, take_succ_cons, cons_append, mem_cons, mem_append] at member ⊢
      tauto

theorem bindSome (target : Option String) {r : Option Reg} {x : Option Cell}
    (reads : Option.Rel (fun r x => s.Reads r x.1 x.2) r x) :
    s.Matches (scope.bindSome target r) (env.bindSome target x) ((if x.isSome then target.toList else []) ++ known) := by
  cases reads with
  | none => cases target <;> exact agrees
  | some reads =>
    cases target with
    | none => exact agrees
    | some name => exact agrees.bind name reads

/-- What is named elsewhere may have hidden some names. -/
theorem without (keeps : scope.Keeps scope' names) :
    s.Matches scope' env (without known names) := by
  intro name member
  obtain ⟨member, away⟩ := mem_without.mp member
  obtain ⟨r, x, register, value, reads⟩ := agrees name member
  exact ⟨r, x, (keeps name away).trans register, value, reads⟩

theorem get (member : name ∈ known) :
    ∃ r x, scope.reg name = pure r ∧ env.get name = pure x ∧ s.Reads r x.1 x.2 := by
  obtain ⟨r, x, register, value, reads⟩ := agrees name member
  exact ⟨r, x, by rw [reg, register]; rfl, by rw [Env.get, value], reads⟩

theorem getAll (names : List String) (members : ∀ name ∈ names, name ∈ known) :
    ∃ regs cells, scope.regs names = pure regs ∧ env.getAll names = pure cells ∧ s.ReadsAll regs cells ∧
      cells.length = names.length := by
  induction names with
  | nil => exact ⟨[], [], by simp [regs], by simp [Env.getAll], .nil, rfl⟩
  | cons name names ih =>
    obtain ⟨r, x, register, value, reads⟩ := agrees.get (members name mem_cons_self)
    obtain ⟨regs, cells, registers, values, all, length⟩ := ih fun other member => members other (mem_cons_of_mem _ member)
    refine ⟨r :: regs, x :: cells, ?_, ?_, .cons reads all, by simp [length]⟩
    · rw [Scope.regs] at registers ⊢
      rw [mapM_cons, register, registers]
      rfl
    · rw [Env.getAll] at values ⊢
      rw [mapM_cons, value, values]
      rfl

end Point.Matches

theorem Script.mem_take {count count' : Nat} (member : name ∈ names.take count)
    (more : count ≤ count') : name ∈ names.take count' := by
  rw [← Nat.min_eq_left more, ← take_take] at member
  exact mem_of_mem_take member

/-- A statement that has no parts and does not return. -/
def Statement.Plain : Statement → Prop
  | .ret _ | .ifThenElse .. | .ifThen .. | .whileLoop .. | .forRange .. => False
  | _ => True

theorem Script.of_guard {p : Prop} [Decidable p] {x y : α} (given : (do guard p; some x) = some y) : p ∧ x = y := by
  by_cases holds : p
  · simp only [holds, guard] at given
    exact ⟨holds, Option.some.inj given⟩
  · simp [holds, guard] at given

theorem Statement.Plain.scope (plain : statement.Plain) {known known' : List String}
    (defined : statement.scope? known = some known') :
    (∀ name ∈ statement.uses, name ∈ known) ∧ statement.gives ++ known = known' := by
  cases statement with
  | ret | ifThenElse | ifThen | whileLoop | forRange => cases plain
  | _ => exact of_guard defined

section

variable {host : Host} {call : Invocation} {limit : Nat}

open Host Host.Simulates

section

variable {s : Point} {scope : Scope} {env : Env} {known : List String} (agrees : s.Matches scope env known)

include agrees

/-- A register that is computed gets a name. -/
theorem Point.Matches.define (target : String) {code : Emit Reg} [Emit.Growing code]
    (computes : host.Computes limit code s x) :
    host.Simulates limit (do return scope.bind target (← code)) s (pure (env.bind target x))
      fun scope' env' s' => s'.Matches scope' env' (target :: known) :=
  step computes fun _ _ keeps reads => .pure ((agrees.kept keeps).bind target reads)

/-- Code that goes on with the register of a name. -/
theorem Point.Matches.operand {β : Type} (member : name ∈ known) {code : Reg → Emit α} {run : Cell → Run β}
    {post : α → β → Point → Prop} (each : ∀ r x, s.Reads r x.1 x.2 → host.Simulates limit (code r) s (run x) post) :
    host.Simulates limit (scope.reg name >>= code) s (env.get name >>= run) post := by
  obtain ⟨r, x, register, value, reads⟩ := agrees.get member
  rw [register, value, pure_bind, pure_bind]
  exact each r x reads

end

theorem Statement.Plain.simulates (carries : host.Carries call) (plain : statement.Plain)
    {known : List String} (uses : ∀ name ∈ statement.uses, name ∈ known) {scope : Scope} {env : Env} {s : Point}
    (agrees : s.Matches scope env known) :
    host.Simulates limit (statement.emit scope) s (statement.run call limit s.builder.site env)
      fun scope' env' s' => s'.Matches scope' env' (statement.gives ++ known) := by
  cases statement
  case ret | ifThenElse | ifThen | whileLoop | forRange => cases plain
  all_goals rw [emit, run]
  all_goals try simp only [Statement.uses, forall_mem_cons] at uses
  case const target ty n =>
    exact agrees.define target (.const ty n)
  case constBool target value =>
    exact agrees.define target (.constBool value)
  case nullPtr target =>
    exact agrees.define target .nullPtr
  case param target index =>
    exact (Simulates.param carries index).bind fun r x s' keeps reads =>
      .pure ((agrees.kept keeps).bind target reads)
  case binary target op lhs rhs =>
    exact agrees.operand uses.1 fun _ _ left =>
      agrees.operand uses.2.1 fun _ _ right => agrees.define target (.binary op left right)
  case overflows target op lhs rhs =>
    exact agrees.operand uses.1 fun _ _ left =>
      agrees.operand uses.2.1 fun _ _ right => agrees.define target (.overflows op left right)
  case compare target pred lhs rhs =>
    exact agrees.operand uses.1 fun _ _ left =>
      agrees.operand uses.2.1 fun _ _ right => agrees.define target (.compare pred left right)
  case not target value =>
    exact agrees.operand uses.1 fun _ _ operand => agrees.define target (.not operand)
  case select target cond thenValue elseValue =>
    exact agrees.operand uses.1 fun _ _ chooses =>
      agrees.operand uses.2.1 fun _ _ left =>
      agrees.operand uses.2.2.1 fun _ _ right =>
        agrees.define target (.select chooses left right)
  case cast target op value ty =>
    exact agrees.operand uses.1 fun _ _ operand => agrees.define target (.cast op ty operand)
  case resize target value ty signed =>
    exact agrees.operand uses.1 fun _ _ operand =>
      agrees.define target (.resize ty signed operand)
  case load target ty address =>
    exact agrees.operand uses.1 fun _ _ operand =>
      (Simulates.load carries ty operand).bind fun _ _ _ keeps reads => .pure ((agrees.kept keeps).bind target reads)
  case store value address =>
    exact agrees.operand uses.1 fun _ _ left =>
      agrees.operand uses.2.1 fun _ _ right =>
        (Simulates.store carries left right).bind fun _ _ _ keeps _ => .pure (agrees.kept keeps)
  case ptrAdd target address offset =>
    exact agrees.operand uses.1 fun _ _ left =>
      agrees.operand uses.2.1 fun _ _ right => agrees.define target (.ptrAdd left right)
  case ptrOffset target address offset =>
    exact agrees.operand uses.1 fun _ _ operand =>
      agrees.define target (.ptrOffset offset operand)
  case stackSlot target size =>
    exact agrees.define target (.stackSlot carries size)
  case constBytes address length bytes =>
    refine step (Simulates.constBytes bytes) fun (regs : Reg × Reg) s' keeps holds => ?_
    obtain ⟨ptrReads, lenReads⟩ := holds
    refine .pure ((((agrees.kept keeps).bind address ptrReads).bind length lenReads).mono fun name member => ?_)
    simp only [gives, names, cons_append, nil_append, mem_cons] at member ⊢
    tauto
  case call target name args =>
    obtain ⟨regs, cells, registers, values, reads, _⟩ := agrees.getAll args uses
    simp only [registers, values, pure_bind, Emit.routineNamed]
    cases named : Routine.named? name with
    | none =>
      intro scope' b' emitted
      cases emitted
    | some routine =>
      refine (Simulates.invoke carries named reads).bind fun r x s' keeps holds => ?_
      obtain ⟨isSome, related⟩ := holds
      have agrees' := (agrees.kept keeps).bindSome target related
      rw [isSome] at agrees'
      simp only [gives, named, Option.bind_some]
      exact .pure agrees'
  case callValue target name args =>
    obtain ⟨regs, cells, registers, values, reads, _⟩ := agrees.getAll args uses
    simp only [registers, values, pure_bind, Emit.routineNamed]
    cases named : Routine.named? name with
    | none =>
      intro scope' b' emitted
      cases emitted
    | some routine =>
      refine (Simulates.invokeValue carries named reads).bind fun r x s' keeps holds => ?_
      obtain ⟨y, rfl, reads'⟩ := holds
      exact .pure ((agrees.kept keeps).bindSome target (.some reads'))
  case tableHandle target table =>
    refine step (Simulates.inProgram fun p => .tableHandle p table) fun n s1 keeps1 number => ?_
    obtain ⟨rfl, _⟩ := number
    exact (agrees.kept keeps1).define target (.const .i64 _)
  case tupleLayout target types =>
    refine step (Simulates.inProgram fun p => .tupleLayout p types) fun result s1 keeps1 number => ?_
    obtain ⟨rfl, _⟩ := number
    exact (agrees.kept keeps1).define target (.const .i64 _)
  case columnList target columns =>
    refine step (Simulates.inProgram fun p => .columnList p columns) fun n s1 keeps1 number => ?_
    obtain ⟨rfl, _⟩ := number
    exact (agrees.kept keeps1).define target (.const .i64 _)
  case blockNumber target =>
    refine silent (p := fun b => b = s.builder) (fun _ _ emitted => by cases emitted; exact ⟨rfl, rfl⟩) ?_
    rintro _ rfl
    exact agrees.define target (.const .i64 _)

mutual

/-- A run of the code of a statement does what the statement does. -/
theorem Statement.simulates (carries : host.Carries call) (statement : Statement) {known known' : List String}
    (defined : statement.scope? known = some known') {scope : Scope} {env : Env} {s : Point}
    (agrees : s.Matches scope env known) :
    host.Simulates limit (statement.emit scope) s (statement.run call limit s.builder.site env)
      fun scope' env' s' => s'.builder.site = statement.leave s.builder.site ∧ s'.Matches scope' env' known' := by
  refine Simulates.weaken ?_ fun ready x _ _ emitted _ holds =>
    ⟨(moves_emit statement defined scope).2 _ x _ ready emitted, holds⟩
  cases statement with
  | ret value => cases defined
  | ifThenElse cond thenBody thenValues elseBody elseValues targets =>
    obtain ⟨thenKnown, thenDefined, rest⟩ := Option.bind_eq_some_iff.mp defined
    obtain ⟨elseKnown, elseDefined, rest⟩ := Option.bind_eq_some_iff.mp rest
    obtain ⟨⟨condKnown, thenUses, elseUses⟩, rfl⟩ := of_guard rest
    have := fun scope => (moves_emitAll thenBody thenDefined scope).1
    have := fun scope => (moves_emitAll elseBody elseDefined scope).1
    obtain ⟨c, x, reg, get, chooses⟩ := agrees.get condKnown
    simp only [emit, run, reg, get, pure_bind]
    rw [← apply_ite fun action : Run (List Cell) => action >>= fun values => pure (env.bindAll targets values)]
    refine (Simulates.ifThenElseWith (f := fun site => leaveAll site thenBody)
      (p := fun scope' => scope.Keeps scope' (namesAll thenBody))
      (q := fun scope' => scope.Keeps scope' (namesAll thenBody ++ namesAll elseBody))
      (r := fun cells => min thenValues.length elseValues.length ≤ cells.length) chooses
      (moves_emitAll thenBody thenDefined scope).2.followed
      ((gives_emitAll thenBody scope).bind fun _ keeps => .after fun _ => .pure keeps)
      (fun scope' keeps => (gives_emitAll elseBody scope').bind fun _ keeps' =>
        .after fun _ => .pure (keeps.trans keeps')) ?_ ?_).bind ?_
    · intro s' keeps site
      rw [← site]
      refine (simulatesAll carries thenBody thenDefined (agrees.kept keeps)).bind
        fun scope' env' s'' _ holds => ?_
      obtain ⟨regs, cells, registers, values, reads, length⟩ := holds.2.getAll thenValues thenUses
      rw [registers, values, pure_bind]
      exact .pure ⟨reads, by omega⟩
    · intro scope' s' keepsNames keeps site
      rw [← site]
      refine (simulatesAll carries elseBody elseDefined ((agrees.kept keeps).without keepsNames)).bind
        fun scope'' env' s'' _ holds => ?_
      obtain ⟨regs, cells, registers, values, reads, length⟩ := holds.2.getAll elseValues elseUses
      rw [registers, values, pure_bind]
      exact .pure ⟨reads, by omega⟩
    · rintro ⟨merged, scope'⟩ values s' keeps ⟨keepsNames, reads, enough⟩
      refine .pure ((((agrees.kept keeps).without keepsNames).bindAll targets reads).mono fun name member => ?_)
      rcases mem_append.mp member with target | old
      · exact mem_append_left _ (mem_take target enough)
      · exact mem_append_right _ old
  | ifThen cond body =>
    obtain ⟨bodyKnown, bodyDefined, rest⟩ := Option.bind_eq_some_iff.mp defined
    obtain ⟨condKnown, rfl⟩ := of_guard rest
    have := fun scope => (moves_emitAll body bodyDefined scope).1
    obtain ⟨c, x, reg, get, chooses⟩ := agrees.get condKnown
    simp only [emit, run, reg, get, pure_bind, Emit.ifThen]
    have both : host.Simulates limit (Emit.ifThenElseWith c (([], ·) <$> emitAll scope body) fun scope' => pure ([], scope'))
        s (if x.isSet then (fun _ => []) <$> runAll call limit s.builder.site.first env body else pure [])
        fun result cells s' => scope.Keeps result.2 (namesAll body) ∧ s'.ReadsAll result.1 cells ∧ True := by
      rw [map_eq_pure_bind]
      refine .ifThenElseWith (f := fun site => leaveAll site body)
        (p := fun scope' => scope.Keeps scope' (namesAll body))
        (q := fun scope' => scope.Keeps scope' (namesAll body)) (r := fun _ => True) chooses
        (moves_emitAll body bodyDefined scope).2.followed
        ((gives_emitAll body scope).bind fun _ keeps => .pure keeps) (fun _ keeps => .pure keeps) ?_ ?_
      · intro s' keeps site
        rw [← site, map_eq_pure_bind]
        exact (simulatesAll carries body bodyDefined (agrees.kept keeps)).bind fun _ _ _ _ _ =>
          .pure ⟨.nil, trivial⟩
      · exact fun _ _ _ _ _ => .pure ⟨.nil, trivial⟩
    refine (Simulates.mapRun (f := fun _ => env) (both.mono fun result _ s' keeps holds => ?_)).returns.congr ?_
    · exact (agrees.kept keeps).without holds.1
    · cases x.isSet with
      | false => rfl
      | true =>
        simp only [discard, Functor.mapConst, Function.comp, Functor.map, EStateM.map, Bind.bind, EStateM.bind, if_true]
        cases runAll call limit s.builder.site.first env body s.machine <;> rfl
  | whileLoop init carried condBody cond body next targets =>
    obtain ⟨condKnown, condDefined, rest⟩ := Option.bind_eq_some_iff.mp defined
    obtain ⟨bodyKnown, bodyDefined, rest⟩ := Option.bind_eq_some_iff.mp rest
    obtain ⟨⟨initUses, condUses, nextUses⟩, rfl⟩ := of_guard rest
    have := fun scope => (moves_emitAll condBody condDefined scope).1
    have := fun scope => (moves_emitAll body bodyDefined scope).1
    obtain ⟨regs, cells, registers, values, reads, length⟩ := agrees.getAll init initUses
    simp only [emit, run, registers, values, pure_bind]
    have sameLength {cells' : List Cell} (types : cells'.map Prod.fst = cells.map Prod.fst) : cells'.length = init.length := by
      rw [← length]
      simpa using congrArg List.length types
    refine (Simulates.whileLoopWith (f := fun site => leaveAll site condBody) (v := cells)
      (p := fun scope' env' s' => s'.Matches scope' env' condKnown)
      (q := fun scope' values scope'' => (scope'.bindAll carried values).Keeps scope'' (namesAll body))
      (fun values => (moves_emitAll condBody condDefined (scope.bindAll carried values)).2.followed)
      (fun _ _ _ _ keeps holds => holds.kept keeps) ?_ ?_ reads
      (fun scope' values => (gives_emitAll body (scope'.bindAll carried values)).bind fun scope'' keeps =>
        .after fun _ => .pure keeps) limit (Nat.le_refl limit)).bind ?_
    · intro regs' cells' s' keeps site reads' types
      have agrees' := (agrees.kept keeps).bindAll carried reads'
      rw [sameLength types] at agrees'
      rw [← site]
      refine (simulatesAll carries condBody condDefined agrees').bind fun scope' env' s'' _ holds => ?_
      obtain ⟨c, x, reg, get, bit⟩ := holds.2.get condUses
      rw [reg, get, pure_bind, pure_bind]
      exact .pure ⟨bit, holds.2⟩
    · intro scope' env' regs' cells' s' keeps site reads' types known
      have agrees' := known.bindAll carried reads'
      rw [sameLength types] at agrees'
      rw [← site]
      refine (simulatesAll carries body bodyDefined agrees').bind fun scope'' env'' s'' _ holds => ?_
      obtain ⟨nexts, cells'', registers', values', reads'', _⟩ := holds.2.getAll next nextUses
      rw [registers', values', pure_bind]
      exact .pure reads''
    · rintro ⟨merged, scope'⟩ ⟨values, env'⟩ s' keeps ⟨reads', types, scope'', known, keepsNames⟩
      have agrees' := ((known.bindAll carried reads').without keepsNames).bindAll targets reads'
      rw [sameLength types] at agrees'
      exact .pure agrees'
  | forRange start stop counter body =>
    obtain ⟨bodyKnown, bodyDefined, rest⟩ := Option.bind_eq_some_iff.mp defined
    obtain ⟨⟨startKnown, stopKnown⟩, rfl⟩ := of_guard rest
    have := fun scope => (moves_emitAll body bodyDefined scope).1
    obtain ⟨a, ⟨ty, w⟩, regStart, getStart, starts⟩ := agrees.get startKnown
    obtain ⟨b, y, regStop, getStop, stops⟩ := agrees.get stopKnown
    simp only [emit, run, regStart, getStart, regStop, getStop, pure_bind]
    have counts : host.Simulates limit (Emit.forRange a b fun i => emitAll (scope.bind counter i) body) s
        (Run.countUp (fun n => discard (runAll call limit (s.builder.site.second s.builder.site.first)
          (env.bind counter (.of ty (Word.ofInt n))) body)) (ty.signed y.2 - ty.signed w).toNat (ty.signed w))
        fun scope' _ s' => ∃ i, s'.Reads i ty (ty.normalize (Word.ofInt (max (ty.signed w) (ty.signed y.2)))) ∧
          (scope.bind counter i).Keeps scope' (namesAll body) := by
      refine Simulates.forRange (x := (ty, w)) starts stops (fun i => gives_emitAll body (scope.bind counter i)) ?_
      intro n i s' keeps site counted
      rw [← site]
      have agrees' := (agrees.kept keeps).bind counter (x := .of ty (Word.ofInt n)) counted
      exact ((simulatesAll carries body bodyDefined agrees').mono fun _ _ _ _ _ => trivial).mapRun
    refine (counts.mono fun scope' _ s' keeps holds => ?_).mapRun
    obtain ⟨i, reads, keepsNames⟩ := holds
    exact ((agrees.kept keeps).bind counter (x := .of ty _) reads).without keepsNames
  | _ =>
    obtain ⟨uses, rfl⟩ := Statement.Plain.scope (by trivial) defined
    exact Statement.Plain.simulates carries (by trivial) uses agrees

theorem Statement.simulatesAll (carries : host.Carries call) (statements : List Statement) {known known' : List String}
    (defined : scopeAll? known statements = some known') {scope : Scope} {env : Env} {s : Point}
    (agrees : s.Matches scope env known) :
    host.Simulates limit (emitAll scope statements) s (runAll call limit s.builder.site env statements)
      fun scope' env' s' => s'.builder.site = leaveAll s.builder.site statements ∧ s'.Matches scope' env' known' := by
  cases statements with
  | nil =>
    cases defined
    exact .pure ⟨rfl, agrees⟩
  | cons statement rest =>
    obtain ⟨_, first, later⟩ := Option.bind_eq_some_iff.mp defined
    have := (moves_emit statement first scope).1
    have := fun scope => (moves_emitAll rest later scope).1
    rw [emitAll, runAll, leaveAll]
    refine (simulates carries statement first agrees).bind fun scope' env' s' _ holds => ?_
    obtain ⟨site, agrees'⟩ := holds
    rw [← site]
    exact simulatesAll carries rest later agrees'

end

end

end QueryEngine
