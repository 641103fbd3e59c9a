import QueryEngine.Proofs.Emission.Values

namespace QueryEngine

open List Emit

variable {b : Builder} {count : Nat} {ty : CodeType} {r : Reg} {γ : Type} {items : List γ}

/-- There are addresses for this many more literals. -/
def Builder.Room (b : Builder) (count : Nat) : Prop :=
  (b.program.literals.size + count + 1) * Arena.literal.span ≤ arenaSpan

theorem Builder.Room.mono {fewer : Nat} (room : b.Room count) (less : fewer ≤ count) : b.Room fewer :=
  Nat.le_trans (Nat.mul_le_mul_right _ (by omega)) room

theorem Builder.Ready.room (ready : b.Ready) : b.Room 0 := by
  have count := ready.addressable.literals.count
  rw [ready.addressable.arena] at count
  exact count

variable {bytes : Bytes}

theorem TextHeap.hasRoom_of_room (ready : b.Ready) (room : b.Room (count + 1))
    (short : bytes.length ≤ Arena.literal.span) : b.program.literals.hasRoom bytes = true := by
  have atLeast : (b.program.literals.size + 2) * Arena.literal.span ≤ arenaSpan :=
    room.mono (Nat.le_add_left 1 count)
  simp only [hasRoom, ready.addressable.arena, Bool.and_eq_true, decide_eq_true_eq]
  exact ⟨atLeast, Nat.max_le.mpr ⟨Arena.literal.span_pos, short⟩⟩

theorem Reg.Of.mono {b' : Builder} (typed : r.Of ty b)
    (more : b.function.types.toList <+: b'.function.types.toList) : r.Of ty b' := typeOf?_mono more typed

namespace Emit

section

variable {α β : Type} {c : Builder} {fault : Fault EmitError}

theorem typeOf_of_typed (typed : r.Of ty b) : typeOf r b = .ok ty b := by
  simp only [typeOf, bind_of_ok (show (get : Emit Builder) b = .ok b b from rfl), typed]
  rfl

end

/-- Emission into a builder that has room for so many literals. It ends with a result of which `post` holds, and leaves
room for as many as `left`, or with one of the faults `fails`. -/
def Safe {α : Type} (fails : Fault EmitError → Prop) (room left : Nat) (code : Emit α) (b : Builder)
    (post : α → Builder → Prop) : Prop :=
  b.Ready → b.Room room → match code b with
    | .ok x b' => b'.Room left ∧ post x b'
    | .error fault _ => fails fault

variable {α β : Type} {fails : Fault EmitError → Prop} {n k l : Nat}

namespace Safe

variable {post : α → Builder → Prop} {code : Emit α}

/-- Code that cannot fail is emitted. -/
theorem emitted (safe : Safe (fun _ => False) n k code b post) (ready : b.Ready) (room : b.Room n) :
    ∃ x b', code b = .ok x b' ∧ post x b' := by
  have ends := safe ready room
  cases found : code b with
  | ok x b' => rw [found] at ends; exact ⟨x, b', rfl, ends.2⟩
  | error fault b' => rw [found] at ends; exact ends.elim

variable {x : α}

theorem of_ok (ok : code b = .ok x b') (program : b'.program.literals = b.program.literals)
    (holds : b.Ready → post x b') :
    Safe fails n n code b post := by
  intro ready room
  rw [ok]
  refine ⟨?_, holds ready⟩
  unfold Builder.Room
  rwa [program]

theorem pure (holds : post x b) : Safe fails n n (Pure.pure x) b post :=
  of_ok rfl rfl fun _ => holds

theorem throw (allowed : fails fault) : Safe fails n k (MonadExcept.throw fault) b post :=
  fun _ _ => allowed

theorem mono {post' : α → Builder → Prop} (safe : Safe fails n k code b post) [Growing code]
    (weaker : ∀ x b', b.Grows b' → post x b' → post' x b') : Safe fails n k code b post' := by
  intro ready room
  have ends := safe ready room
  split at ends
  next found => exact ⟨ends.1, weaker _ _ (Growing.grows ready found) ends.2⟩
  · exact ends

/-- Room that is not needed. -/
theorem spare (safe : Safe fails n k code b post) {n' : Nat} (more : n ≤ n') : Safe fails n' k code b post :=
  fun ready room => safe ready (room.mono more)

theorem bind {next : α → Emit β} {mid : α → Builder → Prop} {post : β → Builder → Prop} [Growing code]
    (first : Safe fails n k code b mid) (second : ∀ x b', b.Grows b' → mid x b' → Safe fails k l (next x) b' post) :
    Safe fails n l (code >>= next) b post := by
  intro ready room
  have ends := first ready room
  simp only [Bind.bind, EStateM.bind]
  cases found : code b with
  | ok x b' =>
    rw [found] at ends
    have grows := Growing.grows ready found
    exact second x b' grows ends.2 grows.ready ends.1
  | error fault b' => rw [found] at ends; exact ends

theorem map {f : α → β} {post : β → Builder → Prop} [Growing code]
    (safe : Safe fails n k code b fun x b' => post (f x) b') : Safe fails n k (f <$> code) b post := by
  exact safe.bind fun x b' _ holds => .pure holds

theorem ite {cond : Prop} [Decidable cond] (whenTrue : cond → Safe fails n k first b post)
    (whenFalse : ¬cond → Safe fails n k second b post) :
    Safe fails n k (if cond then first else second) b post := by
  split
  next holds => exact whenTrue holds
  next misses => exact whenFalse misses

theorem orTrap (found : x? = some x) : Safe fails n n (orTrap x?) b fun y b' => b' = b ∧ y = x := by
  subst found
  exact .pure ⟨rfl, rfl⟩

theorem ofChecked {ε : Type} {wrap : ε → EmitError} {checked : Checked ε α} (found : checked = .ok x) :
    Safe fails n n (ofChecked wrap checked) b fun y b' => b' = b ∧ y = x := by
  subst found
  exact .pure ⟨rfl, rfl⟩

variable {cond : Reg}

section

variable {r' : Reg} {ty' : CodeType}

theorem typeOf (typed : r.Of ty b) : Safe fails n n (typeOf r) b fun found b' => b' = b ∧ found = ty :=
  of_ok (typeOf_of_typed typed) rfl fun _ => ⟨rfl, rfl⟩

theorem encoding : Safe fails n n encoding b fun found b' => b' = b ∧ found = b.program.encoding :=
  of_ok rfl rfl fun _ => ⟨rfl, rfl⟩

theorem typeOf?_define (b : Builder) (ty : CodeType) (instruction : Instruction) :
    (b.define ty instruction).2.function.typeOf? (b.define ty instruction).1 = some ty := by
  simp [Builder.define, Builder.addReg, Builder.append, Builder.modifyBlock, Function.typeOf?]

theorem define (ty : CodeType) (instruction : Instruction) :
    Safe fails n n (Emit.define ty instruction) b (Reg.Of ty) :=
  of_ok rfl rfl fun _ => typeOf?_define b ty instruction

theorem append (instruction : Instruction) : Safe fails n n (append instruction) b fun _ _ => True :=
  of_ok rfl rfl fun _ => trivial

theorem const (ty : CodeType) (value : Int) : Safe fails n n (const ty value) b (Reg.Of ty) := define _ _

theorem constBool (value : Bool) : Safe fails n n (constBool value) b (Reg.Of .i1) := const _ _

theorem binary (op : BinaryOp) (typed : r.Of ty b) : Safe fails n n (binary op r r') b (Reg.Of ty) :=
  (typeOf typed).bind fun found b' _ ⟨same, type⟩ => by
    subst same type
    exact define _ _

theorem overflows (op : OverflowOp) : Safe fails n n (overflows op r r') b (Reg.Of .i1) := define _ _

theorem compare (pred : Predicate) : Safe fails n n (compare pred r r') b (Reg.Of .i1) := define _ _

theorem not (typed : r.Of .i1 b) : Safe fails n n (not r) b (Reg.Of .i1) :=
  (const .i1 1).bind fun _ _ grows _ => binary .xor (typed.mono grows.types)

theorem select (typed : r.Of ty b) : Safe fails n n (select cond r r') b (Reg.Of ty) :=
  (typeOf typed).bind fun found b' _ ⟨same, type⟩ => by
    subst same type
    exact define _ _

theorem resize (typed : r.Of ty b) (ty' : CodeType) (signed : Bool) :
    Safe fails n n (resize r ty' signed) b (Reg.Of (if ty.bits = ty'.bits then ty else ty')) := by
  refine (typeOf typed).bind fun found b' _ ⟨same, type⟩ => ?_
  subst same type
  refine .ite (fun equal => ?_) fun different => ?_
  · rw [if_pos equal]
    exact .pure typed
  · rw [if_neg different]
    exact .ite (fun _ => define _ _) fun _ => .ite (fun _ => define _ _) fun _ => define _ _

theorem load (ty : CodeType) (address : Reg) : Safe fails n n (load ty address) b (Reg.Of ty) := define _ _

theorem store (value address : Reg) : Safe fails n n (store value address) b fun _ _ => True := append _

theorem ptrOffset (typed : r.Of .ptr b) (offset : Nat) : Safe fails n n (ptrOffset r offset) b (Reg.Of .ptr) := by
  refine .ite (fun _ => .pure typed) fun _ => ?_
  exact .bind (const .i64 offset) fun _ _ _ _ => define _ _

theorem intern (short : bytes.length ≤ Arena.literal.span) :
    Safe fails (n + 1) n (Emit.intern bytes) b fun _ _ => True := by
  intro ready room
  have found : b.program.literals.intern? bytes = some (b.program.literals.intern bytes) := by
    rw [TextHeap.intern?, if_pos (TextHeap.hasRoom_of_room ready room short)]
  have ok : Emit.intern bytes b = .ok (b.program.literals.intern bytes).1
      { b with program.literals := (b.program.literals.intern bytes).2 } := by
    simp only [Emit.intern, bind_of_ok (show (get : Emit Builder) b = .ok b b from rfl), found]
    rfl
  rw [ok]
  refine ⟨?_, trivial⟩
  simp only [Builder.Room, TextHeap.intern, TextHeap.size, Array.size_push] at room ⊢
  rwa [show b.program.literals.texts.size + 1 + n + 1 = b.program.literals.texts.size + (n + 1) + 1 by omega]

theorem constBytes (short : bytes.length ≤ Arena.literal.span) :
    Safe fails (n + 1) n (constBytes bytes) b fun regs b' =>
      regs.1.Of .ptr b' ∧ regs.2.Of .i64 b' := by
  refine (intern short).bind fun address b1 _ _ => ?_
  refine (define .ptr _).bind fun ptr b2 _ ptrTyped => ?_
  refine (const .i64 bytes.length).bind fun len b3 grows3 lenTyped => ?_
  exact .pure ⟨ptrTyped.mono grows3.types, lenTyped⟩

end

variable {args : List Reg}

theorem checkArguments (typed : Typed b args params) :
    Safe fails n n (checkArguments name index params args) b fun _ b' => b' = b := by
  induction typed generalizing index with
  | nil => exact .pure rfl
  | cons head _ ih =>
    refine (typeOf head).bind fun found b' _ ⟨same, type⟩ => ?_
    subst same type
    exact .ite (fun _ => ih) fun different => absurd rfl different

theorem declare (routine : Routine) : Safe fails n n (inProgram fun program => ((), program.declare routine)) b
    fun _ b' => b'.function = b.function := by
  refine of_ok rfl ?_ fun _ => rfl
  simp only [Program.declare]
  split <;> rfl

variable {routine : Routine}

theorem call (typed : Typed b args routine.params) : Safe fails n n (call routine args) b fun result b' =>
      ∀ ty, routine.result = some ty → ∃ r, result = some r ∧ r.Of ty b' := by
  unfold Emit.call
  rw [if_neg (by simpa using typed.length_eq.symm)]
  refine (checkArguments typed).bind fun _ b1 _ same => ?_
  refine (declare routine).bind fun _ b2 _ _ => ?_
  cases routine.result with
  | none => exact .bind (append _) fun _ _ _ _ => .pure fun ty impossible => by cases impossible
  | some ty =>
    refine .map ((define ty (.call routine args)).mono fun r b3 _ typed ty' same => ?_)
    cases same
    exact ⟨r, rfl, typed⟩

theorem callValue (result : routine.result = some ty) (typed : Typed b args routine.params) :
    Safe fails n n (callValue routine args) b (Reg.Of ty) := by
  refine (call typed).bind fun found b' _ gives => ?_
  obtain ⟨r, rfl, typed⟩ := gives ty result
  exact .pure typed

theorem callEffect (typed : Typed b args routine.params) :
    Safe fails n n (callEffect routine args) b fun _ _ => True :=
  .map ((call typed).mono fun _ _ _ _ => trivial)

section Branches

variable {types : List CodeType}

theorem checkMergeTypes_of_typed (left : Typed b first types) (right : Typed b second types) :
    checkMergeTypes position first second b = .ok () b := by
  induction left generalizing position second with
  | nil => cases right; rfl
  | @cons r ty first types head _ ih =>
    obtain ⟨_, second, head', tail', rfl⟩ := forall₂_cons_right_iff.mp right
    rw [checkMergeTypes, bind_of_ok (typeOf_of_typed head), bind_of_ok (typeOf_of_typed head'), if_pos rfl]
    exact ih tail'

theorem checkMerge_of_typed (left : Typed b first types) (right : Typed b second types) :
    checkMerge first second b = .ok () b := by
  unfold checkMerge
  rw [if_neg (by simp [left.length_eq, right.length_eq])]
  exact checkMergeTypes_of_typed left right

theorem mergeValues_of_typed (firstEnd secondEnd : Label) (left : Typed b first types) (right : Typed b second types) :
    ∃ merged b', mergeValues firstEnd secondEnd first second b = .ok merged b' ∧ b'.program = b.program ∧
      b.function.types.toList <+: b'.function.types.toList ∧ Typed b' merged types := by
  induction types generalizing first second b with
  | nil =>
    cases left
    cases right
    exact ⟨[], b, rfl, rfl, prefix_refl _, .nil⟩
  | cons ty types ih =>
    obtain ⟨r, first, head, tail, rfl⟩ := forall₂_cons_right_iff.mp left
    obtain ⟨r', second, _, tail', rfl⟩ := forall₂_cons_right_iff.mp right
    let phi : Instruction := .phi ty [(firstEnd, r), (secondEnd, r')]
    have more : b.function.types.toList <+: (b.define ty phi).2.function.types.toList := by
      simp [Builder.define, Builder.addReg, Builder.append, Builder.modifyBlock]
    obtain ⟨merged, b', emitted, program, later, typed⟩ := ih (Typed.mono tail more) (Typed.mono tail' more)
    refine ⟨(b.define ty phi).1 :: merged, b', ?_, program, more.trans later,
      .cons (typeOf?_mono later (typeOf?_define b ty phi)) typed⟩
    have defined : Emit.define ty phi b = .ok (b.define ty phi).1 (b.define ty phi).2 := rfl
    rw [mergeValues, bind_of_ok (typeOf_of_typed head), bind_of_ok defined, bind_of_ok emitted]
    rfl

/-- Both sides of a branch give values of the same types, one after the other. -/
theorem ifThenElseWith {elseCode : α → Emit (List Reg × β)} [Growing thenCode] [∀ x, Growing (elseCode x)]
    (first : ∀ c, b.function.types.toList <+: c.function.types.toList → Safe fails n k thenCode c fun x d => Typed d x.1 types)
    (second : ∀ a c, b.function.types.toList <+: c.function.types.toList →
      Safe fails k l (elseCode a) c fun x d => Typed d x.1 types) :
    Safe fails n l (ifThenElseWith cond thenCode elseCode) b fun x d => Typed d x.1 types := by
  intro ready room
  rw [ifThenElseWith_eq]
  have ends := first (b.thenStart cond) (prefix_refl _) ready.opened room
  cases thenSide : thenCode (b.thenStart cond) with
  | error fault c => rw [thenSide] at ends; exact ends
  | ok x c =>
    rw [thenSide] at ends
    obtain ⟨thenValues, a⟩ := x
    have grows := Growing.grows ready.opened thenSide
    have ready' : (c.goTo (.jump ⟨b.function.blocks.size + 2⟩) ⟨b.function.blocks.size + 1⟩).Ready :=
      (Builder.FirstPart.thenStart ready grows).next_ready
    have ends' := second a (c.goTo (.jump ⟨b.function.blocks.size + 2⟩) ⟨b.function.blocks.size + 1⟩) grows.types ready' ends.1
    dsimp only
    cases elseSide : elseCode a (c.goTo (.jump ⟨b.function.blocks.size + 2⟩) ⟨b.function.blocks.size + 1⟩) with
    | error fault d => rw [elseSide] at ends'; exact ends'
    | ok x d =>
      rw [elseSide] at ends'
      obtain ⟨elseValues, y⟩ := x
      have grows' := Growing.grows ready' elseSide
      have stop : ∃ e, e = d.goTo (.jump ⟨b.function.blocks.size + 2⟩) ⟨b.function.blocks.size + 2⟩ := ⟨_, rfl⟩
      obtain ⟨e, stop⟩ := stop
      have left : Typed e thenValues types := stop ▸ Typed.mono ends.2 grows'.types
      have right : Typed e elseValues types := stop ▸ ends'.2
      obtain ⟨_, b', merges, program, _, typed⟩ := mergeValues_of_typed c.current d.current left right
      dsimp only
      rw [← stop]
      rw [bind_of_ok (checkMerge_of_typed left right), bind_of_ok merges]
      have room' : d.Room l := ends'.1
      have same : b'.program = d.program := program.trans (by rw [stop]; rfl)
      exact ⟨by unfold Builder.Room; rw [same]; exact room', typed⟩

theorem ifThenElse [Growing thenCode] [Growing elseCode]
    (first : ∀ c, b.function.types.toList <+: c.function.types.toList → Safe fails n k thenCode c
      fun values d => Typed d values types)
    (second : ∀ c, b.function.types.toList <+: c.function.types.toList →
      Safe fails k l elseCode c fun values d => Typed d values types) :
    Safe fails n l (ifThenElse cond thenCode elseCode) b fun merged d => Typed d merged types :=
  (ifThenElseWith (fun c more => .map (first c more)) fun _ c more => .map (second c more)).bind fun _ _ _ typed =>
    .pure typed

theorem ifThen [Growing code]
    (safe : ∀ c, b.function.types.toList <+: c.function.types.toList → Safe fails n k code c fun _ _ => True) :
    Safe fails n k (ifThen cond code) b fun _ _ => True := by
  have branch : Safe fails n k (Emit.ifThenElseWith cond (([], ·) <$> code) fun a => Pure.pure ([], a)) b
      fun x d => Typed d x.1 [] :=
    ifThenElseWith (fun c more => .map ((safe c more).mono fun _ _ _ _ => .nil)) fun _ _ _ => .pure .nil
  exact branch.bind fun _ _ _ _ => .pure trivial

end Branches

theorem mapM {code : γ → Emit α} [∀ item, Growing (code item)] (post : γ → α → Builder → Prop)
    (later : ∀ item x c d, c.Grows d → post item x c → post item x d)
    (each : ∀ item ∈ items, ∀ c, b.function.types.toList <+: c.function.types.toList →
      c.program.encoding = b.program.encoding → Safe fails n n (code item) c (post item)) :
    Safe fails n n (items.mapM code) b fun xs d => Forall₂ (fun item x => post item x d) items xs := by
  induction items generalizing b with
  | nil => exact .pure .nil
  | cons item items ih =>
    rw [mapM_cons]
    refine (each item mem_cons_self b (prefix_refl _) rfl).bind fun x b1 grows1 holds => ?_
    refine (ih fun other member c more same => each other (mem_cons_of_mem _ member) c (grows1.types.trans more)
      (same.trans grows1.program.encoding)).bind fun xs b2 grows2 all => ?_
    exact .pure (.cons (later item x b1 b2 grows2 holds) all)

theorem foldlM {code : β → γ → Emit β} [∀ y item, Growing (code y item)] {init : β}
    {inv : β → Builder → Prop} (start : inv init b)
    (each : ∀ y, ∀ item ∈ items, ∀ c, b.function.types.toList <+: c.function.types.toList → inv y c →
      Safe fails n n (code y item) c inv) : Safe fails n n (items.foldlM code init) b inv := by
  induction items generalizing b init with
  | nil => exact .pure start
  | cons item items ih =>
    refine (each init item mem_cons_self b (prefix_refl _) start).bind fun y b1 grows1 holds => ?_
    exact ih holds fun y other member c more => each y other (mem_cons_of_mem _ member) c (grows1.types.trans more)

end Safe

end Emit

end QueryEngine
