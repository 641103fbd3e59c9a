import Mathlib.Data.List.Forall2
import QueryEngine.Proofs.Emission.Growth

set_option synthInstance.maxSize 512

namespace QueryEngine

open List

variable {α β : Type} {code : Emit α} {next f : α → Emit β} {law : Law}

/-- A fault that does not say that a row lacks a value. -/
def Fault.Plain : Fault EmitError → Prop
  | .error (.missingValue _) => False
  | _ => True

namespace Emit

/-- Code for the only register of a list. -/
def single (code : Reg → Emit α) : List Reg → Emit α
  | [r] => code r
  | _ => trap

theorem forRange_eq (start stop : Reg) (body : Reg → Emit α) : forRange start stop body = (do
    let (_, a) ← whileLoopWith [start] (single fun i => (·, ()) <$> compare .slt i stop) fun _ => single fun i => do
      let a ← body i
      let one ← const .i64 1
      return ([← binary .add i one], a)
    return a) := rfl

end Emit

/-- Whatever the code is emitted into, its result is one of these. -/
def Emit.Gives {α : Type} (code : Emit α) (post : α → Prop) : Prop := ∀ b x b', code b = .ok x b' → post x

variable {fault : Fault EmitError}

namespace Emit.Gives

variable {post : α → Prop}

theorem pure (holds : post x) : Gives (Pure.pure x) post := by
  intro b y b' emitted
  cases emitted
  exact holds

theorem throw : Gives (MonadExcept.throw fault) post := by
  intro b y b' emitted
  cases emitted

theorem bind {mid : α → Prop} {post : β → Prop} (first : Gives code mid) (second : ∀ x, mid x → Gives (next x) post) :
    Gives (code >>= next) post := by
  intro b y b' emitted
  obtain ⟨x, c, emitted1, emitted2⟩ := bind_ran emitted
  exact second x (first b x c emitted1) c y b' emitted2

theorem any (code : Emit α) : Gives code fun _ => True := fun _ _ _ _ => trivial

theorem after {post : β → Prop} (second : ∀ x, Gives (next x) post) : Gives (code >>= next) post :=
  bind (any code) fun x _ => second x

theorem ite {cond : Prop} [Decidable cond] {first second : Emit α} (whenTrue : cond → Gives first post)
    (whenFalse : ¬cond → Gives second post) : Gives (if cond then first else second) post := by
  split
  next holds => exact whenTrue holds
  next fails => exact whenFalse fails

theorem single {code : Reg → Emit α} (each : ∀ r, Gives (code r) post) : (regs : List Reg) → Gives (Emit.single code regs) post
  | [r] => each r
  | [] | _ :: _ :: _ => throw

theorem mapM {γ : Type} {code : γ → Emit α} {items : List γ} {post : α → γ → Prop}
    (each : ∀ item ∈ items, Gives (code item) fun x => post x item) :
    Gives (items.mapM code) fun xs => Forall₂ post xs items := by
  induction items with
  | nil =>
    exact pure .nil
  | cons item items ih =>
    rw [mapM_cons]
    refine bind (each item mem_cons_self) fun x holds => ?_
    refine bind (ih fun other member => each other (mem_cons_of_mem _ member)) fun xs all => ?_
    exact pure (.cons holds all)

end Emit.Gives

namespace Emit

/-- A property of emission. -/
structure Law where
  Holds : {α : Type} → Emit α → Prop

/-- A law that instructions obey, and sequences whose parts do. -/
class Law.Sequential (law : Law) : Prop where
  pure : ∀ {α : Type} (x : α), law.Holds (pure x : Emit α)
  bind : ∀ {α β : Type} {code : Emit α} {next : α → Emit β} {result : α → Prop}, law.Holds code →
    Gives code result → (∀ x, result x → law.Holds (next x)) → law.Holds (code >>= next)
  throw : ∀ {α : Type} {fault : Fault EmitError}, fault.Plain → law.Holds (throw fault : Emit α)
  get : law.Holds (get : Emit Builder)
  define : ∀ (ty : CodeType) {instruction : Instruction}, instruction.isPhi = false →
    law.Holds (define ty instruction)
  append : ∀ {instruction : Instruction}, instruction.isPhi = false → law.Holds (append instruction)

/-- A law that also holds where code names a literal, a stack slot or an entry of the program. -/
class Law.Naming (law : Law) : Prop extends law.Sequential where
  intern : ∀ bytes : Bytes, law.Holds (intern bytes)
  stackSlot : ∀ size : Nat, law.Holds (stackSlot size)
  inProgram : ∀ {α : Type} {change : Program → α × Program}, (∀ program : Program, program.Grows (change program).2) →
    law.Holds (inProgram change)

/-- A law that the steps obey which branches and loops are made of. -/
class Law.Stepwise (law : Law) : Prop extends law.Naming where
  newBlock : law.Holds newBlock
  enter : ∀ label : Label, law.Holds (enter label)
  terminate : ∀ terminator : Terminator, law.Holds (terminate terminator)
  phi : ∀ (ty : CodeType) (incoming : List (Label × Reg)), law.Holds (Emit.define ty (.phi ty incoming))
  addIncoming : ∀ (label : Label) (r : Reg) (edge : Label × Reg),
    law.Holds (modify fun b => b.addIncoming label r edge : Emit PUnit)
  between : ∀ {α : Type} (entry exit : Label) {body : Emit α}, law.Holds body → law.Holds (between entry exit body)
  loopCondition : ∀ {α : Type} (exit : Label) {cond : Emit α}, law.Holds cond → law.Holds (loopCondition exit cond)

/-- A law that branches and loops obey as well, if their parts do. -/
class Law.Structured (law : Law) : Prop extends law.Naming where
  ifThenElseWith : ∀ {α β : Type} (cond : Reg) {thenCode : Emit (List Reg × α)}
    {elseCode : α → Emit (List Reg × β)}, law.Holds thenCode → (∀ x, law.Holds (elseCode x)) →
    law.Holds (ifThenElseWith cond thenCode elseCode)
  whileLoopWith : ∀ {α β : Type} (init : List Reg) {cond : List Reg → Emit (Reg × α)}
    {body : α → List Reg → Emit (List Reg × β)}, (∀ values, law.Holds (cond values)) →
    (∀ x values, law.Holds (body x values)) → law.Holds (whileLoopWith init cond body)

/-- A law that code which fails obeys, whatever the cause. -/
class Law.Lenient (law : Law) : Prop where
  fails : ∀ {α : Type} (cause : EmitError), law.Holds (fail cause : Emit α)

/-- Emission that obeys a law. -/
class Obeys (law : Law) (code : Emit α) : Prop where
  holds : law.Holds code

instance [law.Lenient] (cause : EmitError) : Obeys law (fail cause : Emit α) := ⟨Law.Lenient.fails cause⟩

section Sequential

variable [law.Sequential]

instance : Obeys law (pure x : Emit α) := ⟨Law.Sequential.pure x⟩

/-- What follows only has to obey the law for the results that there can be. -/
theorem Obeys.bind (first : Obeys law code) (gives : Gives code result) (rest : ∀ x, result x → Obeys law (next x)) :
    Obeys law (code >>= next) :=
  ⟨Law.Sequential.bind first.holds gives fun x holds => (rest x holds).holds⟩

theorem Obeys.seq (first : Obeys law code) (rest : ∀ x, Obeys law (next x)) :
    Obeys law (code >>= next) := first.bind (.any code) fun x _ => rest x

theorem Obeys.after [first : Obeys law code] (rest : ∀ x, Obeys law (next x)) : Obeys law (code >>= next) := first.seq rest

instance (next : α → Emit β) [Obeys law code] [∀ x, Obeys law (next x)] : Obeys law (code >>= next) :=
  .seq inferInstance inferInstance

instance (f : α → β) [Obeys law code] : Obeys law (f <$> code) := by
  rw [map_eq_pure_bind]
  infer_instance

instance [Obeys law code] : Obeys law (discard code) :=
  inferInstanceAs (Obeys law (Function.const α () <$> code))

theorem Obeys.throw (plain : fault.Plain) : Obeys law (throw fault : Emit α) :=
  ⟨Law.Sequential.throw plain⟩

instance : Obeys law (failCode cause : Emit α) := .throw trivial

instance : Obeys law (failValue problem : Emit α) := .throw trivial

instance : Obeys law (fail (.type cause) : Emit α) := .throw trivial

instance : Obeys law (fail (.datum cause) : Emit α) := .throw trivial

instance : Obeys law (fail (.cast source target) : Emit α) := .throw trivial

instance : Obeys law (fail (.flow problem) : Emit α) := .throw trivial

instance : Obeys law (trap : Emit α) := .throw trivial

instance : (x : Option α) → Obeys law (orTrap x)
  | some x => inferInstanceAs (Obeys law (pure x))
  | none => inferInstanceAs (Obeys law trap)

instance : (x : Checked DatumError α) → Obeys law (ofChecked .datum x)
  | .ok x => inferInstanceAs (Obeys law (pure x))
  | .error .trap | .error (.error _) => .throw trivial

instance : Obeys law (get : Emit Builder) := ⟨Law.Sequential.get⟩

instance : Obeys law encoding := by
  unfold encoding
  infer_instance

instance : Obeys law (typeOf r) := by
  unfold typeOf
  infer_instance

instance (cond : Prop) [Decidable cond] (first second : Emit α) [Obeys law first] [Obeys law second] :
    Obeys law (if cond then first else second) := by
  split <;> infer_instance

instance (code : Reg → Emit α) [∀ r, Obeys law (code r)] : (regs : List Reg) → Obeys law (single code regs)
  | [r] => inferInstanceAs (Obeys law (code r))
  | [] | _ :: _ :: _ => inferInstanceAs (Obeys law trap)

theorem Obeys.mapM {xs : List α} (each : ∀ x ∈ xs, Obeys law (f x)) : Obeys law (xs.mapM f) := by
  induction xs with
  | nil => rw [mapM_nil]; infer_instance
  | cons x xs ih =>
    have := each x mem_cons_self
    have := ih fun other member => each other (mem_cons_of_mem _ member)
    rw [mapM_cons]
    infer_instance

instance (xs : List α) (f : α → Emit β) [∀ x, Obeys law (f x)] : Obeys law (xs.mapM f) := .mapM fun _ _ => inferInstance

instance (f : α → Emit β) [∀ x, Obeys law (f x)] : (x : Option α) → Obeys law (x.mapM f)
  | none => inferInstanceAs (Obeys law (pure none))
  | some x => inferInstanceAs (Obeys law (some <$> f x))

variable {instruction : Instruction}

theorem Obeys.define (ty : CodeType) (plain : instruction.isPhi = false) : Obeys law (define ty instruction) :=
  ⟨Law.Sequential.define ty plain⟩

theorem Obeys.append (plain : instruction.isPhi = false) : Obeys law (append instruction) :=
  ⟨Law.Sequential.append plain⟩

instance : Obeys law (define ty (.const ty w)) := .define ty rfl

instance : Obeys law (define ty (.binary op lhs rhs)) := .define ty rfl

instance : Obeys law (define ty (.select c thenValue elseValue)) := .define ty rfl

instance : Obeys law (define ty (.call routine args)) := .define ty rfl

instance : Obeys law (append (.call routine args)) := .append rfl

instance : Obeys law (param index) := by
  refine .after fun b => ?_
  split
  · exact .define _ rfl
  · infer_instance

instance : Obeys law (const ty n) := .define ty rfl

instance : Obeys law (constWord w) := .define .i64 rfl

instance : Obeys law (constBool value) := inferInstanceAs (Obeys law (const _ _))

instance : Obeys law nullPtr := inferInstanceAs (Obeys law (const _ _))

instance : Obeys law (binary op lhs rhs) := by
  unfold binary
  infer_instance

instance : Obeys law (overflows op lhs rhs) := .define .i1 rfl

instance : Obeys law (compare pred lhs rhs) := .define .i1 rfl

instance : Obeys law (not r) := by
  unfold not
  infer_instance

instance : Obeys law (select c thenValue elseValue) := by
  unfold select
  infer_instance

instance : Obeys law (cast op value ty) := .define ty rfl

instance : Obeys law (resize value ty signed) := by
  unfold resize
  infer_instance

instance : Obeys law (load ty address) := .define ty rfl

instance : Obeys law (store value address) := .append rfl

instance : Obeys law (ptrAdd address offset) := .define .ptr rfl

instance : Obeys law (ptrOffset address offset) := by
  unfold ptrOffset
  infer_instance

instance : Obeys law (checkArguments name index params args) := by
  induction params generalizing index args with
  | nil => unfold checkArguments; infer_instance
  | cons expected params ih => cases args <;> (unfold checkArguments; infer_instance)

end Sequential

section Naming

variable [law.Naming]

theorem Obeys.inProgram {change : Program → α × Program}
    (grows : ∀ program : Program, program.Grows (change program).2) : Obeys law (inProgram change) :=
  ⟨Law.Naming.inProgram grows⟩

instance : Obeys law (intern bytes) := ⟨Law.Naming.intern bytes⟩

instance : Obeys law (constBytes bytes) := by
  unfold constBytes
  infer_instance

instance : Obeys law (stackSlot size) := ⟨Law.Naming.stackSlot size⟩

instance : Obeys law (inProgram fun program : Program => ((), program.declare routine)) :=
  .inProgram fun program => .declare program routine

instance : Obeys law (inProgram fun program => program.tableHandle table) :=
  .inProgram fun program => .tableHandle program table

instance : Obeys law (inProgram fun program => program.tupleLayout types) :=
  .inProgram fun program => .tupleLayout program types

instance : Obeys law (inProgram fun program => program.columnList columns) :=
  .inProgram fun program => .columnList program columns

instance : Obeys law (call routine args) := by
  unfold call
  cases routine.result <;> infer_instance

theorem Obeys.resultOf (routine : Routine) (r : Option Reg) : Obeys law (match r with
    | some r => pure r
    | none => failCode (.badCall routine.name .noResult) : Emit Reg) := by
  cases r <;> infer_instance

instance : Obeys law (callValue routine args) :=
  .seq inferInstance (.resultOf routine)

instance : Obeys law (callEffect routine args) := by
  unfold callEffect
  infer_instance

end Naming

section Stepwise

variable [law.Stepwise]

instance : Obeys law newBlock := ⟨Law.Stepwise.newBlock⟩

instance : Obeys law (enter label) := ⟨Law.Stepwise.enter label⟩

instance : Obeys law (terminate terminator) := ⟨Law.Stepwise.terminate terminator⟩

instance [Obeys law body] : Obeys law (between entry exit body) :=
  ⟨Law.Stepwise.between entry exit Obeys.holds⟩

instance (exit : Label) (cond : Emit α) [Obeys law cond] : Obeys law (loopCondition exit cond) :=
  ⟨Law.Stepwise.loopCondition exit Obeys.holds⟩

instance : Obeys law (checkMergeTypes position first second) := by
  induction first generalizing position second with
  | nil => unfold checkMergeTypes; infer_instance
  | cons r first ih => cases second <;> (unfold checkMergeTypes; infer_instance)

instance : Obeys law (checkMerge first second) := by
  unfold checkMerge
  infer_instance

instance : Obeys law (Emit.define ty (.phi ty incoming)) := ⟨Law.Stepwise.phi ty incoming⟩

instance : Obeys law (mergeValues firstEnd secondEnd first second) := by
  induction first generalizing second with
  | nil => unfold mergeValues; infer_instance
  | cons r first ih => cases second <;> (unfold mergeValues; infer_instance)

instance : Obeys law (carryValues preheader values) := by
  induction values with
  | nil => unfold carryValues; infer_instance
  | cons r values ih => unfold carryValues; infer_instance

instance : Obeys law (addLatch header latch carried values) := by
  have (phi value : Reg) : Obeys law (modify fun b => b.addIncoming header phi (latch, value) : Emit PUnit) :=
    ⟨Law.Stepwise.addIncoming header phi (latch, value)⟩
  induction carried generalizing values with
  | nil => unfold addLatch; infer_instance
  | cons r carried ih => cases values <;> (unfold addLatch; infer_instance)

instance : law.Structured where
  ifThenElseWith := by
    intro _ _ cond thenCode elseCode first second
    have : Obeys law thenCode := ⟨first⟩
    have : ∀ x, Obeys law (elseCode x) := fun x => ⟨second x⟩
    have obeys : Obeys law (ifThenElseWith cond thenCode elseCode) := by
      refine .after fun _ => .after fun _ => .after fun _ => .after fun _ => ?_
      exact .after fun ((_, _), _) => .after fun ((_, _), _) => inferInstance
    exact obeys.holds
  whileLoopWith := by
    intro _ _ init cond body first second
    have : ∀ values, Obeys law (cond values) := fun values => ⟨first values⟩
    have : ∀ x values, Obeys law (body x values) := fun x values => ⟨second x values⟩
    have obeys : Obeys law (whileLoopWith init cond body) := by
      refine .after fun _ => .after fun _ => .after fun _ => .after fun _ => ?_
      refine .after fun _ => .after fun _ => .after fun _ => ?_
      exact .after fun (_, _) => .after fun _ => .after fun ((_, _), _) => inferInstance
    exact obeys.holds

end Stepwise

section Structured

variable [law.Structured]

instance (cond : Reg) (thenCode : Emit (List Reg × α)) (elseCode : α → Emit (List Reg × β)) [Obeys law thenCode]
    [∀ x, Obeys law (elseCode x)] : Obeys law (ifThenElseWith cond thenCode elseCode) :=
  ⟨Law.Structured.ifThenElseWith cond Obeys.holds fun _ => Obeys.holds⟩

instance (cond : Reg) (thenCode elseCode : Emit (List Reg)) [Obeys law thenCode] [Obeys law elseCode] :
    Obeys law (ifThenElse cond thenCode elseCode) := by
  unfold ifThenElse
  infer_instance

instance (cond : Reg) (code : Emit α) [Obeys law code] : Obeys law (ifThen cond code) := by
  unfold ifThen
  infer_instance

instance (cond : List Reg → Emit (Reg × α)) (body : α → List Reg → Emit (List Reg × β))
    [∀ values, Obeys law (cond values)] [∀ x values, Obeys law (body x values)] :
    Obeys law (whileLoopWith init cond body) :=
  ⟨Law.Structured.whileLoopWith init (fun _ => Obeys.holds) fun _ _ => Obeys.holds⟩

instance (cond : List Reg → Emit Reg) (body : List Reg → Emit (List Reg)) [∀ values, Obeys law (cond values)]
    [∀ values, Obeys law (body values)] : Obeys law (whileLoop init cond body) := by
  unfold whileLoop
  infer_instance

instance (body : Reg → Emit α) [∀ i, Obeys law (body i)] : Obeys law (forRange start stop body) := by
  rw [forRange_eq]
  infer_instance

end Structured

/-- A function only grows. -/
def growth : Law where
  Holds code := ∀ {b b' : Builder} {x}, b.Ready → code b = .ok x b' → b.Grows b'

/-- Emission that only lets a function grow. -/
abbrev Growing (code : Emit α) : Prop := Obeys growth code

theorem Growing.grows [growing : Growing code] (ready : b.Ready) (emitted : code b = .ok x b') :
    b.Grows b' := growing.holds ready emitted

theorem intern_ok (emitted : intern bytes b = .ok a b') :
    b.program.literals.hasRoom bytes = true ∧ a = (b.program.literals.intern bytes).1 ∧
      b' = { b with program.literals := (b.program.literals.intern bytes).2 } := by
  obtain ⟨_, _, ⟨⟩, rest⟩ := bind_ran emitted
  obtain ⟨⟨_, literals⟩, c, found, rest⟩ := bind_ran rest
  cases interned : b.program.literals.intern? bytes with
  | none => rw [interned] at found; cases found
  | some result =>
    rw [interned] at found
    cases found
    obtain ⟨room, same⟩ := TextHeap.intern?_eq_some interned
    cases rest
    exact ⟨room, by rw [same], by rw [same]⟩

instance : growth.Naming where
  pure _ := fun ready emitted => by cases emitted; exact .refl ready
  bind first gives rest := fun ready emitted => by
    obtain ⟨x, c, emitted1, emitted2⟩ := bind_ran emitted
    have grows := first ready emitted1
    exact grows.trans ready (rest x (gives _ x c emitted1) grows.ready emitted2)
  throw _ := fun _ emitted => by cases emitted
  get := fun ready emitted => by cases emitted; exact .refl ready
  define ty _ plain := fun ready emitted => by
    cases emitted
    exact (Builder.Appends.define ready ty _).grows ready (by simpa using plain)
  append plain := fun ready emitted => by
    cases emitted
    exact (Builder.Appends.append ready ⟨none, _⟩).grows ready (by simpa using plain)
  intern _ := fun ready emitted => by
    obtain ⟨room, _, rfl⟩ := intern_ok emitted
    exact Builder.Grows.inProgram ready (.intern _ room)
  stackSlot size := fun ready emitted => by
    cases emitted
    exact Builder.Grows.stackSlot ready size
  inProgram grows := fun ready emitted => by
    cases emitted
    exact Builder.Grows.inProgram ready (grows _)

instance : growth.Lenient where
  fails _ := fun _ emitted => by cases emitted

end Emit

end QueryEngine
