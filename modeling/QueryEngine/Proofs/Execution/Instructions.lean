import QueryEngine.Proofs.Execution.Simulation
import QueryEngine.Proofs.Script.Semantics

namespace QueryEngine

variable {s : Point} {r : Reg} {n : Int} {args : List Reg}

/-- The register holds a number of its type. -/
structure Point.Number (s : Point) (r : Reg) (ty : CodeType) (n : Int) : Prop where
  reads : s.Reads r ty (Word.ofInt n)
  fits : ty.fits n = true

/-- The register holds a single bit. -/
abbrev Point.Bit (s : Point) (r : Reg) (b : Bool) : Prop := s.Reads r .i1 (Word.ofBool b)

theorem Point.Number.mono {s' : Point} (number : s.Number r ty n) (before : s.Before s') :
    s'.Number r ty n :=
  ⟨number.reads.mono before, number.fits⟩

theorem Point.Bit.isSet {b : Bool} (bit : s.Bit r b) : s.frame.isSet r = b := by
  rw [Frame.isSet, bit.value]
  cases b <;> rfl

theorem Run.checkAddress_ok (present : a ≠ 0) : checkAddress f a m = .ok () m := by
  rw [checkAddress, if_neg present]
  rfl

section

open CodeType Run Cell
open Word hiding signed

variable {ty : CodeType} {a b : Reg} {limit : Nat} {host : Host} {x y : Cell}

/-- A run of the code leaves the machine as it is and gives a register that holds the cell. -/
def Host.Computes (host : Host) (limit : Nat) (code : Emit Reg) (s : Point) (x : Cell) : Prop :=
  host.Simulates limit code s (Pure.pure x) fun r _ s' => s'.Reads r x.1 x.2

namespace Host.Computes

open Emit

theorem define (plain : instruction.isPhi = false)
    (run : s.Placed host →
      execute host.routines host.function host.args s.frame instruction s.machine = .ok w s.machine) :
    host.Computes limit (define ty instruction) s (.of ty w) := by
  have defined : host.Simulates limit (Emit.define ty instruction) s (pure w : Run Word)
      fun r w s' => s'.Reads r ty (ty.normalize w) := .define plain run
  intro r b' emitted within here
  exact defined r b' emitted within here

theorem typed {next : CodeType → Emit Reg} (reads : s.Reads a x.1 x.2) (rest : host.Computes limit (next x.1) s y) :
    host.Computes limit (typeOf a >>= next) s y := by
  refine Simulates.silent (p := fun ty => ty = x.1) (fun ty b' emitted => ?_) fun ty same => same ▸ rest
  obtain ⟨found, unchanged⟩ := typeOf_ok emitted
  exact ⟨unchanged, Option.some.inj (found.symm.trans reads.typed)⟩

theorem const (ty : CodeType) (n : Int) : host.Computes limit (Emit.const ty n) s (.of ty (ofInt n)) := by
  have same : of ty (ty.normalize (ofInt n)) = .of ty (ofInt n) := by
    rw [of, normalize_normalize, of]
  rw [← same]
  exact define rfl fun _ => rfl

theorem constBool (value : Bool) : host.Computes limit (Emit.constBool value) s (.of .i1 (ofBool value)) := by
  rw [ofBool_eq]
  exact const .i1 _

theorem nullPtr : host.Computes limit nullPtr s (.of .ptr 0) := const .ptr 0

theorem binary (op : BinaryOp) (left : s.Reads a x.1 x.2) (right : s.Reads b y.1 y.2) :
    host.Computes limit (binary op a b) s (.binary op x y) := by
  refine typed left (define rfl fun here => ?_)
  rw [execute, left.typeOf_host here, left.value, right.value]
  rfl

theorem overflows (op : OverflowOp) (left : s.Reads a x.1 x.2) (right : s.Reads b y.1 y.2) :
    host.Computes limit (overflows op a b) s (.overflows op x y) := by
  refine define rfl fun here => ?_
  rw [execute, left.typeOf_host here, left.value, right.value]
  rfl

theorem compare (pred : Predicate) (left : s.Reads a x.1 x.2) (right : s.Reads b y.1 y.2) :
    host.Computes limit (compare pred a b) s (.compare pred x y) := by
  refine define rfl fun here => ?_
  rw [execute, left.typeOf_host here, left.value, right.value]
  rfl

theorem not (operand : s.Reads a x.1 x.2) : host.Computes limit (not a) s x.not := by
  refine Simulates.step (const .i1 1) fun one s' keeps reads => ?_
  exact binary .xor (operand.kept keeps) reads

theorem select (cond : s.Reads c z.1 z.2) (left : s.Reads a x.1 x.2) (right : s.Reads b y.1 y.2) :
    host.Computes limit (select c a b) s (.select z x y) := by
  refine typed left (define rfl fun here => ?_)
  have isSet : s.frame.isSet c = z.isSet := by rw [Frame.isSet, cond.value, isSet]
  rw [execute, isSet, left.value, right.value]
  rfl

theorem cast (op : CastOp) (ty : CodeType) (operand : s.Reads a x.1 x.2) :
    host.Computes limit (cast op a ty) s (x.cast op ty) := by
  cases op with
  | zext =>
    refine define rfl fun here => ?_
    rw [execute, operand.typeOf_host here, operand.value]
    rfl
  | sext | trunc =>
    refine define rfl fun here => ?_
    rw [execute, operand.value]
    rfl

theorem resize (ty : CodeType) (signed : Bool) (operand : s.Reads a x.1 x.2) :
    host.Computes limit (resize a ty signed) s (x.resize ty signed) := by
  refine typed operand ?_
  unfold Cell.resize
  split
  · exact .pure operand
  · split
    · exact cast .trunc ty operand
    · split
      · exact cast .sext ty operand
      · exact cast .zext ty operand

theorem ptrAdd (address : s.Reads a x.1 x.2) (offset : s.Reads b y.1 y.2) :
    host.Computes limit (ptrAdd a b) s (x.ptrAdd y) := by
  refine define rfl fun here => ?_
  rw [execute, address.value, offset.value]
  rfl

theorem ptrOffset (offset : Nat) (address : s.Reads a x.1 x.2) :
    host.Computes limit (ptrOffset a offset) s (x.ptrOffset offset) := by
  unfold Emit.ptrOffset Cell.ptrOffset
  split
  · exact .pure address
  · refine Simulates.step (const .i64 offset) fun o s' keeps reads => ?_
    exact ptrAdd (address.kept keeps) reads

/-- The code in any run of the host. -/
theorem yields (computes : host.Computes 0 code s x) : host.Yields code s fun r s' => s'.Reads r x.1 x.2 :=
  Simulates.yields computes

theorem bit (computes : host.Computes 0 code s (.of .i1 (ofBool value))) :
    host.Yields code s fun r s' => s'.Bit r value := by
  have same : Cell.of .i1 (ofBool value) = (.i1, ofBool value) := by rw [of, normalize_ofBool]
  rw [same] at computes
  exact computes.yields

end Host.Computes

end

namespace Host.Simulates

open Emit Run

variable {limit : Nat} {host : Host} {α : Type}

/-- What is emitted for a stack slot: no line, but its register. -/
theorem stackSlot_ok {b b' : Builder} {size : Nat} (emitted : stackSlot size b = .ok r b') :
    r.index = b.function.types.size ∧ b'.current = b.current ∧ b'.lines = b.lines ∧
      b'.function.typeOf? r = some .ptr ∧ b'.function.slots = b.function.slots.push ⟨r, size⟩ := by
  cases emitted
  exact ⟨rfl, rfl, rfl, by simp [Function.typeOf?], rfl⟩

theorem stackSlot (size : Nat) : host.Simulates limit (Emit.stackSlot size) s (Pure.pure ()) fun r _ s' =>
    s'.Reads r .ptr (host.slots r) ∧
      host.function.slots.toList[s.builder.function.slots.size]? = some ⟨r, size⟩ ∧
      s.builder.function.types.size ≤ r.index := by
  intro r b' emitted within here
  have grows := Growing.grows here.ready emitted
  obtain ⟨reg, position, lines, typed, slots⟩ := stackSlot_ok emitted
  obtain ⟨_, all, _⟩ := within.slots
  have placed : host.function.slots.toList[s.builder.function.slots.size]? = some ⟨r, size⟩ := by
    rw [all, slots]
    simp
  exact ⟨⟨b', s.frame, s.machine⟩, rfl, .unlined position lines, ⟨grows.types, fun _ _ => rfl⟩,
    ⟨grows.ready, within, here.frameSize, here.slots⟩, rfl, ⟨typed, here.slots _ (List.mem_of_getElem? placed), rfl⟩,
    placed, Nat.le_of_eq reg.symm⟩

/-- Something that code names in the program. -/
theorem inProgram {change : Program → α × Program} (grows : ∀ program : Program, program.Grows (change program).2) :
    host.Simulates limit (Emit.inProgram change) s (Pure.pure ()) fun x _ _ =>
      x = (change s.builder.program).1 ∧ (change s.builder.program).2.Grows host.program := by
  intro x b' emitted within here
  cases emitted
  have ready := (Builder.Grows.inProgram here.ready (grows s.builder.program)).ready
  exact ⟨⟨_, s.frame, s.machine⟩, rfl, .unlined rfl rfl, ⟨List.prefix_refl _, fun _ _ => rfl⟩,
    ⟨ready, within, here.frameSize, here.slots⟩, rfl, rfl, within.program⟩

theorem checkArguments_same {params : List CodeType} {b b' : Builder}
    (emitted : checkArguments name index params args b = .ok () b') : b' = b := by
  induction params generalizing index args with
  | nil => cases emitted; rfl
  | cons expected params ih =>
    cases args with
    | nil => cases emitted; rfl
    | cons arg args =>
      obtain ⟨_, c, typed, rest⟩ := bind_ran emitted
      obtain ⟨_, rfl⟩ := typeOf_ok typed
      split at rest
      · exact ih rest
      · cases rest

/-- A call does what the routine does; a result has the type that the routine is declared with. -/
theorem call (reads : s.ReadsAll args cells) : host.Simulates limit (Emit.call routine args) s
    (ofAction (host.routines routine (cells.map Prod.snd))) fun r w s' =>
      Option.Rel (fun r ty => s'.Reads r ty (ty.normalize w)) r routine.result := by
  have executed {s' : Point} (keeps : s.Keeps s') : execute host.routines host.function host.args s'.frame
      (.call routine args) s'.machine = ofAction (host.routines routine (cells.map Prod.snd)) s'.machine := by
    rw [execute, (reads.kept keeps).values]
  unfold Emit.call
  dsimp only
  split
  · intro r b' emitted
    obtain ⟨_, _, ⟨⟩, _⟩ := bind_ran emitted
  refine silent (p := fun _ => True) (fun _ _ emitted => ⟨checkArguments_same emitted, trivial⟩) fun _ _ => ?_
  cases routine.result with
  | some ty =>
    refine step (inProgram fun p => .declare p routine) fun _ s' keeps _ => ?_
    dsimp only
    rw [map_eq_pure_bind]
    exact .returns ((define rfl fun _ => executed keeps).mono fun r w s'' _ reads => .some reads)
  | none =>
    refine step (inProgram fun p => .declare p routine) fun _ s' keeps _ => ?_
    exact .returns ((append rfl fun _ => executed keeps).mono fun _ _ _ _ _ => .none)

end Host.Simulates

namespace Host.Attains

open Emit CodeType Run

variable {host : Host} {ty ty' : CodeType} {a b : Reg} {x y : Word} {k : Int}

theorem const (ty : CodeType) (n : Int) : host.Yields (const ty n) s fun r s' =>
    s'.Reads r ty (ty.normalize (Word.ofInt n)) :=
  (Computes.const ty n).yields

theorem constNumber (fits : ty.fits n = true) : host.Yields (Emit.const ty n) s fun r s' => s'.Number r ty n := by
  refine (const ty n).weaken fun r s' _ reads => ?_
  rw [normalize_of_fits fits] at reads
  exact ⟨reads, fits⟩

theorem constWord (w : Word) : host.Yields (constWord w) s fun r s' => s'.Reads r .i64 w :=
  definePure rfl fun _ => rfl

theorem constBool (value : Bool) : host.Yields (constBool value) s fun r s' => s'.Bit r value :=
  (Computes.constBool value).bit

theorem nullPtr : host.Yields nullPtr s fun r s' => s'.Reads r .ptr 0 :=
  const .ptr 0

theorem binary (op : BinaryOp) (left : s.Reads a ty x) (right : s.Reads b ty' y) :
    host.Yields (binary op a b) s fun r s' => s'.Reads r ty (ty.normalize (op.apply ty x y)) :=
  (Computes.binary op (x := (ty, x)) (y := (ty', y)) left right).yields

theorem overflows (op : OverflowOp) (left : s.Number a ty n) (right : s.Number b ty' k) (same : ty' = ty) :
    host.Yields (overflows op a b) s fun r s' => s'.Bit r (!ty.fits (op.exact n k)) := by
  rw [← OverflowOp.apply_ofInt op left.fits (same ▸ right.fits)]
  exact (Computes.overflows op (x := (ty, _)) (y := (ty', _)) left.reads right.reads).bit

theorem compare (pred : Predicate) (left : s.Reads a ty x) (right : s.Reads b ty' y) :
    host.Yields (compare pred a b) s fun r s' => s'.Bit r (pred.apply ty x y) :=
  (Computes.compare pred (x := (ty, x)) (y := (ty', y)) left right).bit

/-- A comparison of numbers with signs. -/
theorem compareNumbers (signed : pred.isSigned = true) (left : s.Number a ty n) (right : s.Number b ty k) :
    host.Yields (Emit.compare pred a b) s fun r s' => s'.Bit r (pred.holds n k) := by
  rw [← Predicate.apply_ofInt signed left.fits right.fits]
  exact compare pred left.reads right.reads

theorem bitAnd (left : s.Bit a p) (right : s.Bit b q) :
    host.Yields (Emit.binary .and a b) s fun r s' => s'.Bit r (p && q) := by
  refine (binary .and left right).weaken fun r s' _ reads => ?_
  cases p <;> cases q <;> exact reads

theorem bitOr (left : s.Bit a p) (right : s.Bit b q) :
    host.Yields (Emit.binary .or a b) s fun r s' => s'.Bit r (p || q) := by
  refine (binary .or left right).weaken fun r s' _ reads => ?_
  cases p <;> cases q <;> exact reads

theorem bitNot (operand : s.Bit a p) : host.Yields (not a) s fun r s' => s'.Bit r (!p) := by
  refine (Computes.not (x := (.i1, _)) operand).yields.weaken fun r s' _ reads => ?_
  cases p <;> exact reads

theorem select {flag : Bool} {c : Reg} (cond : s.Bit c flag) (left : s.Reads a ty x) (right : s.Reads b ty y) :
    host.Yields (select c a b) s fun r s' => s'.Reads r ty (if flag then x else y) := by
  refine (Computes.select (z := (.i1, _)) (x := (ty, x)) (y := (ty, y)) cond left right).yields.weaken
    fun r s' _ reads => ?_
  cases flag with
  | false => exact right.normal ▸ reads
  | true => exact left.normal ▸ reads

/-- A number that is made shorter, or longer with its sign. -/
theorem cast {op : CastOp} (signed : op = .sext ∨ op = .trunc) (operand : s.Number a ty n) :
    host.Yields (Emit.cast op a ty') s fun r s' => s'.Number r ty' (ty'.wrap n) := by
  refine (Computes.cast op ty' (x := (ty, _)) operand.reads).yields.weaken fun r s' _ reads => ?_
  rcases signed with rfl | rfl <;> exact ⟨CodeType.normalize_ofInt ty' n ▸ reads, CodeType.fits_wrap ty' n⟩

theorem resize (operand : s.Number a ty n) (ty' : CodeType) :
    host.Yields (Emit.resize a ty' true) s fun r s' => (ty.bits = ty'.bits → s'.Number r ty n) ∧
        (ty.bits ≠ ty'.bits → s'.Number r ty' (ty'.wrap n)) := by
  refine (typeOf operand.reads).bind fun found s' _ ⟨same, found_eq⟩ => ?_
  subst same found_eq
  split
  next equal => exact .pure ⟨rfl, fun _ => operand, fun different => absurd equal different⟩
  next different =>
    split
    · exact (cast (.inr rfl) operand).weaken fun r s' _ number => ⟨fun equal => absurd equal different, fun _ => number⟩
    · exact (cast (.inl rfl) operand).weaken fun r s' _ number => ⟨fun equal => absurd equal different, fun _ => number⟩

/-- A longer register for a number. -/
theorem widen (operand : s.Number a .i32 n) : host.Yields (Emit.resize a .i64 true) s fun r s' =>
    s'.Number r .i64 n := by
  refine (resize operand .i64).weaken fun r s' _ ⟨_, number⟩ => ?_
  rw [← wrap_of_fits (fits_i64 operand.fits)]
  exact number (by decide)

/-- A bit as a bool. -/
theorem widenBit (operand : s.Bit a value) : host.Yields (Emit.resize a .i8 false) s fun r s' =>
    s'.Reads r .i8 (Word.ofBool value) := by
  refine (Computes.resize .i8 false (x := (.i1, _)) operand).yields.weaken fun r s' _ reads => ?_
  cases value <;> exact reads

theorem load (ty : CodeType) (address : s.Reads a .ptr x) (present : x ≠ 0) :
    host.Yields (load ty a) s fun r s' => s'.Reads r ty (ty.normalize (s.machine.load ty.storeSize x)) := by
  refine definePure rfl fun here => ?_
  rw [execute, address.value, bind_of_ok (checkAddress_ok present)]
  rfl

theorem store (value : s.Reads a ty x) (address : s.Reads b .ptr y) (present : y ≠ 0)
    (program : (s.machine.store ty.storeSize y x).program = s.machine.program)
    (texts : s.machine.KeepsTexts (s.machine.store ty.storeSize y x)) :
    host.Attains (store a b) s fun _ s' => s'.machine = s.machine.store ty.storeSize y x := by
  refine append (w := 0) rfl (fun here => ?_) program texts
  rw [execute, address.value, value.value, value.typeOf_host here.toPlaced, bind_of_ok (checkAddress_ok present)]
  rfl

theorem ptrAdd (address : s.Reads a .ptr x) (offset : s.Reads b .i64 y) :
    host.Yields (ptrAdd a b) s fun r s' => s'.Reads r .ptr (x + y) :=
  (Computes.ptrAdd (x := (.ptr, x)) (y := (.i64, y)) address offset).yields

theorem ptrOffset (address : s.Reads a .ptr x) (offset : Nat) :
    host.Yields (ptrOffset a offset) s fun r s' => s'.Reads r .ptr (x + UInt64.ofNat offset) := by
  unfold Emit.ptrOffset
  split
  next zero =>
    subst zero
    exact .pure ⟨rfl, by simpa using address⟩
  · refine (const .i64 offset).andThen fun o s1 before1 oReads => ?_
    refine (ptrAdd (address.mono before1) oReads).weaken fun r s2 _ reads => ?_
    rwa [← Word.ofInt_natCast]

theorem stackSlot (size : Nat) : host.Yields (stackSlot size) s fun r s' =>
    s'.Reads r .ptr (host.slots r) ∧ ⟨r, size⟩ ∈ host.function.slots.toList ∧
      s.builder.function.types.size ≤ r.index :=
  (Simulates.stackSlot size).yields.weaken fun _ _ _ ⟨reads, placed, late⟩ => ⟨reads, List.mem_of_getElem? placed, late⟩

theorem inProgram {α : Type} {change : Program → α × Program}
    (grows : ∀ program : Program, program.Grows (change program).2) :
    host.Yields (inProgram change) s fun x _ =>
      x = (change s.builder.program).1 ∧ (change s.builder.program).2.Grows host.program :=
  (Simulates.inProgram grows).yields

theorem encoding : host.Attains encoding s fun x s' => s' = s ∧ x = host.program.encoding := by
  intro x b' emitted within here
  cases emitted
  exact ⟨s, rfl, Steps.refl host s, .refl s, here, rfl, here.within.program.encoding.symm⟩

section

variable {routine : Routine} {cells : List (CodeType × Word)} {w : Word} {m : Machine}

theorem call (reads : s.ReadsAll args cells) (run : routine.run (cells.map Prod.snd) s.machine = .ok w m)
    (program : m.program = s.machine.program) (texts : s.machine.KeepsTexts m) :
    host.Attains (call routine args) s fun r s' =>
      s'.machine = m ∧ ∀ ty, routine.result = some ty → ∃ r', r = some r' ∧ s'.Reads r' ty (ty.normalize w) := by
  refine .of_at fun here => ?_
  have ran : ofAction (host.routines routine (cells.map Prod.snd)) s.machine = .ok w m := by
    rw [here.routines, ofAction, run]
  refine ((Simulates.call reads).attains ran program texts).mono fun r s' _ called => ⟨called.1, fun ty result => ?_⟩
  have related := called.2
  rw [result] at related
  cases related with
  | some reads => exact ⟨_, rfl, reads⟩

theorem callValue (reads : s.ReadsAll args cells) (run : routine.run (cells.map Prod.snd) s.machine = .ok w m)
    (result : routine.result = some ty) (program : m.program = s.machine.program) (texts : s.machine.KeepsTexts m) :
    host.Attains (callValue routine args) s fun r s' =>
      s'.machine = m ∧ s'.Reads r ty (ty.normalize w) := by
  refine .seq (.resultOf routine) (call reads run program texts) ?_
  rintro r s' _ ⟨machine, given⟩
  obtain ⟨_, rfl, reads'⟩ := given ty result
  exact .pure ⟨machine, reads'⟩

theorem callEffect (reads : s.ReadsAll args cells) (run : routine.run (cells.map Prod.snd) s.machine = .ok w m)
    (program : m.program = s.machine.program) (texts : s.machine.KeepsTexts m) :
    host.Attains (callEffect routine args) s fun _ s' => s'.machine = m :=
  .map ((call reads run program texts).mono fun _ _ _ ⟨machine, _⟩ => machine)

end

end Host.Attains

end QueryEngine
