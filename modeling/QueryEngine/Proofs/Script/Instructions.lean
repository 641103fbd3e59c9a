import QueryEngine.Proofs.Script.Simulation

set_option synthInstance.maxSize 256

namespace QueryEngine

open CodeType Run Cell
open Word hiding signed

variable {ty : CodeType} {a b : Reg} {call : Invocation} {index limit : Nat} {α : Type} {host : Host} {s : Point}
  {x y : Cell}

namespace Host

/-- The host runs its function as the invocation says. -/
structure Carries (host : Host) (call : Invocation) : Prop where
  name : host.function.name = call.name
  args : host.args = call.args
  routines : host.routines = call.routines
  slots : ∀ index slot, host.function.slots.toList[index]? = some slot →
    host.slots slot.address = call.slots.getD index 0

end Host

theorem Host.Computes.stackSlot (carries : host.Carries call) (size : Nat) :
    host.Computes limit (Emit.stackSlot size) s (call.slot s.builder.site.slots.length) := by
  intro r b' emitted within here
  have allotted : host.Simulates limit (Emit.stackSlot size) s (Pure.pure ()) _ := .stackSlot size
  obtain ⟨s', builder, steps, keeps, here', machine, reads, placed, _⟩ := allotted r b' emitted within here
  have count : s.builder.site.slots.length = s.builder.function.slots.size := by simp [Builder.site]
  rw [carries.slots _ _ placed, ← count] at reads
  exact ⟨s', builder, steps, keeps, here', machine, reads⟩

namespace Host.Simulates

open Emit

theorem intern (bytes : Bytes) : host.Simulates limit (Emit.intern bytes) s (Pure.pure ()) fun w _ _ =>
    w = s.builder.site.literal bytes := by
  intro w b' emitted within here
  have grows := Growing.grows here.ready emitted
  obtain ⟨room, address, rfl⟩ := intern_ok emitted
  have found : s.builder.program.literals.intern? bytes = some (s.builder.program.literals.intern bytes) := if_pos room
  refine ⟨⟨_, s.frame, s.machine⟩, rfl, .unlined rfl rfl, ⟨List.prefix_refl _, fun _ _ => rfl⟩,
    ⟨grows.ready, within, here.frameSize, here.slots⟩, rfl, ?_⟩
  simp only [Site.literal, Builder.site, found]
  exact address

theorem constBytes (bytes : Bytes) : host.Simulates limit (Emit.constBytes bytes) s (Pure.pure ())
    fun regs _ s' => s'.Reads regs.1 .ptr (s.builder.site.literal bytes) ∧
      s'.Reads regs.2 (Cell.ofNat bytes.length).1 (Cell.ofNat bytes.length).2 := by
  refine step (intern bytes) fun w s1 _ address => ?_
  have named : host.Computes limit (Emit.define .ptr (.const .ptr w)) s1 (.of .ptr w) := .define rfl fun _ => rfl
  refine step named fun ptr s2 _ ptrReads => ?_
  refine step (Computes.const .i64 bytes.length) fun len s3 keeps lenReads => ?_
  exact .pure ⟨address ▸ ptrReads.kept keeps, lenReads⟩

theorem param (carries : host.Carries call) (index : Nat) :
    host.Simulates limit (param index) s (call.param s.builder.site.params index)
      fun r x s' => s'.Reads r x.1 x.2 := by
  refine silent (p := fun b => b = s.builder) (fun _ _ emitted => by cases emitted; exact ⟨rfl, rfl⟩) ?_
  rintro _ rfl
  unfold Invocation.param
  simp only [Builder.site]
  cases s.builder.function.params[index]? with
  | none =>
    intro r b' emitted
    cases emitted
  | some ty =>
    have computes : host.Computes limit (Emit.define ty (.param index)) s (.of ty (call.args.getD index 0)) :=
      .define rfl fun _ => by rw [execute, carries.args]; rfl
    intro r b' emitted within here
    exact computes r b' emitted within here

theorem load (carries : host.Carries call) (ty : CodeType) (address : s.Reads a x.1 x.2) :
    host.Simulates limit (load ty a) s (call.load ty x) fun r x s' => s'.Reads r x.1 x.2 := by
  have loaded : host.Simulates limit (Emit.load ty a) s (do
      checkAddress host.function x.2
      return (← get).load ty.storeSize x.2 : Run Word) fun r w s' => s'.Reads r ty (ty.normalize w) :=
    .define rfl fun _ => by rw [execute, address.value]
  refine (mapRun (f := of ty) loaded).congr ?_
  unfold Invocation.load Invocation.checkAddress checkAddress
  rw [carries.name]
  by_cases null : x.2 = 0
  · rw [if_pos null]
    rfl
  · rw [if_neg null]
    rfl

theorem store (carries : host.Carries call) (value : s.Reads a x.1 x.2) (address : s.Reads b y.1 y.2) :
    host.Simulates limit (store a b) s (call.store x y) fun _ _ _ => True := by
  have stored : host.Simulates limit (Emit.store a b) s (do
      checkAddress host.function y.2
      modify fun m => m.store x.1.storeSize y.2 x.2
      return 0 : Run Word) fun _ _ _ => True :=
    .append rfl fun here => by rw [execute, address.value, value.value, value.typeOf_host here]
  refine (mapRun (f := fun _ => ()) stored).congr ?_
  unfold Invocation.store Invocation.checkAddress checkAddress
  rw [carries.name]
  by_cases null : y.2 = 0
  · rw [if_pos null]
    rfl
  · rw [if_neg null]
    rfl

variable {args : List Reg} {name : String}

theorem invoke (carries : host.Carries call) (named : Routine.named? name = some routine)
    (reads : s.ReadsAll args cells) :
    host.Simulates limit (Emit.call routine args) s (call.invoke name cells) fun r x s' =>
      x.isSome = routine.result.isSome ∧ Option.Rel (fun r x => s'.Reads r x.1 x.2) r x := by
  have called : host.Simulates limit (Emit.call routine args >>= Pure.pure) s (call.invoke name cells) fun r x s' =>
      x.isSome = routine.result.isSome ∧ Option.Rel (fun r x => s'.Reads r x.1 x.2) r x := by
    unfold Invocation.invoke
    rw [named, ← carries.routines]
    refine (Simulates.call reads).bind fun r w s' _ related => .pure ⟨Option.isSome_map, ?_⟩
    generalize routine.result = result at related ⊢
    cases related with
    | some reads => exact .some reads
    | none => exact .none
  rwa [bind_pure] at called

theorem invokeValue (carries : host.Carries call) (named : Routine.named? name = some routine)
    (reads : s.ReadsAll args cells) :
    host.Simulates limit (callValue routine args) s (call.invoke name cells) fun r x s' =>
      ∃ y, x = some y ∧ s'.Reads r y.1 y.2 := by
  have (r : Option Reg) : Growing _ := .resultOf routine r
  have both : host.Simulates limit (Emit.callValue routine args) s (call.invoke name cells >>= Pure.pure) fun r x s' =>
      ∃ y, x = some y ∧ s'.Reads r y.1 y.2 := by
    refine (Simulates.invoke carries named reads).bind fun r x s' _ holds => ?_
    obtain ⟨_, related⟩ := holds
    cases related with
    | some reads => exact .pure ⟨_, rfl, reads⟩
    | none =>
      intro r b' emitted
      cases emitted
  rwa [bind_pure] at both

end Host.Simulates

namespace Run

/-- The condition of a loop over numbers, for the number that it carries. -/
def below (stop : Cell) : List Cell → Run (Cell × Unit)
  | [i] => return (.compare .slt i stop, ())
  | _ => throw .trap

/-- What a loop over numbers does with one of them. -/
def advance (body : Int → Run Unit) : Unit → List Cell → Run (List Cell)
  | (), [i] => do
    body (i.1.signed i.2)
    return [.binary .add i (.ofNat 1)]
  | _, _ => throw .trap

theorem isSet_compare_slt (fits : ty.fits n = true) (stop : Cell) :
    (compare .slt (ty, ofInt n) stop).isSet = decide (n < ty.signed stop.2) := by
  have apply : Predicate.slt.apply ty (ofInt n) stop.2 = decide (n < ty.signed stop.2) := by
    rw [Predicate.apply, signed_of_fits fits]
  rw [Cell.compare, apply, Cell.of, normalize_ofBool]
  cases decide (n < ty.signed stop.2) <;> rfl

theorem binary_add_one (fits : ty.fits (n + 1) = true) :
    binary .add (ty, ofInt n) (.ofNat 1) = (ty, ofInt (n + 1)) := by
  have sum : ty.normalize (BinaryOp.add.apply ty (ofInt n) (ofInt 1)) = ofInt (ty.wrap (n + 1)) :=
    BinaryOp.normalize_apply_exact .add n 1 rfl
  rw [wrap_of_fits fits] at sum
  exact Prod.ext rfl sum

/-- A loop that carries a number and adds one to it runs its body for one number after the other. -/
theorem repeatWhile_below (body : Int → Run Unit) (counted : (ty.signed stop.2 - n).toNat = count)
    (fits : ty.fits n = true) (enough : count < limit) :
    repeatWhile (below stop) (advance body) limit [(ty, ofInt n)] = (do
      countUp body count n
      return ([(ty, ofInt (n + count))], ())) := by
  obtain ⟨limit, rfl⟩ : ∃ limit', limit = limit' + 1 := ⟨limit - 1, by omega⟩
  have stopFits : ty.fits (ty.signed stop.2) = true := by
    rw [signed_eq_wrap]
    exact fits_wrap ty _
  rw [repeatWhile, below, pure_bind]
  dsimp only
  rw [isSet_compare_slt fits]
  induction count generalizing n limit with
  | zero =>
    have ended : ¬n < ty.signed stop.2 := by omega
    rw [if_neg (by simpa using ended), countUp, pure_bind, Int.natCast_zero, Int.add_zero]
  | succ count ih =>
    have goes : n < ty.signed stop.2 := by omega
    have nextFits : ty.fits (n + 1) = true := by
      cases ty <;> simp only [CodeType.fits, Bool.and_eq_true, decide_eq_true_eq] at fits stopFits ⊢ <;> omega
    obtain ⟨limit, rfl⟩ : ∃ limit', limit = limit' + 1 := ⟨limit - 1, by omega⟩
    rw [if_pos (by simpa using goes), advance, signed_of_fits fits, binary_add_one nextFits, countUp]
    simp only [bind_assoc, pure_bind]
    refine congrArg _ (funext fun _ => ?_)
    rw [repeatWhile, below, pure_bind]
    dsimp only
    rw [isSet_compare_slt nextFits, ih (by omega) nextFits limit (by omega)]
    have same : n + 1 + (count : Int) = n + (count + 1 : Nat) := by omega
    rw [same]

end Run

open Emit in
/-- A loop over numbers, in order. -/
theorem Host.Simulates.forRange {start stop : Reg}
    {body : Reg → Emit α} [∀ i, Growing (body i)] {bodyRun : Int → Run Unit} {q : Reg → α → Prop}
    (starts : s.Reads start x.1 x.2) (stops : s.Reads stop y.1 y.2) (given : ∀ i, Gives (body i) (q i))
    (bodySide : ∀ n i s', s.Keeps s' → s'.builder.site = s.builder.site.second s.builder.site.first →
      s'.Reads i x.1 (x.1.normalize (ofInt n)) →
      host.Simulates limit (body i) s' (bodyRun n) fun _ _ _ => True) :
    host.Simulates limit (forRange start stop body) s
      (countUp bodyRun (x.1.signed y.2 - x.1.signed x.2).toNat (x.1.signed x.2)) fun result _ s' =>
        ∃ i, s'.Reads i x.1 (x.1.normalize (ofInt (max (x.1.signed x.2) (x.1.signed y.2)))) ∧ q i result := by
  have word (i : Reg) (s' : Point) (c : Cell) (reads : s'.Reads i c.1 c.2) : ofInt (c.1.signed c.2) = c.2 := by
    rw [signed, reads.normal, ofInt_signed]
  have fits : x.1.fits (x.1.signed x.2) = true := by
    rw [signed_eq_wrap]
    exact fits_wrap _ _
  generalize counted : (x.1.signed y.2 - x.1.signed x.2).toNat = count
  have last : x.1.signed x.2 + count = max (x.1.signed x.2) (x.1.signed y.2) := by omega
  have initial : x = (x.1, ofInt (x.1.signed x.2)) := by rw [word start s x starts]
  -- The loop is given more times than there are numbers, so that it always ends by its condition.
  have enough : count < max (count + 1) limit := by omega
  have counts := repeatWhile_below bodyRun counted fits enough
  rw [← initial, last] at counts
  rw [forRange_eq]
  refine .returns (.mono (.ignore (.congr (.whileLoopWith (f := fun site => site) (v := [x])
    (p := fun _ _ _ => True) (q := fun _ values result => ∃ i, values = [i] ∧ q i result) (fun carried => .stays _)
    (fun _ _ _ _ _ _ => trivial) ?_ ?_ (.cons starts .nil) (fun _ values => ?_) (max (count + 1) limit)
    (Nat.le_max_right _ _)) (congrFun counts s.machine))) fun result _ s' _ holds => ?_)
  · intro regs cells s' keeps site reads types
    obtain ⟨c, rfl⟩ : ∃ c, cells = [c] := List.length_eq_one_iff.mp (by simpa using congrArg List.length types)
    cases reads with
    | @cons i _ _ _ head tail =>
      cases tail
      dsimp only [below, single]
      rw [map_eq_pure_bind]
      exact step (Computes.compare .slt head (stops.kept keeps)) fun bit s'' _ bitReads => .pure ⟨bitReads, trivial⟩
  · intro _ _ regs cells s' keeps site reads types _
    obtain ⟨c, rfl⟩ : ∃ c, cells = [c] := List.length_eq_one_iff.mp (by simpa using congrArg List.length types)
    have type : c.1 = x.1 := by simpa using types
    cases reads with
    | @cons i _ _ _ head tail =>
      cases tail
      have number : s'.Reads i x.1 (x.1.normalize (ofInt (c.1.signed c.2))) := by
        rw [word i s' c head, ← type, head.normal]
        exact head
      refine (bodySide _ i s' keeps site number).bind fun a _ s1 keeps1 _ => ?_
      refine step (Computes.const .i64 1) fun one s2 keeps2 oneReads => ?_
      refine step (Computes.binary .add (head.kept (keeps1.trans keeps2)) oneReads) fun next s3 _ nextReads => ?_
      exact .pure (.cons nextReads .nil)
  · unfold single
    split
    next i => exact (given i).bind fun a named => .after fun _ => .after fun _ => .pure ⟨i, rfl, named⟩
    · exact .throw
  · obtain ⟨reads, _, _, _, i, regs, named⟩ := holds
    rw [regs] at reads
    cases reads with
    | cons head _ =>
      have most : x.1.fits (max (x.1.signed x.2) (x.1.signed y.2)) = true := by
        have stopFits : x.1.fits (x.1.signed y.2) = true := by
          rw [signed_eq_wrap]
          exact fits_wrap _ _
        have one : max (x.1.signed x.2) (x.1.signed y.2) = x.1.signed x.2 ∨
            max (x.1.signed x.2) (x.1.signed y.2) = x.1.signed y.2 := by omega
        rcases one with same | same
        · rw [same]; exact fits
        · rw [same]; exact stopFits
      refine ⟨i, ?_, named⟩
      rw [normalize_of_fits most]
      exact head

end QueryEngine
