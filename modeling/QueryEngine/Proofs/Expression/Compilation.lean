import QueryEngine.Proofs.Execution.Functions
import QueryEngine.Proofs.Expression.Nulls

namespace QueryEngine

open Host.Attains Array

section

variable {host : Host} {s : Point} {held : HeldRow} {row : ValueRow}

theorem HeldRow.Is.value (is : HeldRow.Is s held row) (a : Attribute) : host.Attains (held.value a) s fun h s' =>
    ∃ d, s' = s ∧ row.value? a = some d ∧ h.Is s d := by
  unfold HeldRow.value
  split
  next h found =>
    obtain ⟨_, d, foundValue, _, _, valueIs⟩ := value?_related (R := fun _ h d => h.Is s d) is found
    exact .pure ⟨d, rfl, foundValue, valueIs⟩
  · exact .throw

/-- Both operands are evaluated, the left one first, before the operation. -/
theorem Scalar.attains_operands {first second : Emit Held} {operation : Held → Held → Emit Held}
    {left right : Evaluation Datum} {result : Datum → Datum → Evaluation Datum} [Emit.Growing first] [Emit.Growing second]
    [∀ a b, Emit.Growing (operation a b)]
    (runFirst : host.Evaluates first s left) (runSecond : ∀ s', s.Before s' → host.Evaluates second s' right)
    (run : ∀ a b x y s', a.Is s' x → b.Is s' y → host.Evaluates (operation a b) s' (result x y)) :
    host.Evaluates (do
      let a ← first
      let b ← second
      operation a b) s (do
        let x ← left
        let y ← right
        result x y) := by
  refine runFirst.bind fun a s1 before1 ⟨x, reaches1, aIs⟩ => ?_
  refine (runSecond s1 before1).bind fun b s2 before2 ⟨y, reaches2, bIs⟩ => ?_
  refine (run a b x y s2 (aIs.mono before2) bIs).mono fun h s3 _ ⟨d, reaches3, is⟩ => ⟨d, ?_, is⟩
  exact .bind reaches1 (.bind reaches2 reaches3)

theorem Scalar.attains_emit (e : Scalar) (is : HeldRow.Is s held row) :
    host.Evaluates (e.emit held) s (e.evaluate row) := by
  induction e generalizing s with
  | cast child ty ih =>
    refine (ih is).bind fun a s1 before1 ⟨x, reaches1, aIs⟩ => ?_
    exact (aIs.cast ty).mono fun h s2 _ ⟨d, reaches2, hIs⟩ => ⟨d, .bind reaches1 reaches2, hIs⟩
  | not child ih =>
    refine (ih is).bind fun a s1 before1 ⟨x, reaches1, aIs⟩ => ?_
    exact aIs.not.mono fun h s2 _ ⟨d, reaches2, hIs⟩ => ⟨d, .bind reaches1 reaches2, hIs⟩
  | arithmetic op lhs rhs ty ihLeft ihRight =>
    exact attains_operands (ihLeft is) (fun s' before => ihRight (is.mono before))
      fun a b x y s' left right => left.arithmetic op ty right
  | compare mode lhs rhs ihLeft ihRight =>
    exact attains_operands (ihLeft is) (fun s' before => ihRight (is.mono before))
      fun a b x y s' left right => left.compare mode right
  | and lhs rhs ihLeft ihRight =>
    have (a b : Held) : Emit.Growing (a.and b) := inferInstanceAs (Emit.Growing (Held.connective true a b))
    exact attains_operands (ihLeft is) (fun s' before => ihRight (is.mono before))
      fun a b x y s' left right => left.connective true right
  | or lhs rhs ihLeft ihRight =>
    have (a b : Held) : Emit.Growing (a.or b) := inferInstanceAs (Emit.Growing (Held.connective false a b))
    exact attains_operands (ihLeft is) (fun s' before => ihRight (is.mono before))
      fun a b x y s' left right => left.connective false right
  | column a =>
    refine (is.value a).mono fun h s' _ ⟨d, point, found, hIs⟩ => ?_
    rw [point]
    exact ⟨d, .ofOption found rfl, hIs⟩
  | literal value ty => exact Held.attains_constant value ty
  | null => exact .pure ⟨.null, .pure _ rfl, .unknown⟩

/-- Wherever the code of an expression has been emitted into a function, a run of it comes to its end. There the registers
hold the value of the expression for the row, and what has been reported since are its diagnostics, in their order. -/
theorem Scalar.emit_computes_evaluate (e : Scalar) {h : Held} {b' : Builder} (here : s.At host)
    (is : HeldRow.Is s held row) (emitted : e.emit held s.builder = .ok h b')
    (within : b'.Within host.function host.program) :
    ∃ d reports s', e.evaluate row = some (d, reports) ∧ host.Steps s s' ∧ s'.builder = b' ∧ h.Is s' d ∧
      s'.machine = s.machine.reportAll reports := by
  obtain ⟨s', builder, steps, _, _, d, ⟨reports, gives, machine⟩, hIs⟩ := e.attains_emit is h b' emitted within here
  exact ⟨d, reports, s', gives, steps, builder, hIs, machine⟩

end

namespace Scalar.Example

def first : Attribute := ⟨0, .integer⟩

def second : Attribute := ⟨1, ValueType.integer.asNullable⟩

/-- `first + 1 < second / first or true`. -/
def expression : Scalar :=
  .or (.compare .less (.arithmetic .add (.column first) (.literal (.integer 1) .integer) .integer)
    (.arithmetic .div (.column second) (.column first) ValueType.integer.asNullable)) (.literal (.bool true) .bool)

/-- The largest integer, and NULL. -/
def row : ValueRow := [(first, .integer 2147483647), (second, .null)]

def held : HeldRow := [(first, .present (.integer ⟨0⟩)), (second, .nullable (.integer ⟨1⟩) ⟨2⟩)]

/-- The values are the parameters of a function. -/
def builder : Builder :=
  ((((Builder.start { name := "example", encoding := .indicator } "example" [.i32, .i32, .i1] none).define .i32
    (.param 0)).2.define .i32 (.param 1)).2.define .i1 (.param 2)).2

def args : Array Word := #[2147483647, 0, 1]

def frame (size : Nat) : Frame := args ++ Array.replicate (size - 3) 0

theorem frame_value (size : Nat) (i : Fin 3) : (frame size).value ⟨i⟩ = args[i] := by
  have bound : i.val < args.size := i.isLt
  simp [frame, Frame.value, getD_eq_getD_getElem?, getElem?_append_left bound,
    getElem?_eq_getElem bound]

theorem builder_ready : builder.Ready := by
  refine ⟨rfl, fun slot member => ?_, ?_, by decide⟩
  · cases member
  · exact .nil

/-- A run of code that has been emitted after the parameters. -/
theorem exists_point [Emit.Growing code] (emitted : code builder = .ok x b) (slots : b.function.slots.size = 0) :
    ∃ (host : Host) (s : Point), s.builder = builder ∧ s.At host ∧
      b.Within host.function host.program ∧ HeldRow.Is s held row := by
  have grows : builder.Grows b := Emit.Growing.grows builder_ready emitted
  have size : 3 ≤ b.function.types.toList.length := grows.types.length_le
  rw [length_toList] at size
  let s : Point := ⟨builder, frame b.function.types.size, .start b.program { encoding := .indicator } {}⟩
  have number : (Present.integer ⟨0⟩).Is s (.integer 2147483647) :=
    ⟨_, .cons ⟨rfl, frame_value _ ⟨0, by decide⟩, by decide⟩ .nil, .integer 2147483647⟩
  have spare : (Present.integer ⟨1⟩).Spare s :=
    ⟨_, .cons ⟨rfl, frame_value _ ⟨1, by decide⟩, by decide⟩ .nil, .integer 0⟩
  refine ⟨Host.ending b [], s, rfl, ?_, (grows.ready.within_ending (.ret none)).1, .cons ⟨rfl, .present number⟩
    (.cons ⟨rfl, .null ⟨rfl, frame_value _ ⟨2, by decide⟩, by decide⟩ spare⟩ .nil)⟩
  exact Point.at_ending builder_ready grows (by simp [s, frame, args]; omega) rfl (eq_empty_of_size_eq_zero slots)

theorem exists_run (e : Scalar) (emits : (match e.emit held builder with
      | .ok _ b => decide (b.function.slots.size = 0)
      | .error _ _ => false) = true) : ∃ (host : Host) (s : Point) (h : Held) (b' : Builder), s.At host ∧
    HeldRow.Is s held row ∧ e.emit held s.builder = .ok h b' ∧
    b'.Within host.function host.program := by
  generalize emitted : e.emit held builder = result at emits
  cases result with
  | error fault b => cases emits
  | ok h b =>
    obtain ⟨host, s, same, here, within, is⟩ := exists_point emitted (of_decide_eq_true emits)
    exact ⟨host, s, h, b, here, is, same ▸ emitted, within⟩

end Scalar.Example

open Scalar.Example in
theorem Scalar.emit_computes_evaluate_example : ∃ (host : Host) (s s' : Point) (h : Held) (b' : Builder),
    s.At host ∧ HeldRow.Is s Example.held Example.row ∧ expression.emit Example.held s.builder = .ok h b' ∧
      b'.Within host.function host.program ∧
      expression.evaluate Example.row = some (.bool true, [.overflow .add .i32]) ∧ host.Steps s s' ∧ s'.builder = b' ∧
      h.Is s' (.bool true) ∧ s'.machine = s.machine.reportAll [.overflow .add .i32] := by
  obtain ⟨host, s, h, b, here, is, emitted, within⟩ := exists_run expression (by decide +kernel)
  obtain ⟨d, reports, s', gives, steps, builder', hIs, machine⟩ :=
    emit_computes_evaluate expression here is emitted within
  have evaluated : expression.evaluate Example.row = some (.bool true, [.overflow .add .i32]) := rfl
  cases gives.symm.trans evaluated
  exact ⟨host, s, s', h, b, here, is, emitted, within, evaluated, steps, builder', hIs, machine⟩

end QueryEngine
