import QueryEngine.Proofs.Execution.Branches

namespace QueryEngine

open List

variable {f : Function} {b : Builder} {program : Program}

namespace Builder

theorem start_ready (addressable : program.Addressable) (name : String) (params : List CodeType)
    (result : Option CodeType) : (start program name params result).Ready where
  isOpen := rfl
  slotBound := by simp [start]
  slotOrder := by simp [start]
  addressable := addressable

/-- The function that ends where the builder stands. -/
def ending (b : Builder) (terminator : Terminator) : Function := (b.terminate terminator).function

theorem Ready.within_ending (ready : b.Ready) (terminator : Terminator) :
    b.Within (b.ending terminator) b.program ∧ b.EndsWith (b.ending terminator) terminator := by
  -- No block is entered after the end: which one would be does not matter.
  have closed : (b.goTo terminator b.current).Sealed (b.ending terminator) b.program := {
    program := .refl _
    types := prefix_refl _
    slots := ⟨[], (append_nil _).symm, by simp⟩
    ended := fun {i block terminator'} found ended => ⟨block, found, ended, .refl _⟩ }
  exact Within.of_goTo ready closed

theorem Within.of_program (within : b.Within f p) (grows : p.Grows p') : b.Within f p' :=
  { within with program := within.program.trans grows }

end Builder

namespace Function

theorem verifyBlocks_ok {index : Nat} {blocks : List CodeBlock} (verified : f.verifyBlocks index blocks = .ok ()) :
    ∀ block ∈ blocks, block.terminator.isSome ∧ ∃ label, f.verifyLines label false block.lines.toList = .ok () := by
  induction blocks generalizing index with
  | nil => simp
  | cons block rest ih =>
    obtain ⟨_, checked, verified⟩ := Checked.bind_ok verified
    refine forall_mem_cons.mpr ⟨?_, ih verified⟩
    obtain ⟨ends, checked⟩ := Checked.guard_ok checked
    exact ⟨by simpa [Option.isSome_iff_ne_none] using ends, _, checked⟩

end Function

namespace Program

theorem finish_ok (finished : finish b = .ok program) :
    ∃ b', b' = (if b.function.result.isNone then b.terminate (.ret none) else b) ∧ b'.function.verify = .ok () ∧
      program.function? b.function.name = some b'.function ∧ b.program.Grows program := by
  refine ⟨_, rfl, ?_⟩
  rw [finish] at finished
  generalize ended : (if b.function.result.isNone then b.terminate (.ret none) else b) = b' at finished ⊢
  have name : b'.function.name = b.function.name := by
    rw [← ended]
    split <;> rfl
  have program : b'.program = b.program := by
    rw [← ended]
    split <;> rfl
  cases verified : b'.function.verify with
  | error fault => rw [verified] at finished; cases finished
  | ok =>
    rw [verified] at finished
    cases found : b'.program.function? b'.function.name with
    | some f => rw [found] at finished; cases finished
    | none =>
      rw [found] at finished
      cases finished
      rw [← name, ← program]
      refine ⟨rfl, ?_, ⟨rfl, .refl _, prefix_refl _, prefix_refl _, prefix_refl _, fun fits => ⟨fits.1, fits.2⟩⟩⟩
      rw [function?] at found ⊢
      simp [Array.find?_push, found]

end Program

/-- The frame in which the slots have these addresses. -/
def Frame.fill (frame : Frame) : List StackSlot → List Word → Frame
  | [], _ => frame
  | slot :: slots, words => (frame.set slot.address (words.headD 0)).fill slots words.tail

namespace Frame

variable {frame : Frame} {slots : List StackSlot} {words : List Word}

theorem fill_size : (frame.fill slots words).size = frame.size := by
  induction slots generalizing frame words with
  | nil => rfl
  | cons slot slots ih => rw [fill, ih, set_size]

theorem fill_value_of_ne (away : ∀ slot ∈ slots, r.index ≠ slot.address.index) :
    (frame.fill slots words).value r = frame.value r := by
  induction slots generalizing frame words with
  | nil => rfl
  | cons slot slots ih =>
    rw [fill, ih fun other member => away other (mem_cons_of_mem _ member), value_set_of_ne (away slot mem_cons_self)]

theorem fill_value (order : slots.Pairwise fun first second => first.address.index < second.address.index)
    (bound : ∀ slot ∈ slots, slot.address.index < frame.size) (index : Nat) (slot : StackSlot)
    (found : slots[index]? = some slot) : (frame.fill slots words).value slot.address = words.getD index 0 := by
  induction slots generalizing frame words index with
  | nil => cases found
  | cons first slots ih =>
    obtain ⟨others, order⟩ := pairwise_cons.mp order
    rw [fill]
    cases index with
    | zero =>
      cases found
      rw [fill_value_of_ne fun other member => Nat.ne_of_lt (others other member), value_set (bound _ mem_cons_self)]
      cases words <;> rfl
    | succ index =>
      rw [ih order (fun other member => by rw [set_size]; exact bound other (mem_cons_of_mem _ member)) index found]
      cases words <;> rfl

end Frame

/-- Stack slots get their memory one after the other. -/
theorem Run.enterFrame_eq (frame : Frame) (slots : List StackSlot) : enterFrame frame slots = (do
    let words ← (slots.map StackSlot.size).mapM slotAddress
    return frame.fill slots words) := by
  induction slots generalizing frame with
  | nil => rfl
  | cons slot slots ih =>
    simp only [enterFrame, ih, map_cons, mapM_cons, bind_assoc, pure_bind, Frame.fill, headD_cons, tail_cons]

/-- What a call of a function comes to. -/
def Run.call (routines : Routines) (f : Function) (args : List Word) (limit : Nat) : Run (Option Word) := do
  let frame ← enterFrame (Array.replicate f.types.size 0) f.slots.toList
  runFrom routines f args limit ⟨0⟩ ⟨0⟩ frame

theorem Run.functionWithin_enter (routines : Routines) (limit : Nat) (found : m.program.function? name = some f)
    (count : f.params.length = args.length) :
    functionWithin routines limit name args m = call routines f args limit m := by
  simp only [functionWithin, get_bind, found, count, ne_eq, not_true_eq_false, if_false]
  rfl

/-- The function that ends with the code of a builder, as a host of that code. -/
def Host.ending (b : Builder) (args : List Word) : Host where
  function := b.ending (.ret none)
  args
  program := b.program
  routines := Routine.run
  slots := fun _ => 0
  places := fun _ => 0

/-- A run can be at any earlier point of the code, if the function has no stack slots. -/
theorem Point.at_ending {args : List Word} {s : Point} (ready : s.builder.Ready) (grows : s.builder.Grows b)
    (frameSize : s.frame.size = b.function.types.size) (program : s.machine.program = b.program)
    (slots : b.function.slots = #[]) :
    s.At (Host.ending b args) where
  ready
  within := (grows.ready.within_ending (.ret none)).1.of_grows ready grows
  frameSize
  program
  routines := rfl
  slots := fun slot member => by
    have none : slot ∈ b.function.slots.toList := member
    simp [slots] at none

end QueryEngine
