import QueryEngine.Machine.Run
import QueryEngine.Proofs.Emission.Looping

namespace QueryEngine

open List

variable {frame : Frame}

namespace Frame

@[simp] theorem set_size (frame : Frame) (r : Reg) (w : Word) : (frame.set r w).size = frame.size := by
  simp [set]

theorem value_set_of_ne (other : r'.index ≠ r.index) : (frame.set r w).value r' = frame.value r' := by
  simp only [value, set, Array.getD_eq_getD_getElem?, Array.getElem?_setIfInBounds, if_neg other.symm]

theorem value_set (bound : r.index < frame.size) : (frame.set r w).value r = w := by
  simp [value, set, Array.getD_eq_getD_getElem?, bound]

end Frame

/-- A finished function in the program it belongs to, and what it is run with. -/
structure Host where
  function : Function
  args : List Word
  program : Program
  routines : Routines
  /-- What the registers of the stack slots hold. -/
  slots : Reg → Word
  /-- Where the bytes of the stack slots lie in the scratch arena. -/
  places : Reg → Nat

/-- Where a run stands: after the code that the builder has emitted. -/
structure Point where
  builder : Builder
  frame : Frame
  machine : Machine

variable {f : Function} {routines : Routines}

namespace Run

/-- What follows the last line of a block. -/
def follow (routines : Routines) (f : Function) (args : List Word) (limit : Nat) (label : Label) (terminator : Option Terminator)
    (frame : Frame) : Run (Option Word) :=
  match terminator with
  | some (.jump target) => runFrom routines f args limit label target frame
  | some (.branch cond thenBlock elseBlock) =>
    runFrom routines f args limit label (if frame.isSet cond then thenBlock else elseBlock) frame
  | some (.ret value) => return value.map frame.value
  | none => return none

theorem runFrom_succ (found : f.blocks[label.index]? = some block) :
    runFrom routines f args (limit + 1) source label frame = (do
      let frame ← runBlock routines f args source label block frame
      follow routines f args limit label block.terminator frame) := by
  rw [runFrom, found]
  rfl

/-- The lines of a block from some line on, and what follows them. -/
def resumeAt (routines : Routines) (f : Function) (args : List Word) (limit : Nat) (label : Label) (skip : Nat)
    (frame : Frame) : Run (Option Word) :=
  match f.blocks[label.index]? with
  | none => throw .trap
  | some block => do
    let frame ← runLines routines f args frame (block.lines.toList.drop skip)
    follow routines f args limit label block.terminator frame

end Run

namespace Host

open Builder

variable (host : Host)

/-- The rest of the run. -/
def resume (limit : Nat) (s : Point) : EStateM.Result (Fault RunError) Machine (Option Word) :=
  Run.resumeAt host.routines host.function host.args limit s.builder.current s.builder.lines.length s.frame s.machine

/-- The run comes from one point to another one. -/
def Steps (s s' : Point) : Prop := ∃ n, ∀ limit, host.resume (limit + n) s = host.resume limit s'

theorem Steps.refl (s : Point) : host.Steps s s := ⟨0, fun _ => rfl⟩

variable {host}

theorem Steps.trans (first : host.Steps s1 s2) (second : host.Steps s2 s3) : host.Steps s1 s3 := by
  obtain ⟨n, first⟩ := first
  obtain ⟨k, second⟩ := second
  refine ⟨k + n, fun limit => ?_⟩
  rw [← Nat.add_assoc, first, second]

end Host

/-- A place in the code of the host, and registers as a run has them there. -/
structure Point.Placed (host : Host) (s : Point) : Prop where
  ready : s.builder.Ready
  within : s.builder.Within host.function host.program
  frameSize : s.frame.size = host.function.types.size
  slots : ∀ slot ∈ host.function.slots.toList, s.frame.value slot.address = host.slots slot.address

/-- A point that a run of the host can be at. -/
structure Point.At (host : Host) (s : Point) : Prop extends s.Placed host where
  program : s.machine.program = host.program
  routines : host.routines = Routine.run

theorem Line.split_phis {start rest : List Line} (phis : ∀ line ∈ start, line.instruction.isPhi = true)
    (plain : ∀ line ∈ rest, line.instruction.isPhi = false) :
    (start ++ rest).takeWhile (fun line => line.instruction.isPhi) = start ∧
      (start ++ rest).dropWhile (fun line => line.instruction.isPhi) = rest := by
  induction start with
  | nil =>
    cases rest with
    | nil => exact ⟨rfl, rfl⟩
    | cons line rest => simp [plain line (mem_cons_self ..)]
  | cons line start ih =>
    have first := phis line (mem_cons_self ..)
    obtain ⟨taken, dropped⟩ := ih fun line member => phis line (mem_cons_of_mem _ member)
    simp [first, taken, dropped]

namespace Builder

/-- In a finished function the next line is the one that is emitted next. -/
theorem Within.next_line {b b' : Builder} {p : Program} {types : List CodeType} {line : Line} (within : b'.Within f p)
    (appends : b.Appends b' types [line]) (plain : line.instruction.isPhi = false) :
    ∃ block, f.blocks[b.current.index]? = some block ∧
      block.lines.toList.drop b.lines.length = line :: block.lines.toList.drop b'.lines.length := by
  obtain ⟨block, _, _, found, lines, refines, _⟩ := within.current
  rw [appends.newLines] at refines
  obtain ⟨_, _, rfl, left, right⟩ := refines.split
  have second_eq := right.eq_of_plain (by simpa using plain)
  subst second_eq
  refine ⟨block, by rw [← appends.position]; exact found, ?_⟩
  have length := left.length_eq
  rw [lines, appends.newLines, append_assoc, drop_left' length.symm, length_append, length,
    length_singleton, ← append_assoc, drop_left' (by simp)]
  rfl

/-- A block that ends where the builder stands goes on with its end. -/
theorem EndsWith.follow {b : Builder} {terminator : Terminator} (ends : b.EndsWith f terminator) (routines : Routines)
    (args : List Word) (limit : Nat) (frame : Frame) :
    Run.resumeAt routines f args limit b.current b.lines.length frame =
      Run.follow routines f args limit b.current (some terminator) frame := by
  obtain ⟨_, found, finished, refines⟩ := ends
  rw [Run.resumeAt, found]
  simp only [finished, refines.length_eq, drop_length]
  rfl

end Builder

variable {start : Nat}

namespace Run

/-- Words for the registers from number `start` on. -/
def phiResults (start : Nat) : List Word → List (Option Reg × Word)
  | [] => []
  | w :: words => (some ⟨start⟩, w) :: phiResults (start + 1) words

theorem phiValues_phiLines (edges : Forall₂ (fun entry r => entry.2.lookup source = some r) entries regs)
    (refines : Line.RefinesAll (Builder.phiLines start entries) lines) :
    phiValues frame block source lines m = .ok (phiResults start (regs.map frame.value)) m := by
  induction edges generalizing start lines with
  | nil => cases refines; rfl
  | @cons entry r entries regs edge _ ih =>
    obtain ⟨ty, incoming⟩ := entry
    cases refines with
    | @cons _ line _ lines head tail =>
      have found : ∃ more, line = ⟨some ⟨start⟩, .phi ty (incoming ++ more)⟩ := by
        cases head with
        | same => exact ⟨[], by simp⟩
        | phi _ _ _ more => exact ⟨more, rfl⟩
      obtain ⟨more, rfl⟩ := found
      have edge' : (incoming ++ more).lookup source = some r := by
        rw [lookup_append, edge]
        rfl
      simp only [phiValues, edge', bind, EStateM.bind, ih tail]
      rfl

theorem phiLines_isPhi : ∀ line ∈ Builder.phiLines start entries, line.instruction.isPhi = true := by
  induction entries generalizing start with
  | nil => intro line member; cases member
  | cons entry entries ih =>
    exact forall_mem_cons.mpr ⟨rfl, ih⟩

/-- A block that is entered gives its phis their values, and is run from its first other line on. -/
theorem runFrom_phis {args : List Word} {limit : Nat} {source label : Label} {block : CodeBlock} {regs : List Reg}
    {phis rest : List Line} (start : Nat) (entries : List (CodeType × List (Label × Reg)))
    (found : f.blocks[label.index]? = some block) (lines : block.lines.toList = phis ++ rest)
    (refines : Line.RefinesAll (Builder.phiLines start entries) phis)
    (plain : ∀ line ∈ rest, line.instruction.isPhi = false)
    (edges : Forall₂ (fun entry r => entry.2.lookup source = some r) entries regs) :
    runFrom routines f args (limit + 1) source label frame m =
      resumeAt routines f args limit label (Builder.phiLines start entries).length
        (assignPhis frame (phiResults start (regs.map frame.value))) m := by
  obtain ⟨taken, dropped⟩ := Line.split_phis (refines.all_phis phiLines_isPhi) plain
  rw [runFrom_succ found, runBlock, resumeAt, found]
  simp only [lines, taken, dropped, drop_left' refines.length_eq.symm, bind_assoc]
  rw [bind_of_ok (phiValues_phiLines edges refines)]

theorem assignPhis_size (frame : Frame) (start : Nat) (words : List Word) :
    (assignPhis frame (phiResults start words)).size = frame.size := by
  induction words generalizing frame start with
  | nil => rfl
  | cons w words ih => rw [phiResults, assignPhis, ih, Frame.set_size]

theorem assignPhis_other (away : r.index < start ∨ start + words.length ≤ r.index) :
    (assignPhis frame (phiResults start words)).value r = frame.value r := by
  induction words generalizing frame start with
  | nil => rfl
  | cons w words ih =>
    rw [length_cons] at away
    rw [phiResults, assignPhis, ih (by omega), Frame.value_set_of_ne (by change r.index ≠ start; omega)]

theorem assignPhis_values (bound : start + words.length ≤ frame.size) :
    Forall₂ (fun r w => (assignPhis frame (phiResults start words)).value r = w)
      (Builder.regsFrom start words.length) words := by
  induction words generalizing frame start with
  | nil => exact .nil
  | cons w words ih =>
    rw [length_cons] at bound
    refine .cons ?_ (ih (by rw [Frame.set_size]; omega))
    rw [phiResults, assignPhis, assignPhis_other (by left; exact Nat.lt_succ_self start),
      Frame.value_set (by change start < frame.size; omega)]

end Run

end QueryEngine
